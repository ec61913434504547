import Mathlib.Data.List.Sort
import SqlClauses.Condition
import SqlClauses.Proofs.Resumption

/-!
# The exact cut of a text

A cut of a text is exact if its marks stand where it has them and no mark stands in its gaps. There
is one such cut, which is the one that is found by reading from the front. The conditions of a content
are the gaps of its exact cut at the connectives; and since no connective stands inside another one,
there is one condition more than there are places where a connective stands.

* `Cut.exact_iff`: the exact cut of a text.
* `Cut.exists_hit_of_marked`, `Cut.hits_eq_markedOffsets`: where marks stand, the cut has them.
* `conditions_partition_text`: the conditions of a content.
-/

namespace SqlClauses

open Text

variable {κ : Type} [Mark κ]

namespace Cut

/-! ## Exact cuts -/

/-- The pieces of a cut make up the text, its marks stand at their places, and no mark stands in a
gap. -/
structure Exact (text : Text) (cut : Cut κ) : Prop where
  text_eq : cut.text = text
  stands : ∀ hit ∈ cut.hits, StandsAt text hit.span.start hit.mark
  not_marked : ∀ byte, cut.InGap byte → ¬ Marked κ text byte

variable [TokenMark κ]

/-- Reading from the front gives an exact cut. -/
theorem exact_ofText (text : Text) : (ofText text : Cut κ).Exact text where
  text_eq := text_ofText text
  stands := by
    rw [← ofTextFrom_zero]
    intro hit hhit
    exact (stands_of_mem_hits hhit).2.1
  not_marked := by
    rw [← ofTextFrom_zero]
    intro byte hgap
    exact not_marked_of_inGap (Nat.zero_le byte) hgap

/-- If the marks of some pieces stand in a text and none does between them, the text is cut into
these pieces from the first of them on. -/
theorem ofTextFrom_eq_of_pieces {text front : Text} {pieces : List (Piece κ)}
    (htext : Cut.text ⟨front, pieces⟩ = text)
    (hstands : ∀ part ∈ locate (byteLength front) pieces, StandsAt text part.span.start part.mark)
    (hgaps : ∀ part ∈ locate (byteLength front) pieces, ∀ byte, part.span.stop ≤ byte →
      byte < part.span.stop + byteLength part.tail → ¬ Marked κ text byte) :
    (ofTextFrom (byteLength front) text : Cut κ) = ⟨front, pieces⟩ := by
  induction pieces generalizing front with
  | nil =>
    have hfront : front = text := by simpa [Cut.text] using htext
    have hnone : (Hit.next? text (byteLength front) : Option (Hit κ)) = none := by
      rw [hfront]
      apply Hit.next?_eq_none_iff.2
      intro s hs hmarked
      exact Nat.not_lt.2 hs hmarked.lt_byteLength
    rw [ofTextFrom_of_next?_eq_none hnone, hfront]
  | cons piece pieces ih =>
    let behind := front ++ (Mark.spelling piece.mark ++ piece.tail)
    have hbehind : (spanAt (byteLength front) piece.mark).stop + byteLength piece.tail =
        byteLength behind := by
      rw [byteLength_append, byteLength_append, ← Nat.add_assoc]
      rfl
    rw [locate, List.forall_mem_cons] at hstands hgaps
    dsimp only at hstands hgaps
    rw [hbehind] at hstands hgaps
    obtain ⟨(hmark : StandsAt text (byteLength front) piece.mark), hstands⟩ := hstands
    obtain ⟨htail, hgaps⟩ := hgaps
    -- from behind the mark on, the text is cut as from the end of the gap that follows it
    have hrest : (ofTextFrom (byteLength behind) text : Cut κ) = ⟨behind, pieces⟩ := by
      refine ih ?_ hstands hgaps
      rw [← htext]
      simp [Cut.text, behind]
    have hsame := ofTextFrom_eq_of_not_marked (hbehind ▸ Nat.le_add_right _ _) htail
    obtain ⟨front', tail, pieces', hspan, hcut, hlater⟩ := ofTextFrom_of_next?_eq_some hmark.next?_eq
    rw [hsame, hrest, Cut.mk.injEq] at hlater
    obtain ⟨hlead, rfl⟩ := hlater
    obtain ⟨rfl, hpiece⟩ := append_inj_of_byteLength_eq hlead (congrArg Span.start hspan)
    obtain rfl : piece.tail = tail := List.append_cancel_left hpiece
    exact hcut

/-- No other cut is exact. -/
theorem exact_iff {text : Text} {cut : Cut κ} : cut.Exact text ↔ cut = ofText text := by
  constructor
  · rintro ⟨htext, hstands, hgaps⟩
    have hlead : ∀ s, 0 ≤ s → s < byteLength cut.lead → ¬ Marked κ text s :=
      fun s _ hlt => hgaps s (.inl hlt)
    rw [← ofTextFrom_zero, ofTextFrom_eq_of_not_marked (Nat.zero_le _) hlead]
    symm
    refine ofTextFrom_eq_of_pieces htext ?_ ?_
    · intro part hpart
      exact hstands part.toHit (List.mem_map_of_mem hpart)
    · intro part hpart byte hlow hhigh
      exact hgaps byte (.inr ⟨part, hpart, hlow, hhigh⟩)
  · rintro rfl
    exact exact_ofText text

/-! ## Where marks stand -/

/-- A place where a mark stands is covered by a hit. -/
theorem exists_hit_of_marked {text : Text} {start s : Nat} (hs : start ≤ s)
    (h : Marked κ text s) :
    ∃ hit ∈ (ofTextFrom start text : Cut κ).hits, hit.span.start ≤ s ∧ s < hit.span.stop := by
  induction start using run_induction κ text with
  | last start hnext => exact absurd h (Hit.next?_eq_none_iff.1 hnext s hs)
  | next start hit hnext ih =>
    rw [hits_of_next?_eq_some hnext]
    by_cases hbehind : hit.span.stop ≤ s
    · obtain ⟨other, hother, hcovers⟩ := ih hbehind
      exact ⟨other, List.mem_cons_of_mem _ hother, hcovers⟩
    · refine ⟨hit, List.mem_cons_self, ?_, Nat.lt_of_not_le hbehind⟩
      by_contra hbefore
      exact (Hit.next?_eq_some_iff.1 hnext).not_marked s hs (Nat.lt_of_not_le hbefore) h

/-- The hits of a run start at ever larger offsets. -/
theorem pairwise_start_hits (text : Text) (start : Nat) :
    ((ofTextFrom start text : Cut κ).hits.map fun hit => hit.span.start).Pairwise (· < ·) := by
  rw [hits, List.map_map, List.pairwise_map]
  refine (pairwise_sections text start).imp_of_mem ?_
  intro first second hfirst _ hstop
  exact Nat.lt_of_lt_of_le (span_of_mem_sections hfirst).1 hstop

end Cut

variable [TokenMark κ]

instance (text : Text) (start : Nat) : Decidable (Marked κ text start) :=
  decidable_of_iff (∃ mark ∈ (Mark.candidates : List κ), StandsAt text start mark)
    ⟨fun ⟨mark, _, h⟩ => ⟨mark, h⟩, fun ⟨mark, h⟩ => ⟨mark, TokenMark.mem_candidates mark, h⟩⟩

variable (κ) in
/-- The offsets at which a mark stands, in order. -/
def markedOffsets (text : Text) : List Nat :=
  (List.range (byteLength text)).filter fun s => Marked κ text s

theorem mem_markedOffsets {text : Text} {s : Nat} : s ∈ markedOffsets κ text ↔ Marked κ text s := by
  simp only [markedOffsets, List.mem_filter, List.mem_range, decide_eq_true_eq, and_iff_right_iff_imp]
  exact Marked.lt_byteLength

/-- If no mark has two words, the hits of a text start where marks stand. -/
theorem Cut.hits_eq_markedOffsets (hspace : ∀ mark : κ, ' ' ∉ Mark.spelling mark) (text : Text) :
    ((Cut.ofText text : Cut κ).hits.map fun hit => hit.span.start) = markedOffsets κ text := by
  rw [← Cut.ofTextFrom_zero]
  have hsorted : (markedOffsets κ text).Pairwise (· < ·) := List.pairwise_lt_range.filter _
  refine (Cut.pairwise_start_hits text 0).eq_of_mem_iff hsorted ?_
  intro s
  rw [mem_markedOffsets]
  constructor
  · intro hs
    obtain ⟨hit, hhit, rfl⟩ := List.mem_map.1 hs
    exact ⟨hit.mark, (Cut.stands_of_mem_hits hhit).2.1⟩
  · rintro ⟨inner, hinner⟩
    obtain ⟨hit, hhit, hlow, hhigh⟩ := Cut.exists_hit_of_marked (Nat.zero_le s) ⟨inner, hinner⟩
    obtain ⟨-, houter, hspan⟩ := Cut.stands_of_mem_hits hhit
    rw [hspan] at hhigh
    -- strictly inside the hit nothing stands, since a second word would be needed
    by_cases heq : hit.span.start = s
    · exact List.mem_map.2 ⟨hit, hhit, heq⟩
    · obtain ⟨first, second, hspelling, -⟩ := houter.inside hinner (by omega) hhigh
      exact absurd (by simp [hspelling]) (hspace hit.mark)

/-! ## Conditions -/

/-- A content is made up of its conditions, as raw texts, and the connectives between them, in one
way only: each connective stands there as a whole token, and nowhere in a condition does one. The
conditions are these texts without the blanks at their ends, one more than there are offsets at which
a connective stands. -/
theorem conditions_partition_text (content : Text) :
    ∃ cut : Cut Connective,
      cut.Exact content ∧ (∀ other : Cut Connective, other.Exact content → other = cut) ∧
      Condition.listOfText content = cut.gaps.map trim ∧
      (cut.hits.map fun hit => hit.span.start) = markedOffsets Connective content ∧
      (Condition.listOfText content).length = (markedOffsets Connective content).length + 1 := by
  have hspace : ∀ mark : Connective, ' ' ∉ Mark.spelling mark := by
    intro mark
    cases mark <;> decide
  have hhits := Cut.hits_eq_markedOffsets hspace content
  refine ⟨Cut.ofText content, Cut.exact_ofText content, fun other => Cut.exact_iff.1, rfl, hhits, ?_⟩
  rw [← hhits, Condition.listOfText, List.length_map, List.length_map, Cut.length_gaps]

/-- A connective at the front, one before a parenthesis and two in a row leave empty conditions; in a
longer word and behind a space that does not break lines stands none. -/
theorem conditions_partition_text_values :
    let content := "AND(é OR OR)BRAND\u00A0AND".toList
    Condition.listOfText content = [[], "(é".toList, [], ")BRAND\u00A0AND".toList] ∧
      markedOffsets Connective content = [0, 7, 10] := by
  intro content
  obtain ⟨cut, -, hunique, hlist, hoffsets, -⟩ := conditions_partition_text content
  have hexact : Cut.Exact content ⟨[], [⟨Connective.and, "(é ".toList⟩, ⟨Connective.or, [' ']⟩,
      ⟨Connective.or, ")BRAND\u00A0AND".toList⟩]⟩ :=
    Cut.exact_iff.2 (by decide +kernel)
  obtain rfl := hunique _ hexact
  exact ⟨hlist.trans (by decide +kernel), hoffsets.symm.trans (by decide +kernel)⟩

end SqlClauses
