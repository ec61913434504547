import SqlClauses.Clause
import SqlClauses.Cut.Lemmas
import SqlClauses.Proofs.Occurrence

/-!
# Reading a text hit by hit

The marks of a text are read one at a time, each from behind the one before. What such a run finds
is the cut of the text, which is made in one pass: its marks in their order, each where it stands,
and no mark in the gaps between them. The clauses of a text are read in the same way, by a reader
that is one keyword ahead.

* `Cut.ofTextFrom_of_next?_eq_some`: one step of a run, and `Cut.run_induction` all steps of one.
* `Cut.stands_of_mem_sections`, `Cut.not_marked_of_inGap`: where marks stand and where none does.
* `Scanner.draw_eq`, `ClauseReader.draw?_behind`: what the calls of a scanner and a reader return.
* `Clause.span_of_mem_listOfText`, `Clause.pairwise_listOfText`: where the keywords of clauses are.
* `clauses_partition_text`: the clauses of a text and its gaps make up the text.
-/

namespace SqlClauses

open Text

variable {κ : Type} [Mark κ]

/-! ## The place of a mark -/

/-- What a mark covers is its spelling. -/
theorem StandsAt.slice? {text : Text} {start : Nat} {mark : κ} (h : StandsAt text start mark) :
    (spanAt start mark).slice? text = some (Mark.spelling mark) := by
  obtain ⟨before, rest, rfl, rfl⟩ := h.exists_split
  exact Span.slice?_append before (Mark.spelling mark) rest

namespace Cut

/-! ## One step -/

theorem ofTextFrom_zero (text : Text) : (ofTextFrom 0 text : Cut κ) = ofText text := by
  unfold ofTextFrom
  rw [splitFrom_zero]
  rfl

theorem ofTextFrom_of_next?_eq_none {text : Text} {start : Nat}
    (h : (Hit.next? text start : Option (Hit κ)) = none) :
    (ofTextFrom start text : Cut κ) = ⟨text, []⟩ := by
  have hseek := Option.map_eq_none_iff.1 h
  have hcut := scan_of_seek_eq_none hseek
  unfold ofTextFrom
  dsimp only
  rw [hcut, splitFrom_append]

theorem sections_of_next?_eq_none {text : Text} {start : Nat}
    (h : (Hit.next? text start : Option (Hit κ)) = none) :
    (ofTextFrom start text : Cut κ).sections = [] := by
  rw [ofTextFrom_of_next?_eq_none h]
  rfl

theorem hits_of_next?_eq_none {text : Text} {start : Nat}
    (h : (Hit.next? text start : Option (Hit κ)) = none) :
    (ofTextFrom start text : Cut κ).hits = [] := by
  rw [hits, sections_of_next?_eq_none h]
  rfl

variable [TokenMark κ]

/-- The first mark from an offset on, what stands in front of it, and the text behind it, which is
cut on its own. -/
theorem ofTextFrom_of_next?_eq_some {text : Text} {start : Nat} {hit : Hit κ}
    (h : Hit.next? text start = some hit) :
    ∃ front tail pieces, hit.span = spanAt (byteLength front) hit.mark ∧
      ofTextFrom start text = ⟨front, ⟨hit.mark, tail⟩ :: pieces⟩ ∧
      ofTextFrom hit.span.stop text = ⟨front ++ (Mark.spelling hit.mark ++ tail), pieces⟩ := by
  obtain ⟨found, hseek, rfl⟩ := Option.map_eq_some_iff.1 h
  obtain ⟨hbehind, -, -⟩ := seek_eq_some hseek
  have hcut := scan_of_seek_eq_some hseek
  generalize hrest : (scan (opensAfter (Mark.spelling found.mark)) 0 found.rest : Cut κ) = later
    at hcut
  let front := (splitFrom start text).1 ++ found.lead
  have htext : text = front ++ Mark.spelling found.mark ++ found.rest := by
    rw [← splitFrom_append start text, hbehind]
    simp [front]
  refine ⟨front, later.lead, later.pieces, ?_, ?_, ?_⟩
  · show spanAt _ _ = spanAt (byteLength front) _
    rw [byteLength_append]
  · unfold ofTextFrom
    dsimp only
    rw [hcut]
    rfl
  · have hstop : byteLength (front ++ Mark.spelling found.mark) =
        (spanAt (byteLength (splitFrom start text).1 + byteLength found.lead) found.mark).stop := by
      rw [byteLength_append, byteLength_append]
      rfl
    dsimp only
    rw [← hstop, htext]
    unfold ofTextFrom
    rw [splitFrom_byteLength]
    dsimp only
    rw [opensAfter_append _ (Mark.spelling_ne_nil _), hrest, List.append_assoc]

/-- One step of a run: the first mark from `start` on with the gap behind it, and where the run goes
on. -/
structure Step (text : Text) (start : Nat) (hit : Hit κ) (tail : Text) : Prop where
  lead_eq : byteLength (ofTextFrom start text : Cut κ).lead = hit.span.start
  sections_eq : (ofTextFrom start text : Cut κ).sections =
    ⟨hit, tail⟩ :: (ofTextFrom hit.span.stop text : Cut κ).sections
  stop_add : hit.span.stop + byteLength tail =
    byteLength (ofTextFrom hit.span.stop text : Cut κ).lead
  slice?_eq : Span.slice? ⟨hit.span.stop, hit.span.stop + byteLength tail⟩ text = some tail

theorem step_of_next?_eq_some {text : Text} {start : Nat} {hit : Hit κ}
    (h : Hit.next? text start = some hit) : ∃ tail, Step text start hit tail := by
  obtain ⟨front, tail, pieces, hspan, hcut, hrest⟩ := ofTextFrom_of_next?_eq_some h
  have hstop : hit.span.stop = byteLength (front ++ Mark.spelling hit.mark) := by
    rw [hspan, byteLength_append]
    rfl
  have hlead : hit.span.stop + byteLength tail =
      byteLength (front ++ (Mark.spelling hit.mark ++ tail)) := by
    rw [hstop, ← byteLength_append, List.append_assoc]
  have htext := text_ofTextFrom (κ := κ) hit.span.stop text
  rw [hrest, Cut.text] at htext
  refine ⟨tail, ?_, ?_, ?_, ?_⟩
  · rw [hcut, hspan]
    rfl
  · rw [hcut, hrest, sections, sections, ← hlead, locate, ← hspan]
  · rw [hrest, hlead]
  · rw [← htext, hstop, ← List.append_assoc front, List.append_assoc (front ++ _)]
    exact Span.slice?_append _ _ _

theorem hits_of_next?_eq_some {text : Text} {start : Nat} {hit : Hit κ}
    (h : Hit.next? text start = some hit) :
    (ofTextFrom start text : Cut κ).hits = hit :: (ofTextFrom hit.span.stop text).hits := by
  obtain ⟨tail, hstep⟩ := step_of_next?_eq_some h
  rw [hits, hstep.sections_eq]
  rfl

/-- Where no mark stands between two offsets, a text is cut alike from both. -/
theorem ofTextFrom_eq_of_not_marked {text : Text} {start later : Nat} (hle : start ≤ later)
    (h : ∀ s, start ≤ s → s < later → ¬ Marked κ text s) :
    (ofTextFrom start text : Cut κ) = ofTextFrom later text := by
  have hsame := Hit.next?_eq_of_not_marked hle h
  cases hlater : (Hit.next? text later : Option (Hit κ)) with
  | none =>
    rw [ofTextFrom_of_next?_eq_none hlater, ofTextFrom_of_next?_eq_none (hsame.trans hlater)]
  | some hit =>
    obtain ⟨front, tail, pieces, hspan, hcut, hrest⟩ :=
      ofTextFrom_of_next?_eq_some (hsame.trans hlater)
    obtain ⟨front', tail', pieces', hspan', hcut', hrest'⟩ := ofTextFrom_of_next?_eq_some hlater
    have hlength : byteLength front = byteLength front' :=
      congrArg Span.start (hspan.symm.trans hspan')
    have htext : Cut.text ⟨front, ⟨hit.mark, tail⟩ :: pieces⟩ =
        Cut.text ⟨front', ⟨hit.mark, tail'⟩ :: pieces'⟩ := by
      rw [← hcut, ← hcut', text_ofTextFrom, text_ofTextFrom]
    obtain ⟨rfl, -⟩ := append_inj_of_byteLength_eq htext hlength
    rw [hrest, Cut.mk.injEq, List.append_cancel_left_eq, List.append_cancel_left_eq] at hrest'
    obtain ⟨rfl, rfl⟩ := hrest'
    rw [hcut, hcut']

/-- The first gap ends at the next mark, or at the end of the text. -/
theorem byteLength_lead (text : Text) (start : Nat) :
    byteLength (ofTextFrom start text : Cut κ).lead =
      ((Hit.next? text start : Option (Hit κ)).map fun hit => hit.span.start).getD
        (byteLength text) := by
  cases h : (Hit.next? text start : Option (Hit κ)) with
  | none =>
    rw [ofTextFrom_of_next?_eq_none h]
    rfl
  | some hit =>
    obtain ⟨tail, hstep⟩ := step_of_next?_eq_some h
    rw [hstep.lead_eq]
    rfl

/-! ## All steps -/

variable (κ) in
/-- What holds where no mark is left, and wherever it holds behind the next mark, holds from any
offset on. -/
theorem run_induction (text : Text) {motive : Nat → Prop}
    (last : ∀ start, (Hit.next? text start : Option (Hit κ)) = none → motive start)
    (next : ∀ start (hit : Hit κ), Hit.next? text start = some hit → motive hit.span.stop →
      motive start) (start : Nat) : motive start := by
  induction hn : byteLength text - start using Nat.strong_induction_on generalizing start with
  | _ n ih =>
    cases hnext : (Hit.next? text start : Option (Hit κ)) with
    | none => exact last start hnext
    | some hit =>
      have hfirst := Hit.next?_eq_some_iff.1 hnext
      have hstart := hfirst.start_le
      have hlt := hfirst.start_lt_stop
      have hstop := hfirst.stop_le
      exact next start hit hnext (ih _ (by omega) hit.span.stop rfl)

/-- Every hit stands in the text where its span says, at the offset of the search or behind it. -/
theorem stands_of_mem_sections {text : Text} {start : Nat} :
    ∀ part ∈ (ofTextFrom start text : Cut κ).sections, start ≤ part.span.start ∧
      StandsAt text part.span.start part.mark ∧ part.span = spanAt part.span.start part.mark := by
  induction start using run_induction κ text with
  | last start h =>
    rw [sections_of_next?_eq_none h]
    simp
  | next start hit h ih =>
    obtain ⟨tail, hstep⟩ := step_of_next?_eq_some h
    have hfirst := Hit.next?_eq_some_iff.1 h
    rw [hstep.sections_eq]
    intro part hpart
    rcases List.mem_cons.1 hpart with rfl | hpart
    · exact ⟨hfirst.start_le, hfirst.stands, hfirst.span_eq⟩
    · obtain ⟨hle, hstands⟩ := ih part hpart
      have hstart := hfirst.start_le
      have hlt := hfirst.start_lt_stop
      exact ⟨by omega, hstands⟩

/-- So it covers the spelling of its mark. -/
theorem span_of_mem_sections {text : Text} {start : Nat} {part : Section κ}
    (h : part ∈ (ofTextFrom start text : Cut κ).sections) :
    part.span.start < part.span.stop ∧
      part.span.stop = part.span.start + byteLength (Mark.spelling part.mark) ∧
      part.span.slice? text = some (Mark.spelling part.mark) := by
  obtain ⟨-, hstands, hspan⟩ := stands_of_mem_sections part h
  refine ⟨?_, congrArg Span.stop hspan, ?_⟩
  · rw [hspan]
    exact spanAt_start_lt_stop _ _
  · rw [hspan]
    exact hstands.slice?

/-- Hits follow each other without overlap. -/
theorem pairwise_sections (text : Text) (start : Nat) :
    (ofTextFrom start text : Cut κ).sections.Pairwise fun first second =>
      first.span.stop ≤ second.span.start := by
  induction start using run_induction κ text with
  | last start h =>
    rw [sections_of_next?_eq_none h]
    exact .nil
  | next start hit h ih =>
    obtain ⟨tail, hstep⟩ := step_of_next?_eq_some h
    rw [hstep.sections_eq]
    refine .cons ?_ ih
    intro part hpart
    exact (stands_of_mem_sections part hpart).1

omit [TokenMark κ] in
/-- A byte lies in a gap: in front of the first mark, or behind one and in front of the next. -/
def InGap (cut : Cut κ) (byte : Nat) : Prop :=
  byte < byteLength cut.lead ∨
    ∃ part ∈ cut.sections, part.span.stop ≤ byte ∧ byte < part.span.stop + byteLength part.tail

/-- In the gaps of a text stands no mark. -/
theorem not_marked_of_inGap {text : Text} {start byte : Nat} (hbyte : start ≤ byte)
    (hgap : (ofTextFrom start text : Cut κ).InGap byte) : ¬ Marked κ text byte := by
  induction start using run_induction κ text with
  | last start h => exact Hit.next?_eq_none_iff.1 h byte hbyte
  | next start hit h ih =>
    obtain ⟨tail, hstep⟩ := step_of_next?_eq_some h
    have hfirst := Hit.next?_eq_some_iff.1 h
    unfold InGap at hgap
    rw [hstep.sections_eq, hstep.lead_eq] at hgap
    rcases hgap with hbefore | ⟨part, hpart, hstop, htailpart⟩
    · exact hfirst.not_marked byte hbyte hbefore
    · rcases List.mem_cons.1 hpart with rfl | hpart
      · rw [hstep.stop_add] at htailpart
        exact ih hstop (.inl htailpart)
      · obtain ⟨hle, -⟩ := stands_of_mem_sections part hpart
        obtain ⟨hlt, -⟩ := span_of_mem_sections hpart
        exact ih (by omega) (.inr ⟨part, hpart, hstop, htailpart⟩)

end Cut

/-! ## What a scanner returns -/

/-- The first elements of a list, one by one, and nothing where it has ended. -/
theorem map_getElem?_range_succ {α : Type} (items : List α) (count : Nat) :
    (List.range (count + 1)).map (fun k => items[k]?) =
      items.head? :: (List.range count).map fun k => items.tail[k]? := by
  rw [List.range_succ_eq_map, List.map_cons, List.map_map, List.head?_eq_getElem?]
  simp only [Function.comp_def, Nat.succ_eq_add_one, List.getElem?_tail]

namespace Scanner

/-- What a scanner has still to read: keywords and the gaps behind them. -/
def sections (scanner : Scanner) : List (Section Keyword) :=
  (Cut.ofTextFrom scanner.position scanner.text).sections

/-- The clauses that a scanner has still to read. -/
def clauses (scanner : Scanner) : List Clause := scanner.sections.map Clause.ofSection

theorem remaining_eq (scanner : Scanner) :
    scanner.remaining = scanner.sections.map Section.toHit := rfl

theorem sections_ofText (text : Text) : (ofText text).sections = (Cut.ofText text).sections :=
  congrArg Cut.sections (Cut.ofTextFrom_zero text)

theorem clauses_ofText (text : Text) : (ofText text).clauses = Clause.listOfText text :=
  congrArg (List.map Clause.ofSection) (sections_ofText text)

theorem next_fst (scanner : Scanner) :
    scanner.next.1 = Keyword.nextHit? scanner.text scanner.position := by
  unfold next
  split
  · next hit h => exact h.symm
  · next h => exact h.symm

theorem next_of_eq_some {scanner : Scanner} {hit : Hit Keyword}
    (h : Keyword.nextHit? scanner.text scanner.position = some hit) :
    scanner.next = (some hit, { scanner with position := hit.span.stop }) := by
  unfold next
  rw [h]

/-- A call hands out the first keyword that is left and leaves the others. -/
theorem next_eq (scanner : Scanner) :
    scanner.next.1 = scanner.sections.head?.map Section.toHit ∧
      scanner.next.2.sections = scanner.sections.tail := by
  cases h : Keyword.nextHit? scanner.text scanner.position with
  | none =>
    have hsections : scanner.sections = [] := Cut.sections_of_next?_eq_none h
    have hfinish : scanner.finish.sections = [] := by
      refine Cut.sections_of_next?_eq_none (Hit.next?_eq_none_iff.2 ?_)
      intro s hs
      exact Hit.next?_eq_none_iff.1 h s (Nat.le_trans (Nat.le_max_left _ _) hs)
    unfold next
    rw [h, hsections]
    exact ⟨rfl, hfinish⟩
  | some hit =>
    obtain ⟨tail, hstep⟩ := Cut.step_of_next?_eq_some h
    have hsections : scanner.sections = _ := hstep.sections_eq
    unfold next
    rw [h, hsections]
    exact ⟨rfl, rfl⟩

theorem draw_succ (count : Nat) (scanner : Scanner) :
    scanner.draw (count + 1) = scanner.next.1 :: scanner.next.2.draw count := rfl

theorem next_remaining (scanner : Scanner) :
    scanner.next.1 = scanner.remaining.head? ∧
      scanner.next.2.remaining = scanner.remaining.tail := by
  obtain ⟨hhead, htail⟩ := scanner.next_eq
  rw [remaining_eq, remaining_eq, List.head?_map, hhead, htail, List.map_tail]
  exact ⟨rfl, rfl⟩

/-- Call by call, a scanner hands out the keywords that are left, and then nothing any more. -/
theorem draw_eq (count : Nat) (scanner : Scanner) :
    scanner.draw count = (List.range count).map fun k => scanner.remaining[k]? := by
  induction count generalizing scanner with
  | zero => rfl
  | succ count ih =>
    obtain ⟨hhead, htail⟩ := scanner.next_remaining
    rw [draw_succ, ih, hhead, htail, map_getElem?_range_succ]

end Scanner

/-! ## What a reader returns -/

namespace ClauseReader

/-- The reader that has just read the next keyword of a scanner. -/
def behind (scanner : Scanner) : ClauseReader := ⟨scanner.next.2, scanner.next.1⟩

/-- A call hands out the first clause that is left and leaves the others. -/
theorem next?_behind (scanner : Scanner) :
    ∃ following : Scanner, (behind scanner).next? = some (scanner.clauses.head?, behind following) ∧
      following.clauses = scanner.clauses.tail := by
  cases h : Keyword.nextHit? scanner.text scanner.position with
  | none =>
    have hclauses : scanner.clauses = [] := by
      rw [Scanner.clauses, Scanner.sections, Cut.sections_of_next?_eq_none h]
      rfl
    have hahead : (behind scanner).ahead = none := scanner.next_fst.trans h
    refine ⟨scanner, ?_, by rw [hclauses]; rfl⟩
    unfold next?
    rw [hahead, hclauses]
    rfl
  | some hit =>
    obtain ⟨tail, hstep⟩ := Cut.step_of_next?_eq_some h
    let following : Scanner := { scanner with position := hit.span.stop }
    have hclauses : scanner.clauses = ⟨⟨hit.mark, trim tail⟩, hit.span⟩ :: following.clauses :=
      congrArg (List.map Clause.ofSection) hstep.sections_eq
    have hbehind : behind scanner = ⟨following, some hit⟩ := by
      rw [behind, Scanner.next_of_eq_some h]
    have hgap : gap ⟨following, some hit⟩ hit following.next.1 =
        ⟨hit.span.stop, hit.span.stop + byteLength tail⟩ := by
      rw [hstep.stop_add, Cut.byteLength_lead, gap, following.next_fst]
      rfl
    refine ⟨following, ?_, by rw [hclauses]; rfl⟩
    rw [hbehind, hclauses]
    unfold next?
    dsimp only
    rw [hgap, show following.text = scanner.text from rfl, hstep.slice?_eq]
    rfl

theorem draw?_succ {count : Nat} {reader following : ClauseReader} {clause : Option Clause}
    (h : reader.next? = some (clause, following)) :
    reader.draw? (count + 1) = (following.draw? count).map (clause :: ·) := by
  rw [draw?, h]
  cases h : following.draw? count with
  | none => simp [h]
  | some clauses => simp [h]

/-- Call by call, a reader hands out the clauses that are left, and then nothing any more. -/
theorem draw?_behind (count : Nat) (scanner : Scanner) :
    (behind scanner).draw? count =
      some ((List.range count).map fun k => scanner.clauses[k]?) := by
  induction count generalizing scanner with
  | zero => rfl
  | succ count ih =>
    obtain ⟨following, hnext, htail⟩ := next?_behind scanner
    rw [draw?_succ hnext, ih, htail, map_getElem?_range_succ]
    rfl

end ClauseReader

/-! ## The clauses of a text -/

namespace Clause

/-- The place of a clause, which is that of its keyword. -/
def hit (clause : Clause) : Hit Keyword := ⟨clause.keyword, clause.span⟩

/-- The keyword of a clause is what its span covers. -/
theorem span_of_mem_listOfText {text : Text} {clause : Clause} (h : clause ∈ listOfText text) :
    clause.span.start < clause.span.stop ∧
      clause.span.slice? text = some clause.keyword.spelling := by
  rw [listOfText, ← Cut.ofTextFrom_zero] at h
  obtain ⟨part, hpart, rfl⟩ := List.mem_map.1 h
  obtain ⟨hlt, -, hslice⟩ := Cut.span_of_mem_sections hpart
  exact ⟨hlt, hslice⟩

/-- The keywords of a text stand one behind the other. -/
theorem pairwise_listOfText (text : Text) :
    (listOfText text).Pairwise fun first second =>
      first.span.start < second.span.start ∧ first.span.stop ≤ second.span.start := by
  have hstop : (listOfText text).Pairwise fun first second =>
      first.span.stop ≤ second.span.start := by
    rw [listOfText, ← Cut.ofTextFrom_zero]
    exact List.pairwise_map.2 (Cut.pairwise_sections text 0)
  apply hstop.imp_of_mem
  intro first second hfirst _ hle
  have hlt := (span_of_mem_listOfText hfirst).1
  exact ⟨by omega, hle⟩

end Clause

/-- The clauses of a text are handed out one by one, each at the place where a scanner finds its
keyword, and then nothing any more. The keywords cover their spelling and do not overlap. With the
raw texts between them they make up the text, each content is one of these without its outer blanks,
and no keyword stands in any of them. -/
theorem clauses_partition_text (text : Text) :
    let clauses := Clause.listOfText text
    (∀ count, (ClauseReader.ofText text).draw? count =
      some ((List.range count).map fun k => clauses[k]?)) ∧
    (∀ count, (Scanner.ofText text).draw count =
      (List.range count).map fun k => (clauses[k]?).map Clause.hit) ∧
    (∀ clause ∈ clauses, clause.span.start < clause.span.stop ∧
      clause.span.slice? text = some clause.keyword.spelling) ∧
    (clauses.Pairwise fun first second => first.span.stop ≤ second.span.start) ∧
    ∃ cut : Cut Keyword, cut.text = text ∧ clauses = cut.sections.map Clause.ofSection ∧
      ∀ byte, cut.InGap byte → ¬ Marked Keyword text byte := by
  intro clauses
  have hclauses : (Scanner.ofText text).clauses = clauses := Scanner.clauses_ofText text
  refine ⟨?_, ?_, ?_, ?_, Cut.ofText text, Cut.text_ofText text, rfl, ?_⟩
  · intro count
    rw [← hclauses]
    exact ClauseReader.draw?_behind count (Scanner.ofText text)
  · intro count
    rw [Scanner.draw_eq, Scanner.remaining_eq, Scanner.sections_ofText]
    apply List.map_congr_left
    intro k _
    show _ = ((Cut.ofText text).sections.map Clause.ofSection)[k]?.map Clause.hit
    rw [List.getElem?_map, List.getElem?_map, Option.map_map]
    rfl
  · intro clause hclause
    exact Clause.span_of_mem_listOfText hclause
  · exact (Clause.pairwise_listOfText text).imp And.right
  · intro byte hbyte
    rw [← Cut.ofTextFrom_zero] at hbyte
    exact Cut.not_marked_of_inGap (Nat.zero_le byte) hbyte

/-- A character of two bytes is dropped, a word and the parenthesis behind it are keywords of their
own, and behind the last clause there is none. -/
theorem clauses_partition_text_values :
    let text := "é SELECT(a) LEFT JOIN".toList
    (ClauseReader.ofText text).draw? 6 =
      some [some ⟨⟨.select, []⟩, ⟨3, 9⟩⟩, some ⟨⟨.openParen, ['a']⟩, ⟨9, 10⟩⟩,
        some ⟨⟨.closeParen, []⟩, ⟨11, 12⟩⟩, some ⟨⟨.leftJoin, []⟩, ⟨13, 22⟩⟩, none, none] ∧
      Span.slice? ⟨13, 22⟩ text = some Keyword.leftJoin.spelling := by
  intro text
  have hclauses : Clause.listOfText text =
      [⟨⟨.select, []⟩, ⟨3, 9⟩⟩, ⟨⟨.openParen, ['a']⟩, ⟨9, 10⟩⟩, ⟨⟨.closeParen, []⟩, ⟨11, 12⟩⟩,
        ⟨⟨.leftJoin, []⟩, ⟨13, 22⟩⟩] := by decide +kernel
  obtain ⟨hdraw, -, hslice, -⟩ := clauses_partition_text text
  rw [hclauses] at hdraw hslice
  refine ⟨hdraw 6, ?_⟩
  exact (hslice ⟨⟨.leftJoin, []⟩, ⟨13, 22⟩⟩ (by simp)).2

end SqlClauses
