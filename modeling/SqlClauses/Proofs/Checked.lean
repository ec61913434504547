import SqlClauses.Checked
import SqlClauses.Proofs.Query
import SqlClauses.Proofs.Recording
import SqlClauses.Proofs.Scanning

/-!
# Reading with checks: laws

Every check of a checked reading passes, on any text and from any offset, and every loop comes to an
end, so the result is there and it is the one of the reading without checks.

* `wordAt?_eq_standsAt`, `Keyword.at?_eq`: the bytes that are read at an offset are there, and they
  tell which mark stands there.
* `next?_of_standing?_eq_some`, `next?_of_standing?_eq_none`: one round of a search over offsets.
* `Scanner.checkedNext?_eq`, `Condition.checkedFrom?_of_next?`: all rounds of one.
* `checked_readings`: scanner, clauses, conditions and expressions.
-/

namespace SqlClauses

open Text

/-! ## Bytes -/

section Bytes

variable {bytes : List UInt8} {start : Nat}

theorem bytesFrom?_eq (h : start ≤ bytes.length) :
    bytesFrom? bytes start = some (bytes.drop start) :=
  if_pos h

/-- In front of an offset inside the bytes there is one, unless it is the first. -/
theorem opensAt?_eq (h : start ≤ bytes.length) :
    opensAt? bytes start = some ((bytes.take start).getLast?.all isBoundaryByte) := by
  cases start with
  | zero => rfl
  | succ start =>
    have hlt : start < bytes.length := h
    rw [opensAt?, List.getLast?_take, if_neg (Nat.succ_ne_zero start), Nat.add_sub_cancel,
      List.getElem?_eq_getElem hlt]
    rfl

theorem closesAt?_eq (bytes : List UInt8) (stop : Nat) :
    closesAt? bytes stop = some ((bytes.drop stop).head?.all isBoundaryByte) := by
  rw [List.head?_drop]
  unfold closesAt?
  by_cases h : bytes.length ≤ stop
  · rw [if_pos h, List.getElem?_eq_none h]
    rfl
  · rw [if_neg h, List.getElem?_eq_getElem (Nat.lt_of_not_le h)]
    rfl

/-- A word is looked for without reading outside the bytes. -/
theorem wordAt?_eq (h : start ≤ bytes.length) (word : List UInt8) :
    wordAt? bytes start word =
      some (word.isPrefixOf (bytes.drop start) &&
        ((bytes.take start).getLast?.all isBoundaryByte &&
          (bytes.drop (start + word.length)).head?.all isBoundaryByte)) := by
  unfold wordAt?
  rw [bytesFrom?_eq h, opensAt?_eq h, closesAt?_eq]
  show (if word.isPrefixOf (bytes.drop start) then
      if (bytes.take start).getLast?.all isBoundaryByte then some _ else some false
    else some false) = _
  cases word.isPrefixOf (bytes.drop start) with
  | false => rfl
  | true =>
    cases (bytes.take start).getLast?.all isBoundaryByte with
    | false => rfl
    | true => rfl

end Bytes

section Marks

variable {κ : Type} [Mark κ] {text : Text} {start : Nat}

/-- What is found where a word is looked for is whether it stands there. -/
theorem wordAt?_eq_standsAt (hstart : start ≤ byteLength text) {mark : κ}
    (hword : Mark.isWord mark = true) :
    wordAt? (bytes text) start (bytes (Mark.spelling mark)) =
      some (decide (StandsAt text start mark)) := by
  have hlength : start ≤ (bytes text).length := by rwa [length_bytes]
  rw [wordAt?_eq hlength]
  apply congrArg
  rw [Bool.eq_iff_iff, decide_eq_true_iff, Bool.and_eq_true, Bool.and_eq_true,
    List.isPrefixOf_iff_prefix]
  unfold StandsAt
  rw [hword]
  constructor
  · rintro ⟨hbegins, hends⟩
    exact ⟨hbegins, fun _ => hends⟩
  · rintro ⟨hbegins, hends⟩
    exact ⟨hbegins, hends rfl⟩

/-! ## One round of a search -/

/-- The mark that stands at an offset. -/
def standing? (κ : Type) [Mark κ] (text : Text) (start : Nat) : Option κ :=
  Mark.candidates.find? fun mark => decide (StandsAt text start mark)

/-- A search in which each mark is looked for without fail. -/
theorem findM?_eq_standing? {found? : κ → Option Bool}
    (h : ∀ mark, found? mark = some (decide (StandsAt text start mark))) :
    Mark.candidates.findM? found? = some (standing? κ text start) := by
  rw [show found? = fun mark => pure (decide (StandsAt text start mark)) from funext h]
  exact List.findM?_pure _ _

variable [TokenMark κ]

theorem not_marked_of_standing?_eq_none (h : standing? κ text start = none) :
    ¬ Marked κ text start := by
  rintro ⟨mark, hmark⟩
  exact List.find?_eq_none.1 h mark (TokenMark.mem_candidates mark) (decide_eq_true hmark)

/-- A search ends where a mark stands. -/
theorem next?_of_standing?_eq_some {mark : κ} (h : standing? κ text start = some mark) :
    Hit.next? text start = some ⟨mark, spanAt start mark⟩ := by
  unfold standing? at h
  have hfound := List.find?_some h
  have hstands : StandsAt text start mark := of_decide_eq_true hfound
  exact hstands.next?_eq

/-- It goes on at the next byte where none does. -/
theorem next?_of_standing?_eq_none (h : standing? κ text start = none) :
    (Hit.next? text start : Option (Hit κ)) = Hit.next? text (start + 1) := by
  apply Hit.next?_eq_of_not_marked (Nat.le_succ start)
  intro s hle hlt
  obtain rfl : s = start := by omega
  exact not_marked_of_standing?_eq_none h

/-- It finds nothing at the end of the text and beyond. -/
theorem next?_of_byteLength_le (h : byteLength text ≤ start) :
    (Hit.next? text start : Option (Hit κ)) = none := by
  apply Hit.next?_eq_none_iff.2
  intro s hs hmarked
  have hlt := hmarked.lt_byteLength
  omega

end Marks

/-! ## Keywords -/

namespace Keyword

/-- A keyword that is no word is a parenthesis, which is one byte. -/
theorem bytes_of_not_isWord {keyword : Keyword} (h : keyword.isWord = false) :
    bytes keyword.spelling = [0x28] ∨ bytes keyword.spelling = [0x29] := by
  cases keyword with
  | openParen => exact .inl (by decide)
  | closeParen => exact .inr (by decide)
  | _ => contradiction

variable {text : Text} {start : Nat}

theorem standsAt?_eq (hstart : start ≤ byteLength text) {opens : Bool}
    (hopens : opens = ((bytes text).take start).getLast?.all isBoundaryByte) (keyword : Keyword) :
    standsAt? (bytes text) start opens keyword = some (decide (StandsAt text start keyword)) := by
  have hlength : start ≤ (bytes text).length := by rwa [length_bytes]
  unfold standsAt?
  cases hword : keyword.isWord with
  | false =>
    have hmark : Mark.isWord keyword = false := hword
    rw [bytesFrom?_eq hlength]
    show some _ = some _
    apply congrArg
    rw [Bool.eq_iff_iff, decide_eq_true_iff, List.isPrefixOf_iff_prefix]
    unfold StandsAt
    rw [hmark]
    exact ⟨fun hbegins => ⟨hbegins, fun hfalse => by contradiction⟩, And.left⟩
  | true =>
    have hmark : Mark.isWord keyword = true := hword
    cases opens with
    | true => exact wordAt?_eq_standsAt hstart hmark
    | false => simp [StandsAt, hmark, ← hopens]

/-- Where no token can start, a keyword is a parenthesis. -/
theorem standing?_eq_none (hopens : ((bytes text).take start).getLast?.all isBoundaryByte = false)
    {b : UInt8} (hb : (bytes text)[start]? = some b) (hparen : (b == 0x28 || b == 0x29) = false) :
    standing? Keyword text start = none := by
  apply List.find?_eq_none.2
  intro keyword _ hstands
  obtain ⟨hbegins, hword⟩ := of_decide_eq_true hstands
  cases hkeyword : keyword.isWord with
  | true =>
    have hopen := (hword hkeyword).1
    rw [hopens] at hopen
    contradiction
  | false =>
    obtain ⟨behind, hbehind⟩ := hbegins
    have hspelling : bytes (Mark.spelling keyword) = [0x28] ∨
        bytes (Mark.spelling keyword) = [0x29] := bytes_of_not_isWord hkeyword
    rw [← List.head?_drop, ← hbehind] at hb
    rcases hspelling with heq | heq
    · rw [heq] at hb
      obtain rfl := Option.some.inj hb
      contradiction
    · rw [heq] at hb
      obtain rfl := Option.some.inj hb
      contradiction

/-- Keywords are looked for at an offset without reading outside the text, and what stands there is
found. -/
theorem at?_eq (hstart : start < byteLength text) :
    Keyword.at? (bytes text) start = some (standing? Keyword text start) := by
  have hlength : start < (bytes text).length := by rwa [length_bytes]
  unfold Keyword.at?
  rw [opensAt?_eq (Nat.le_of_lt hlength), List.getElem?_eq_getElem hlength]
  generalize hopens : ((bytes text).take start).getLast?.all isBoundaryByte = opens
  have hall : byLength.findM? (standsAt? (bytes text) start opens) =
      some (standing? Keyword text start) :=
    findM?_eq_standing? (standsAt?_eq (Nat.le_of_lt hstart) hopens.symm)
  cases opens with
  | true => exact hall
  | false =>
    cases hparen : ((bytes text)[start] == 0x28 || (bytes text)[start] == 0x29) with
    | true => simpa [hparen] using hall
    | false =>
      rw [standing?_eq_none hopens (List.getElem?_eq_getElem hlength) hparen]
      simp [hparen]

end Keyword

namespace Scanner

/-- Where no keyword stands, the search goes on at the next byte. -/
theorem next_of_standing?_eq_none {text : Text} {position : Nat} (h : position < byteLength text)
    (hstanding : standing? Keyword text position = none) :
    (⟨text, position⟩ : Scanner).next = (⟨text, position + 1⟩ : Scanner).next := by
  have hnext : Keyword.nextHit? text position = Keyword.nextHit? text (position + 1) :=
    next?_of_standing?_eq_none hstanding
  have hfinish : max position (byteLength text) = max (position + 1) (byteLength text) := by omega
  unfold next finish
  rw [hnext, hfinish]

/-- A scanner that has searched its text stays where it is. -/
theorem next_of_byteLength_le {text : Text} {position : Nat} (h : byteLength text ≤ position) :
    (⟨text, position⟩ : Scanner).next = (none, ⟨text, position⟩) := by
  have hnext : Keyword.nextHit? text position = none := next?_of_byteLength_le h
  unfold next finish
  rw [hnext, Nat.max_eq_left h]

/-- A call passes all its checks and comes to an end, wherever the scanner was set down. -/
theorem checkedNext?_eq (scanner : Scanner) : scanner.checkedNext? = some scanner.next := by
  obtain ⟨text, position⟩ := scanner
  induction hn : byteLength text - position using Nat.strong_induction_on generalizing position with
  | _ n ih =>
    rw [checkedNext?]
    by_cases h : position < byteLength text
    · rw [if_pos h, Keyword.at?_eq h]
      cases hstanding : standing? Keyword text position with
      | some keyword =>
        rw [next_of_eq_some (next?_of_standing?_eq_some hstanding)]
        rfl
      | none =>
        rw [next_of_standing?_eq_none h hstanding]
        exact ih _ (by omega) (position + 1) rfl
    · rw [if_neg h, next_of_byteLength_le (Nat.le_of_not_lt h)]
      rfl

/-- Called until it has none, a scanner returns the keywords that are left. -/
theorem checkedRemaining?_eq (scanner : Scanner) :
    scanner.checkedRemaining? = some scanner.remaining := by
  induction hhits : scanner.remaining generalizing scanner with
  | nil =>
    obtain ⟨hhead, -⟩ := scanner.next_remaining
    rw [hhits] at hhead
    rw [checkedRemaining?, checkedNext?_eq, ← Prod.eta scanner.next, hhead]
    rfl
  | cons hit hits ih =>
    obtain ⟨hhead, htail⟩ := scanner.next_remaining
    rw [hhits] at hhead htail
    rw [checkedRemaining?, checkedNext?_eq, ← Prod.eta scanner.next, hhead]
    show (do let hits ← checkedRemaining? scanner.next.2; pure (hit :: hits)) = _
    rw [ih _ htail]
    rfl

end Scanner

/-! ## Clauses -/

namespace ClauseReader

theorem checkedOfText?_eq (text : Text) : checkedOfText? text = some (ofText text) := by
  unfold checkedOfText?
  rw [Scanner.checkedNext?_eq]
  rfl

/-- The scanner of a reader passes its checks. -/
theorem checkedNext?_eq (reader : ClauseReader) : reader.checkedNext? = reader.next? := by
  unfold checkedNext? next?
  cases reader.ahead with
  | none => rfl
  | some hit =>
    rw [Scanner.checkedNext?_eq]
    exact Option.map_eq_bind.symm

/-- Called until it has none, a reader returns the clauses that are left. -/
theorem checkedRemaining?_behind (scanner : Scanner) :
    (behind scanner).checkedRemaining? = some scanner.clauses := by
  induction hclauses : scanner.clauses generalizing scanner with
  | nil =>
    obtain ⟨following, hnext, -⟩ := next?_behind scanner
    rw [hclauses] at hnext
    rw [checkedRemaining?, checkedNext?_eq, hnext]
    rfl
  | cons clause clauses ih =>
    obtain ⟨following, hnext, htail⟩ := next?_behind scanner
    rw [hclauses] at hnext htail
    rw [checkedRemaining?, checkedNext?_eq, hnext]
    show (do let clauses ← checkedRemaining? (behind following); pure (clause :: clauses)) = _
    rw [ih following htail]
    rfl

end ClauseReader

theorem Clause.checkedListOfText?_eq (text : Text) :
    checkedListOfText? text = some (listOfText text) := by
  unfold checkedListOfText?
  rw [ClauseReader.checkedOfText?_eq, ← Scanner.clauses_ofText]
  exact ClauseReader.checkedRemaining?_behind (Scanner.ofText text)

/-! ## Conditions -/

theorem Connective.at?_eq {text : Text} {start : Nat} (hstart : start ≤ byteLength text) :
    Connective.at? (bytes text) start = some (standing? Connective text start) :=
  findM?_eq_standing? fun word =>
    wordAt?_eq_standsAt hstart (show Mark.isWord word = true from rfl)

namespace Condition

/-- Up to the next connective nothing is cut off, and behind it the next condition starts. -/
theorem checkedFrom?_of_next? (content : Text) (start offset : Nat) :
    checkedFrom? content start offset =
      match (Hit.next? content offset : Option (Hit Connective)) with
      | none => do
        let raw ← Span.slice? ⟨start, byteLength content⟩ content
        return [trim raw]
      | some hit => do
        let raw ← Span.slice? ⟨start, hit.span.start⟩ content
        let conditions ← checkedFrom? content hit.span.stop hit.span.stop
        return trim raw :: conditions := by
  induction hn : byteLength content - offset using Nat.strong_induction_on generalizing offset with
  | _ n ih =>
    rw [checkedFrom?]
    by_cases h : offset < byteLength content
    · rw [if_pos h, Connective.at?_eq (Nat.le_of_lt h)]
      cases hstanding : standing? Connective content offset with
      | some word =>
        rw [next?_of_standing?_eq_some hstanding]
        rfl
      | none =>
        rw [next?_of_standing?_eq_none hstanding]
        exact ih _ (by omega) (offset + 1) rfl
    · rw [if_neg h, next?_of_byteLength_le (Nat.le_of_not_lt h)]

/-- From behind a connective on, the conditions are the gaps that are left. -/
theorem checkedFrom?_eq {content : Text} {start : Nat} {first : Text}
    (h : Span.slice? ⟨start, byteLength (Cut.ofTextFrom start content : Cut Connective).lead⟩
      content = some first) :
    checkedFrom? content start start =
      some (trim first ::
        (Cut.ofTextFrom start content : Cut Connective).sections.map fun part =>
          trim part.tail) := by
  induction start using Cut.run_induction Connective content generalizing first with
  | last start hnext =>
    rw [Cut.ofTextFrom_of_next?_eq_none hnext] at h
    rw [checkedFrom?_of_next?, hnext, Cut.sections_of_next?_eq_none hnext]
    dsimp only
    rw [h]
    rfl
  | next start hit hnext ih =>
    obtain ⟨tail, hstep⟩ := Cut.step_of_next?_eq_some hnext
    have htail := hstep.slice?_eq
    rw [hstep.stop_add] at htail
    rw [hstep.lead_eq] at h
    rw [checkedFrom?_of_next?, hnext, hstep.sections_eq]
    dsimp only
    rw [h, ih htail]
    rfl

theorem checkedListOfText?_eq (content : Text) :
    checkedListOfText? content = some (listOfText content) := by
  have hzero := Cut.ofTextFrom_zero (κ := Connective) content
  have hlead : Span.slice? ⟨0, byteLength (Cut.ofText content : Cut Connective).lead⟩ content =
      some (Cut.ofText content : Cut Connective).lead := by
    have hslice := Span.slice?_append [] (Cut.ofText content : Cut Connective).lead
      ((Cut.ofText content : Cut Connective).pieces.flatMap fun piece =>
        Mark.spelling piece.mark ++ piece.tail)
    have htext : (Cut.ofText content : Cut Connective).text = content := Cut.text_ofText content
    rw [List.nil_append, byteLength_nil, Nat.zero_add] at hslice
    rwa [← Cut.text, htext] at hslice
  rw [← hzero] at hlead
  unfold checkedListOfText?
  rw [checkedFrom?_eq hlead, hzero]
  unfold listOfText Cut.gaps Cut.sections
  rw [Cut.map_locate fun _ tail => trim tail, List.map_cons, List.map_map]
  rfl

end Condition

/-! ## Expressions -/

namespace Expression

theorem checkedRecord?_eq (expression : Expression) (phrase : Phrase) :
    expression.checkedRecord? phrase = some (expression.record phrase) := by
  unfold checkedRecord? record
  rw [Condition.checkedListOfText?_eq]
  cases phrase.keyword.reading <;> rfl

theorem checkedParse?_eq (sql : Text) : checkedParse? sql = some (parse sql) := by
  unfold checkedParse? parse
  rw [Clause.checkedListOfText?_eq]
  simp only [checkedRecord?_eq]
  show List.foldlM _ empty (Clause.listOfQuery sql) = _
  rw [recordAll, List.foldl_map]
  exact List.foldlM_pure ..

end Expression

/-! ## Any text and any offset -/

/-- The ends of a mark stand between characters. -/
theorem StandsAt.isSome_splitAtByte? {κ : Type} [Mark κ] {text : Text} {start : Nat} {mark : κ}
    (h : StandsAt text start mark) :
    (splitAtByte? text start).isSome ∧
      (splitAtByte? text (start + byteLength (Mark.spelling mark))).isSome := by
  obtain ⟨before, rest, rfl, rfl⟩ := h.exists_split
  refine ⟨?_, ?_⟩
  · rw [splitAtByte?_append]
    rfl
  · rw [← byteLength_append, ← List.append_assoc, splitAtByte?_append]
    rfl

/-- Wherever a scanner is set down, each keyword that it returns lies behind that offset and inside
the text, between two characters, and covers its own spelling. No byte outside the text is read and
no piece is cut out of it that is not there: every reading has a result, which is that of the
reading without checks. -/
theorem checked_readings (text : Text) (start : Nat) :
    let scanner : Scanner := ⟨text, start⟩
    (∀ count hit, some hit ∈ scanner.draw count →
      start ≤ hit.span.start ∧ hit.span.start < hit.span.stop ∧
        hit.span.stop ≤ byteLength text ∧
        (splitAtByte? text hit.span.start).isSome ∧ (splitAtByte? text hit.span.stop).isSome ∧
        hit.span.length? = some (byteLength hit.mark.spelling) ∧
        hit.span.slice? text = some hit.mark.spelling) ∧
    (start < byteLength text → (Keyword.at? (bytes text) start).isSome ∧
      ∀ word, (wordAt? (bytes text) start word).isSome) ∧
    scanner.checkedNext? = some scanner.next ∧
    scanner.checkedRemaining? = some scanner.remaining ∧
    Clause.checkedListOfText? text = some (Clause.listOfText text) ∧
    Condition.checkedListOfText? text = some (Condition.listOfText text) ∧
    Expression.checkedParse? text = some (Expression.parse text) := by
  intro scanner
  refine ⟨?_, ?_, scanner.checkedNext?_eq, scanner.checkedRemaining?_eq,
    Clause.checkedListOfText?_eq text, Condition.checkedListOfText?_eq text,
    Expression.checkedParse?_eq text⟩
  · intro count hit hhit
    rw [Scanner.draw_eq] at hhit
    obtain ⟨k, -, hk⟩ := List.mem_map.1 hhit
    obtain ⟨part, hpart, rfl⟩ := List.mem_map.1 (List.mem_of_getElem? hk)
    obtain ⟨hstart, hstands, -⟩ := Cut.stands_of_mem_sections part hpart
    obtain ⟨hlt, hstop, hslice⟩ := Cut.span_of_mem_sections hpart
    obtain ⟨hfront, hback⟩ := hstands.isSome_splitAtByte?
    rw [← hstop] at hback
    refine ⟨hstart, hlt, ?_, hfront, hback, ?_, hslice⟩
    · show part.span.stop ≤ byteLength text
      rw [hstop]
      exact hstands.stop_le
    · rw [Span.length?, if_pos (Nat.le_of_lt hlt), hstop, Nat.add_sub_cancel_left]
      rfl
  · intro hlt
    have hle : start ≤ (bytes text).length := by
      rw [length_bytes]
      exact Nat.le_of_lt hlt
    constructor
    · rw [Keyword.at?_eq hlt]
      rfl
    · intro word
      rw [wordAt?_eq hle]
      rfl

/-- Set down inside a character, a scanner returns the parenthesis behind another one; set down
beyond the end it returns nothing and stays there. -/
theorem checked_readings_values :
    let text := "é SELECT é(".toList
    let hit : Hit Keyword := ⟨.openParen, ⟨12, 13⟩⟩
    some hit ∈ (⟨text, 1⟩ : Scanner).draw 3 ∧ hit.span.stop ≤ byteLength text ∧
      hit.span.slice? text = some ['('] ∧ (Keyword.at? (bytes text) 11).isSome ∧
      (⟨text, 40⟩ : Scanner).checkedNext? = some (none, ⟨text, 40⟩) ∧
      Expression.checkedParse? text = some (Expression.parse text) := by
  intro text hit
  have hmem : some hit ∈ (⟨text, 1⟩ : Scanner).draw 3 := by decide +kernel
  obtain ⟨hhits, -, -, -, -, -, hparse⟩ := checked_readings text 1
  obtain ⟨-, -, hstop, -, -, -, hslice⟩ := hhits 3 hit hmem
  obtain ⟨-, hinside, -⟩ := checked_readings text 11
  obtain ⟨-, -, hbeyond, -⟩ := checked_readings text 40
  refine ⟨hmem, hstop, hslice, (hinside (by decide)).1, ?_, hparse⟩
  rw [hbeyond]
  decide +kernel

end SqlClauses
