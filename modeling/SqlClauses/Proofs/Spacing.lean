import SqlClauses.Proofs.Query
import SqlClauses.Rendering

/-!
# Clauses of a text that is not in normal form

Normal form is there for keywords of two words, which are found only with a single space between
these. Where each of them is written so, and all white space is such that it ends a token, a text
can be cut as it stands: it has the clauses of its normal form, but for the white space in them.

* `exists_compound_iff`: which two words make a keyword.
* `tidy_of_compounds_apart`: what has to be asked of a text.
* `normalize_keeps_clauses`: the clauses of such a text and of its normal form.
-/

namespace SqlClauses

open Text

/-- Two words that make a keyword with a space between them. -/
def isCompound (first second : Text) : Bool :=
  isJoinSide first && second == "JOIN".toList ||
    (first == "GROUP".toList || first == "ORDER".toList) && second == "BY".toList

theorem exists_compound_iff (first second : Text) :
    isCompound first second = true ↔
      ∃ keyword : Keyword, keyword.spelling = first ++ ' ' :: second := by
  constructor
  · intro h
    simp only [isCompound, isJoinSide, Bool.or_eq_true, Bool.and_eq_true, beq_iff_eq] at h
    rcases h with ⟨(rfl | rfl) | rfl, rfl⟩ | ⟨rfl | rfl, rfl⟩
    · exact ⟨.leftJoin, rfl⟩
    · exact ⟨.rightJoin, rfl⟩
    · exact ⟨.innerJoin, rfl⟩
    · exact ⟨.groupBy, rfl⟩
    · exact ⟨.orderBy, rfl⟩
  · rintro ⟨keyword, hspelling⟩
    have hmark : Mark.spelling keyword = first ++ ' ' :: second := hspelling
    obtain ⟨-, hfirst, hsecond⟩ := isAtom_of_spelling_eq hmark
    have hspace {w : Text} (hw : IsAtom w) : ' ' ∉ w := fun hmem => by
      simpa [isBreak, isBlank_space] using hw.2 ' ' hmem
    -- the words are what the spelling is cut into at its space
    have hpieces : keyword.spelling.splitOn ' ' = [first, second] := by
      rw [hspelling, List.splitOn_append_cons_self, List.splitOn_eq_singleton (hspace hfirst),
        List.splitOn_eq_singleton (hspace hsecond)]
      rfl
    clear hspelling hmark hfirst hsecond
    cases keyword with
    | leftJoin | rightJoin | innerJoin | groupBy | orderBy =>
      cases hpieces
      decide
    | _ => cases hpieces

/-- The white space of a text ends tokens, and the two words of a keyword have a single space
between them. -/
theorem tidy_of_compounds_apart {text : Text}
    (hblank : ∀ c ∈ text, isBlank c = true → c ∈ [' ', '\t', '\n', '\x0c', '\r'])
    (hgap : ∀ front first gap second back : Text,
      text = front ++ first ++ gap ++ second ++ back →
      front.getLast?.all isBreak = true → back.head?.all isBreak = true →
      gap ≠ [] → (∀ c ∈ gap, isBlank c = true) → isCompound first second = true → gap = [' ']) :
    Tidy Keyword text where
  isBoundary_of_isBlank c hc hcblank := by
    have hmem := hblank c hc hcblank
    simp only [List.mem_cons, List.not_mem_nil, or_false] at hmem
    rcases hmem with rfl | rfl | rfl | rfl | rfl <;> rfl
  gap_eq front first gap second back mark htext hfront hback hne hblanks hspelling :=
    hgap front first gap second back htext hfront hback hne hblanks
      ((exists_compound_iff first second).2 ⟨mark, hspelling⟩)

/-- Normal form keeps the clauses of a text whose white space ends tokens and in which no two words
that are a keyword together stand with anything but a single space between them. There are as many,
with the same keywords in the same order, and each content is brought into normal form by itself. So
contents that are in normal form already say what the query says. -/
theorem normalize_keeps_clauses (text : Text)
    (hblank : ∀ c ∈ text, isBlank c = true → c ∈ [' ', '\t', '\n', '\x0c', '\r'])
    (hgap : ∀ front first gap second back : Text,
      text = front ++ first ++ gap ++ second ++ back →
      front.getLast?.all isBreak = true → back.head?.all isBreak = true →
      gap ≠ [] → (∀ c ∈ gap, isBlank c = true) → isCompound first second = true → gap = [' ']) :
    let raw := Clause.listOfText text
    let normal := Clause.listOfText (normalize text)
    normal.length = raw.length ∧
    normal.map (·.keyword) = raw.map (·.keyword) ∧
    normal.map (·.content) = raw.map (fun clause => Text.normalize clause.content) ∧
    ((∀ clause ∈ raw, normalize clause.content = clause.content) →
      Expression.empty.recordAll (raw.map Clause.toPhrase) = Expression.parse text) := by
  intro raw normal
  have hphrases : normal.map Clause.toPhrase = (raw.map Clause.toPhrase).map Phrase.normalized := by
    rw [normalized_listOfText (tidy_of_compounds_apart hblank hgap)]
    exact phrases_listOfQuery text
  have hkeywords := congrArg (List.map Phrase.keyword) hphrases
  have hcontents := congrArg (List.map Phrase.content) hphrases
  simp only [List.map_map] at hkeywords hcontents
  refine ⟨?_, hkeywords, hcontents, ?_⟩
  · simpa using congrArg List.length hkeywords
  · intro hnormal
    have hsame : (raw.map Clause.toPhrase).map Phrase.normalized = raw.map Clause.toPhrase := by
      rw [List.map_map]
      exact List.map_congr_left fun clause hclause =>
        congrArg (Phrase.mk clause.keyword) (hnormal clause hclause)
    rw [Expression.parse, Clause.listOfQuery, hphrases, hsame]

/-- Tabs and line ends, blanks at the end and none beside a parenthesis. The one keyword of two
words is written with a space, and each content is normal as it is. -/
theorem normalize_keeps_clauses_values :
    let text := "SELECT\ta, b\r\nFROM(c)  LEFT JOIN d\n".toList
    let raw := Clause.listOfText text
    let normal := Clause.listOfText (normalize text)
    normal ≠ raw ∧ normal.length = raw.length ∧
      normal.map (·.keyword) = raw.map (·.keyword) ∧
      normal.map (·.content) = raw.map (fun clause => Text.normalize clause.content) ∧
      raw.map (·.content) = ["a, b".toList, [], ['c'], [], ['d']] ∧
      Expression.empty.recordAll (raw.map Clause.toPhrase) = Expression.parse text := by
  intro text raw normal
  have hblank : ∀ c ∈ text, isBlank c = true → c ∈ [' ', '\t', '\n', '\x0c', '\r'] := by
    have hall : text.all (fun c => !isBlank c || [' ', '\t', '\n', '\x0c', '\r'].contains c) =
        true := by decide +kernel
    intro c hc hcblank
    simpa [hcblank] using List.all_eq_true.1 hall c hc
  have hgap : ∀ front first gap second back : Text,
      text = front ++ first ++ gap ++ second ++ back →
      front.getLast?.all isBreak = true → back.head?.all isBreak = true →
      gap ≠ [] → (∀ c ∈ gap, isBlank c = true) → isCompound first second = true → gap = [' '] := by
    intro front first gap second back htext _ _ hne hblanks hcompound
    simp only [isCompound, Bool.or_eq_true, Bool.and_eq_true, beq_iff_eq] at hcompound
    rcases hcompound with ⟨-, rfl⟩ | ⟨-, rfl⟩
    · -- the text has one `J`, and the space in front of it is the whole gap
      have hsplit : ("SELECT\ta, b\r\nFROM(c)  LEFT".toList ++ [' ']) ++ 'J' :: "OIN d\n".toList =
          (front ++ first ++ gap) ++ 'J' :: ("OIN".toList ++ back) := by
        rw [List.append_assoc _ "JOIN".toList] at htext
        exact htext
      obtain ⟨hlead, -, -⟩ :=
        (List.append_cons_inj_of_notMem (by decide) (by decide)).1 hsplit
      obtain ⟨blanks, c, rfl⟩ := (List.eq_nil_or_concat' gap).resolve_left hne
      rw [← List.append_assoc] at hlead
      obtain ⟨hvisible, hc⟩ := List.append_inj' hlead rfl
      obtain rfl : blanks = [] := by
        by_contra hblanks_ne
        have hlast := congrArg List.getLast? hvisible
        rw [List.getLast?_append_of_ne_nil _ hblanks_ne] at hlast
        have hT := hblanks 'T' (List.mem_append_left _ (List.mem_of_getLast? hlast.symm))
        exact absurd hT (by decide)
      rw [List.nil_append, ← hc]
    · have hnone : 'Y' ∉ text := by decide
      refine absurd ?_ hnone
      rw [htext]
      simp
  obtain ⟨hlength, hkeywords, hcontents, hsame⟩ := normalize_keeps_clauses text hblank hgap
  have hraw : raw.map (·.content) = ["a, b".toList, [], ['c'], [], ['d']] := by decide +kernel
  have hnormal : ∀ clause ∈ raw, normalize clause.content = clause.content := by
    decide +kernel
  exact ⟨by decide +kernel, hlength, hkeywords, hcontents, hraw, hsame hnormal⟩

/-- Two spaces within a keyword of two words leave another keyword, and a vertical tab ends no
token, so that a word beside one is no keyword. -/
example :
    (Clause.listOfText "LEFT  JOIN a".toList).map (·.keyword) = [.join] ∧
      (Clause.listOfQuery "LEFT  JOIN a".toList).map (·.keyword) = [.leftJoin] ∧
      Clause.listOfText "LIMIT\x0b1".toList = [] ∧
      (Clause.listOfQuery "LIMIT\x0b1".toList).map (·.keyword) = [.limit] := by
  decide +kernel

end SqlClauses
