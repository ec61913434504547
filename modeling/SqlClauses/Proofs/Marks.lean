import SqlClauses.Condition
import SqlClauses.Cut.Lemmas
import SqlClauses.Grammar
import SqlClauses.Proofs.Text.Tokens

/-!
# Marks made of tokens

Keywords and connectives are written as one token or as two, and none is written as the beginning of
another. So at most one of them fits at any place of a text, and which one it is can be told from
the tokens that start there.

* `markAt?_eq_some_iff`: trying the candidates in order finds the mark that fits.
* `fits_atom_iff`: a mark that fits where an atom starts is that atom, or that atom and the next.
-/

namespace SqlClauses

open Text

variable {κ : Type} [Mark κ]

/-! ## How marks are written -/

/-- The ways in which a mark can be written. -/
inductive Spelled (mark : κ) : Prop
  /-- A parenthesis, which counts anywhere. -/
  | paren (c : Char) (hword : Mark.isWord mark = false) (hc : isParen c = true)
      (hspelling : Mark.spelling mark = [c])
  /-- A word of one atom. -/
  | single (hword : Mark.isWord mark = true) (hatom : IsAtom (Mark.spelling mark))
  /-- A word of two atoms. -/
  | double (first second : Text) (hword : Mark.isWord mark = true) (hfirst : IsAtom first)
      (hsecond : IsAtom second) (hspelling : Mark.spelling mark = first ++ ' ' :: second)

/-- Marks that are made of tokens. -/
class TokenMark (κ : Type) [Mark κ] : Prop where
  /-- Every mark is tried. -/
  mem_candidates : ∀ mark : κ, mark ∈ Mark.candidates
  /-- No mark is written as the beginning of another one. -/
  eq_of_prefix : ∀ {a b : κ}, Mark.spelling a <+: Mark.spelling b → a = b
  spelled : ∀ mark : κ, Spelled mark

/-- The characters of the text are tried, not all characters that there are. -/
instance (t : Text) : Decidable (IsAtom t) :=
  have : Decidable (∀ c ∈ t, isBreak c = false) := List.decidableBAll _ t
  inferInstanceAs (Decidable (t ≠ [] ∧ ∀ c ∈ t, isBreak c = false))

theorem Keyword.eq_of_prefix {a b : Keyword} (h : a.spelling <+: b.spelling) : a = b := by
  revert h
  cases a <;> cases b <;> decide

instance : TokenMark Keyword where
  mem_candidates := Keyword.mem_byLength
  eq_of_prefix := Keyword.eq_of_prefix
  spelled keyword := by
    cases keyword with
    | leftJoin => exact .double "LEFT".toList "JOIN".toList rfl (by decide) (by decide) rfl
    | rightJoin => exact .double "RIGHT".toList "JOIN".toList rfl (by decide) (by decide) rfl
    | innerJoin => exact .double "INNER".toList "JOIN".toList rfl (by decide) (by decide) rfl
    | groupBy => exact .double "GROUP".toList "BY".toList rfl (by decide) (by decide) rfl
    | orderBy => exact .double "ORDER".toList "BY".toList rfl (by decide) (by decide) rfl
    | openParen => exact .paren '(' rfl (by decide) rfl
    | closeParen => exact .paren ')' rfl (by decide) rfl
    | _ => exact .single rfl (by decide)

instance : TokenMark Connective where
  mem_candidates mark := by cases mark <;> decide
  eq_of_prefix {a b} h := by
    revert h
    cases a <;> cases b <;> decide
  spelled mark := by cases mark <;> exact .single rfl (by decide)

/-! ## Boundaries and breaks -/

theorem isBreak_of_isBoundary {c : Char} (h : isBoundary c = true) : isBreak c = true := by
  simp only [isBoundary, Bool.or_eq_true, beq_iff_eq] at h
  rcases h with (((((rfl | rfl) | rfl) | rfl) | rfl) | rfl) | rfl <;> decide

theorem isBoundary_of_isParen {c : Char} (h : isParen c = true) : isBoundary c = true := by
  rcases eq_or_eq_of_isParen h with rfl | rfl <;> decide

theorem isBoundary_of_isBreak_eq_false {c : Char} (h : isBreak c = false) :
    isBoundary c = false :=
  Bool.eq_false_iff.2 fun hb => by simp [isBreak_of_isBoundary hb] at h

/-- Where a token can stop, one does. -/
theorem isBreak_head?_of_closesBefore {t : Text} (h : closesBefore t = true) :
    t.head?.all isBreak = true := by
  cases t with
  | nil => rfl
  | cons c t => exact isBreak_of_isBoundary h

/-- Two texts that start with an atom and go on with a break have the same atom. -/
theorem atom_append_inj {v w s t : Text} (hv : IsAtom v) (hw : IsAtom w)
    (hs : s.head?.all isBreak = true) (ht : t.head?.all isBreak = true)
    (h : v ++ s = w ++ t) : v = w ∧ s = t := by
  rcases List.append_eq_append_iff.1 h with ⟨extra, hextra, hst⟩ | ⟨extra, hextra, hst⟩
  · cases extra with
    | nil => simp_all
    | cons c extra =>
      have hc : isBreak c = false := hw.2 c (by simp [hextra])
      simp [hst, hc] at hs
  · cases extra with
    | nil => simp_all
    | cons c extra =>
      have hc : isBreak c = false := hv.2 c (by simp [hextra])
      simp [hst, hc] at ht

/-- A mark fits where the text goes on with its spelling, and a word only as a whole token. -/
theorem fits_iff {opens : Bool} {text : Text} {mark : κ} :
    fits opens text mark = true ↔
      ∃ rest, text = Mark.spelling mark ++ rest ∧
        (Mark.isWord mark = true → opens = true ∧ closesBefore rest = true) := by
  constructor
  · intro h
    obtain ⟨rest, rfl⟩ := prefix_of_fits h
    refine ⟨rest, rfl, fun hword => ?_⟩
    simpa [fits, hword] using h
  · rintro ⟨rest, rfl, hword⟩
    cases hw : Mark.isWord mark with
    | false => simp [fits, hw]
    | true => simp [fits, hword hw]

/-! ## Looking up -/

variable [TokenMark κ]

theorem eq_of_spelling_eq {a b : κ} (h : Mark.spelling a = Mark.spelling b) : a = b :=
  TokenMark.eq_of_prefix (h ▸ List.prefix_rfl)

theorem ofSpelling?_eq_some_iff {text : Text} {mark : κ} :
    Mark.ofSpelling? text = some mark ↔ Mark.spelling mark = text := by
  constructor
  · intro h
    exact beq_iff_eq.1 (List.find?_some (p := fun mark => Mark.spelling mark == text) h)
  · rintro rfl
    have hsome : (Mark.ofSpelling? (Mark.spelling mark) : Option κ).isSome = true :=
      List.find?_isSome.2 ⟨mark, TokenMark.mem_candidates mark, by simp⟩
    obtain ⟨found, hfound⟩ := Option.isSome_iff_exists.1 hsome
    have hspelling := beq_iff_eq.1
      (List.find?_some (p := fun other => Mark.spelling other == Mark.spelling mark) hfound)
    rw [hfound, eq_of_spelling_eq hspelling]

theorem ofSpelling?_eq_none_iff {text : Text} :
    (Mark.ofSpelling? text : Option κ) = none ↔ ∀ mark : κ, Mark.spelling mark ≠ text := by
  rw [Option.eq_none_iff_forall_ne_some]
  exact forall_congr' fun mark => not_congr ofSpelling?_eq_some_iff

/-- At most one mark fits at one place. -/
theorem eq_of_fits {opens opens' : Bool} {text : Text} {a b : κ} (ha : fits opens text a = true)
    (hb : fits opens' text b = true) : a = b := by
  rcases List.prefix_or_prefix_of_prefix (prefix_of_fits ha) (prefix_of_fits hb) with h | h
  · exact TokenMark.eq_of_prefix h
  · exact (TokenMark.eq_of_prefix h).symm

/-- Whatever the order of the candidates, the one that fits is found. -/
theorem markAt?_eq_some_iff {opens : Bool} {text : Text} {mark : κ} :
    markAt? opens text = some mark ↔ fits opens text mark = true := by
  refine ⟨fits_of_markAt?, fun h => ?_⟩
  have hsome : (markAt? opens text : Option κ).isSome = true :=
    List.find?_isSome.2 ⟨mark, TokenMark.mem_candidates mark, h⟩
  obtain ⟨found, hfound⟩ := Option.isSome_iff_exists.1 hsome
  rw [hfound, eq_of_fits (fits_of_markAt? hfound) h]

theorem markAt?_eq_none_iff {opens : Bool} {text : Text} :
    (markAt? opens text : Option κ) = none ↔ ∀ mark : κ, fits opens text mark = false := by
  rw [Option.eq_none_iff_forall_ne_some]
  exact forall_congr' fun mark => by rw [Ne, markAt?_eq_some_iff, Bool.not_eq_true]

/-! ## Which marks fit -/

/-- A mark starts with a parenthesis, which is all of it, or with a character of an atom. -/
theorem exists_spelling_cons (mark : κ) :
    ∃ c rest, Mark.spelling mark = c :: rest ∧
      (Mark.isWord mark = false ∧ isParen c = true ∧ rest = [] ∨
        Mark.isWord mark = true ∧ isBreak c = false) := by
  cases TokenMark.spelled mark with
  | paren c hword hc hspelling => exact ⟨c, [], hspelling, .inl ⟨hword, hc, rfl⟩⟩
  | single hword hatom =>
    obtain ⟨c, rest, hspelling⟩ := List.exists_cons_of_ne_nil hatom.1
    exact ⟨c, rest, hspelling, .inr ⟨hword, hatom.2 c (by simp [hspelling])⟩⟩
  | double first second hword hfirst hsecond hspelling =>
    obtain ⟨c, rest, rfl⟩ := List.exists_cons_of_ne_nil hfirst.1
    exact ⟨c, rest ++ ' ' :: second, hspelling, .inr ⟨hword, hfirst.2 c (by simp)⟩⟩

/-- No mark starts with a blank. -/
theorem markAt?_blank (opens : Bool) {c : Char} (hc : isBlank c = true) (t : Text) :
    (markAt? opens (c :: t) : Option κ) = none := by
  refine markAt?_eq_none_iff.2 fun mark => Bool.eq_false_iff.2 fun h => ?_
  obtain ⟨rest, htext, -⟩ := fits_iff.1 h
  obtain ⟨d, spelled, hspelling, hd⟩ := exists_spelling_cons mark
  rw [hspelling, List.cons_append, List.cons.injEq] at htext
  obtain ⟨rfl, -⟩ := htext
  rcases hd with ⟨-, hd, -⟩ | ⟨-, hd⟩
  · simp [isBlank_of_isParen hd] at hc
  · simp [isBlank_of_isBreak_eq_false hd] at hc

/-- Inside an atom nothing fits. -/
theorem markAt?_inside {c : Char} (hc : isBreak c = false) (t : Text) :
    (markAt? false (c :: t) : Option κ) = none := by
  refine markAt?_eq_none_iff.2 fun mark => Bool.eq_false_iff.2 fun h => ?_
  obtain ⟨rest, htext, hopens⟩ := fits_iff.1 h
  obtain ⟨d, spelled, hspelling, hd⟩ := exists_spelling_cons mark
  rw [hspelling, List.cons_append, List.cons.injEq] at htext
  obtain ⟨rfl, -⟩ := htext
  rcases hd with ⟨-, hd, -⟩ | ⟨hword, -⟩
  · simp [isParen_of_isBreak_eq_false hc] at hd
  · exact absurd (hopens hword).1 (by simp)

/-- A parenthesis is a mark or none, whatever stands around it. -/
theorem markAt?_paren (opens : Bool) {c : Char} (hc : isParen c = true) (t : Text) :
    (markAt? opens (c :: t) : Option κ) = Mark.ofSpelling? [c] := by
  ext mark
  rw [markAt?_eq_some_iff, ofSpelling?_eq_some_iff, fits_iff]
  obtain ⟨d, spelled, hspelling, hd⟩ := exists_spelling_cons mark
  rw [hspelling]
  constructor
  · rintro ⟨rest, htext, -⟩
    rw [List.cons_append, List.cons.injEq] at htext
    obtain ⟨rfl, -⟩ := htext
    rcases hd with ⟨-, -, rfl⟩ | ⟨-, hd⟩
    · rfl
    · simp [isBreak, hc] at hd
  · intro h
    rw [List.cons.injEq] at h
    obtain ⟨rfl, rfl⟩ := h
    rcases hd with ⟨hword, -, -⟩ | ⟨-, hd⟩
    · exact ⟨t, rfl, fun h => by simp [hword] at h⟩
    · simp [isBreak, hc] at hd

/-- A mark with a space in it is a word of the two atoms beside the space. -/
theorem isAtom_of_spelling_eq {mark : κ} {first second : Text}
    (h : Mark.spelling mark = first ++ ' ' :: second) :
    Mark.isWord mark = true ∧ IsAtom first ∧ IsAtom second := by
  have hspace {w : Text} (hw : IsAtom w) : ' ' ∉ w := fun hmem => by
    simpa [isBreak, isBlank_space] using hw.2 ' ' hmem
  cases TokenMark.spelled mark with
  | paren c hword hc hspelling =>
    have hmem : ' ' ∈ [c] := by simp [← hspelling, h]
    obtain rfl := List.mem_singleton.1 hmem
    exact absurd hc (by decide)
  | single hword hatom => exact absurd (by simp [h]) (hspace hatom)
  | double first' second' hword hfirst hsecond hspelling =>
    obtain ⟨rfl, -, rfl⟩ := (List.append_cons_inj_of_notMem (hspace hfirst) (hspace hsecond)).1
      (hspelling.symm.trans h)
    exact ⟨hword, hfirst, hsecond⟩

/-- Where an atom starts, the atom itself can be a mark, or it and the next one with a space between
them. -/
theorem fits_atom_iff {w t : Text} (hw : IsAtom w) (ht : closesBefore t = true) {mark : κ} :
    fits true (w ++ t) mark = true ↔
      Mark.spelling mark = w ∨
        ∃ v rest, t = ' ' :: v ++ rest ∧ closesBefore rest = true ∧
          Mark.spelling mark = w ++ ' ' :: v := by
  rw [fits_iff]
  constructor
  · rintro ⟨rest, htext, hcloses⟩
    cases TokenMark.spelled mark with
    | paren c hword hc hspelling =>
      obtain ⟨d, w, rfl⟩ := List.exists_cons_of_ne_nil hw.1
      rw [hspelling, List.cons_append, List.cons_append, List.cons.injEq] at htext
      have hd := isParen_of_isBreak_eq_false (hw.2 d (by simp))
      simp [htext.1, hc] at hd
    | single hword hatom =>
      have hrest := isBreak_head?_of_closesBefore (hcloses hword).2
      exact .inl (atom_append_inj hw hatom (isBreak_head?_of_closesBefore ht) hrest htext).1.symm
    | double first second hword hfirst hsecond hspelling =>
      rw [hspelling, List.append_assoc] at htext
      obtain ⟨rfl, rfl⟩ := atom_append_inj hw hfirst (isBreak_head?_of_closesBefore ht)
        rfl htext
      exact .inr ⟨second, rest, rfl, (hcloses hword).2, hspelling⟩
  · rintro (rfl | ⟨v, rest, rfl, hrest, hspelling⟩)
    · exact ⟨t, rfl, fun _ => ⟨rfl, ht⟩⟩
    · exact ⟨rest, by simp [hspelling], fun _ => ⟨rfl, hrest⟩⟩

end SqlClauses
