import SqlClauses.Proofs.Text.Normal
import SqlClauses.Text.Tokens

/-!
# Tokens: laws

The tokens of a text, read off how the text is put together. A break is a character that ends a
token: a blank, which belongs to none, or a parenthesis, which is one. A token without a break is an
atom.

* `tokens_append_blank`, `tokens_append_paren`: what a break does to the tokens around it.
* `tokens_append_of_head?`, `tokens_append_of_getLast?`: no token reaches over a break.
* `tokens_eq_flatMap_words`: the tokens depend on the words alone, so normal form keeps them.
-/

namespace SqlClauses.Text

/-- A character that ends a token. -/
def isBreak (c : Char) : Bool := isBlank c || isParen c

/-- A token that is no parenthesis. -/
def IsAtom (t : Text) : Prop := t ≠ [] ∧ ∀ c ∈ t, isBreak c = false

/-- An atom or a parenthesis. -/
def IsToken (t : Text) : Prop := IsAtom t ∨ ∃ c, isParen c = true ∧ t = [c]

theorem isBlank_of_isBreak_eq_false {c : Char} (h : isBreak c = false) : isBlank c = false :=
  (Bool.or_eq_false_iff.1 h).1

theorem isParen_of_isBreak_eq_false {c : Char} (h : isBreak c = false) : isParen c = false :=
  (Bool.or_eq_false_iff.1 h).2

theorem eq_or_eq_of_isParen {c : Char} (h : isParen c = true) : c = '(' ∨ c = ')' := by
  simpa [isParen] using h

/-- No parenthesis is a blank. -/
theorem isBlank_of_isParen {c : Char} (h : isParen c = true) : isBlank c = false := by
  rcases eq_or_eq_of_isParen h with rfl | rfl <;> decide

theorem isParen_of_isBlank {c : Char} (h : isBlank c = true) : isParen c = false := by
  cases hc : isParen c with
  | false => rfl
  | true => simp [isBlank_of_isParen hc] at h

theorem IsAtom.isWord {w : Text} (hw : IsAtom w) : IsWord w :=
  ⟨hw.1, fun c hc => isBlank_of_isBreak_eq_false (hw.2 c hc)⟩

theorem IsToken.isWord {w : Text} (hw : IsToken w) : IsWord w := by
  rcases hw with hw | ⟨c, hc, rfl⟩
  · exact hw.isWord
  · exact ⟨by simp, by simp [isBlank_of_isParen hc]⟩

/-! ## Around a break -/

@[simp] theorem setParensOff_append (s t : Text) :
    setParensOff (s ++ t) = setParensOff s ++ setParensOff t :=
  List.flatMap_append

theorem setParensOff_eq_self {t : Text} (h : ∀ c ∈ t, isParen c = false) :
    setParensOff t = t := by
  induction t with
  | nil => rfl
  | cons c t ih =>
    have hc : isParen c = false := h c (by simp)
    have ht : setParensOff t = t := ih fun d hd => h d (by simp [hd])
    simp only [setParensOff] at ht
    simp [setParensOff, hc, ht]

@[simp] theorem tokens_nil : tokens [] = [] := rfl

/-- A blank cuts the tokens of a text in two. -/
theorem tokens_append_blank (s t : Text) {c : Char} (hc : isBlank c = true) :
    tokens (s ++ c :: t) = tokens s ++ tokens t := by
  have hoff : setParensOff (c :: t) = c :: setParensOff t := by
    simp [setParensOff, isParen_of_isBlank hc]
  rw [tokens, setParensOff_append, hoff, words_append_cons _ _ hc]
  rfl

/-- A parenthesis is a token between those in front of it and those behind. -/
theorem tokens_append_paren (s t : Text) {c : Char} (hc : isParen c = true) :
    tokens (s ++ c :: t) = tokens s ++ [c] :: tokens t := by
  have hoff : setParensOff (c :: t) = ' ' :: ([c] ++ ' ' :: setParensOff t) := by
    simp [setParensOff, hc]
  have hword : IsWord [c] := ⟨by simp, by simp [isBlank_of_isParen hc]⟩
  rw [tokens, setParensOff_append, hoff, words_append_cons _ _ isBlank_space,
    words_append_cons _ _ isBlank_space, words_of_isWord hword]
  rfl

@[simp] theorem tokens_cons_blank (t : Text) {c : Char} (hc : isBlank c = true) :
    tokens (c :: t) = tokens t :=
  tokens_append_blank [] t hc

@[simp] theorem tokens_cons_paren (t : Text) {c : Char} (hc : isParen c = true) :
    tokens (c :: t) = [c] :: tokens t :=
  tokens_append_paren [] t hc

theorem tokens_eq_words {t : Text} (h : ∀ c ∈ t, isParen c = false) : tokens t = words t := by
  rw [tokens, setParensOff_eq_self h]

theorem tokens_of_isAtom {w : Text} (hw : IsAtom w) : tokens w = [w] := by
  rw [tokens_eq_words fun c hc => isParen_of_isBreak_eq_false (hw.2 c hc),
    words_of_isWord hw.isWord]

theorem tokens_of_isToken {token : Text} (h : IsToken token) : tokens token = [token] := by
  rcases h with h | ⟨c, hc, rfl⟩
  · exact tokens_of_isAtom h
  · exact tokens_cons_paren [] hc

/-- No token reaches over a break at the front of the second text. -/
theorem tokens_append_of_head? (s t : Text) (h : t.head?.all isBreak = true) :
    tokens (s ++ t) = tokens s ++ tokens t := by
  cases t with
  | nil => simp
  | cons c t =>
    rcases Bool.or_eq_true_iff.1 (show isBreak c = true from h) with hc | hc
    · rw [tokens_append_blank _ _ hc, tokens_cons_blank _ hc]
    · rw [tokens_append_paren _ _ hc, tokens_cons_paren _ hc]

/-- No token reaches over a break at the back of the first text. -/
theorem tokens_append_of_getLast? (s t : Text) (h : s.getLast?.all isBreak = true) :
    tokens (s ++ t) = tokens s ++ tokens t := by
  rcases List.eq_nil_or_concat' s with rfl | ⟨s, c, rfl⟩
  · rfl
  · rw [List.getLast?_concat] at h
    rw [List.append_assoc, List.singleton_append]
    rcases Bool.or_eq_true_iff.1 (show isBreak c = true from h) with hc | hc
    · rw [tokens_append_blank _ _ hc, tokens_append_blank _ _ hc]
      simp
    · rw [tokens_append_paren _ _ hc, tokens_append_paren _ _ hc]
      simp

/-- An atom and what follows it from a break on. -/
theorem tokens_atom_append {w : Text} (hw : IsAtom w) {t : Text}
    (ht : t.head?.all isBreak = true) : tokens (w ++ t) = w :: tokens t := by
  rw [tokens_append_of_head? _ _ ht, tokens_of_isAtom hw]
  rfl

/-- A text starts with a run of characters of one atom, which goes as far as it can. -/
theorem exists_run_append (t : Text) :
    ∃ run rest, t = run ++ rest ∧ (∀ c ∈ run, isBreak c = false) ∧
      rest.head?.all isBreak = true := by
  refine ⟨t.takeWhile (!isBreak ·), t.dropWhile (!isBreak ·),
    List.takeWhile_append_dropWhile.symm, fun d hd => ?_, ?_⟩
  · have h := List.all_eq_true.1 List.all_takeWhile d hd
    simpa using h
  · have h := List.head?_dropWhile_not (!isBreak ·) t
    cases hrest : (t.dropWhile (!isBreak ·)).head? with
    | none => rfl
    | some d => simpa [hrest] using h

/-- It ends with such a run as well. -/
theorem exists_append_run (t : Text) :
    ∃ rest run, t = rest ++ run ∧ (∀ c ∈ run, isBreak c = false) ∧
      rest.getLast?.all isBreak = true := by
  obtain ⟨run, rest, h, hrun, hrest⟩ := exists_run_append t.reverse
  refine ⟨rest.reverse, run.reverse, ?_, by simpa using hrun, by simpa using hrest⟩
  rw [← List.reverse_append, ← h, List.reverse_reverse]

/-- A text that starts with a character of an atom starts with the whole of an atom. -/
theorem exists_atom_append {c : Char} (hc : isBreak c = false) (t : Text) :
    ∃ w rest, c :: t = w ++ rest ∧ IsAtom w ∧ rest.head?.all isBreak = true := by
  obtain ⟨run, rest, h, hrun, hrest⟩ := exists_run_append (c :: t)
  refine ⟨run, rest, h, ⟨?_, hrun⟩, hrest⟩
  rintro rfl
  rw [List.nil_append] at h
  simp [← h, hc] at hrest

/-- Where the tokens of a text start with an atom, the text does so too, behind some blanks. -/
theorem exists_gap_of_tokens_eq_cons {t v : Text} {rest : List Text} (hv : IsAtom v)
    (h : tokens t = v :: rest) :
    ∃ gap back, t = gap ++ v ++ back ∧ (∀ c ∈ gap, isBlank c = true) ∧
      back.head?.all isBreak = true := by
  induction t with
  | nil => simp at h
  | cons c t ih =>
    cases hblank : isBlank c with
    | true =>
      rw [tokens_cons_blank _ hblank] at h
      obtain ⟨gap, back, rfl, hgap, hback⟩ := ih h
      exact ⟨c :: gap, back, rfl, List.forall_mem_cons.2 ⟨hblank, hgap⟩, hback⟩
    | false =>
      cases hparen : isParen c with
      | true =>
        rw [tokens_cons_paren _ hparen, List.cons.injEq] at h
        have hc := hv.2 c (by simp [← h.1])
        simp [isBreak, hparen] at hc
      | false =>
        have hc : isBreak c = false := by simp [isBreak, hblank, hparen]
        obtain ⟨w, back, hsplit, hw, hback⟩ := exists_atom_append hc t
        rw [hsplit, tokens_atom_append hw hback, List.cons.injEq] at h
        exact ⟨[], back, by rw [hsplit, h.1]; rfl, by simp, hback⟩

/-! ## All tokens of a text -/

/-- Every token is an atom or a parenthesis. -/
theorem isToken_of_mem_tokens {t : Text} : ∀ w ∈ tokens t, IsToken w := by
  induction t using cut_induction isBreak with
  | plain t ht =>
    by_cases hne : t = []
    · simp [hne]
    · rw [tokens_of_isAtom ⟨hne, ht⟩, List.forall_mem_singleton]
      exact .inl ⟨hne, ht⟩
  | cut s c t hc hs ht =>
    intro w hw
    rcases Bool.or_eq_true_iff.1 hc with hc | hc
    · rw [tokens_append_blank _ _ hc] at hw
      exact (List.mem_append.1 hw).elim (hs w) (ht w)
    · rw [tokens_append_paren _ _ hc] at hw
      rcases List.mem_append.1 hw with hw | hw
      · exact hs w hw
      · rcases List.mem_cons.1 hw with rfl | hw
        · exact .inr ⟨c, hc, rfl⟩
        · exact ht w hw

/-- The tokens of a text are those of its words. -/
theorem tokens_eq_flatMap_words (t : Text) : tokens t = (words t).flatMap tokens := by
  induction t using cut_induction isBlank with
  | plain t ht =>
    by_cases hne : t = []
    · simp [hne]
    · simp [words_of_isWord ⟨hne, ht⟩]
  | cut s c t hc hs ht =>
    rw [tokens_append_blank _ _ hc, words_append_cons _ _ hc, List.flatMap_append, hs, ht]

/-- Normal form keeps the tokens. -/
@[simp] theorem tokens_normalize (t : Text) : tokens (normalize t) = tokens t := by
  rw [tokens_eq_flatMap_words, words_normalize, ← tokens_eq_flatMap_words]

@[simp] theorem tokens_trim (t : Text) : tokens (trim t) = tokens t := by
  rw [tokens_eq_flatMap_words, words_trim, ← tokens_eq_flatMap_words]

theorem tokens_unwords (parts : List Text) : tokens (unwords parts) = parts.flatMap tokens := by
  rw [tokens_eq_flatMap_words, words_unwords_eq_flatMap, List.flatMap_assoc]
  exact List.flatMap_congr fun part _ => (tokens_eq_flatMap_words part).symm

/-- Tokens that are written with single spaces between them are read back. -/
theorem tokens_unwords_of_isToken {ts : List Text} (h : ∀ w ∈ ts, IsToken w) :
    tokens (unwords ts) = ts := by
  rw [tokens_unwords]
  induction ts with
  | nil => rfl
  | cons w ts ih =>
    rw [List.flatMap_cons, tokens_of_isToken (h w (by simp)), ih fun v hv => h v (by simp [hv])]
    rfl

/-- Blanks at the front of a text are part of no token. -/
theorem tokens_blanks_append {gap : Text} (hgap : ∀ c ∈ gap, isBlank c = true) (t : Text) :
    tokens (gap ++ t) = tokens t := by
  rw [tokens_eq_flatMap_words, words_blanks_append hgap, ← tokens_eq_flatMap_words]

theorem tokens_append_blanks {gap : Text} (hgap : ∀ c ∈ gap, isBlank c = true) (t : Text) :
    tokens (t ++ gap) = tokens t := by
  rw [tokens_eq_flatMap_words, words_append_blanks hgap, ← tokens_eq_flatMap_words]

theorem tokens_append_gap {gap : Text} (hne : gap ≠ []) (hgap : ∀ c ∈ gap, isBlank c = true)
    (front back : Text) : tokens (front ++ gap ++ back) = tokens front ++ tokens back := by
  obtain ⟨c, gap, rfl⟩ := List.exists_cons_of_ne_nil hne
  rw [List.append_assoc, List.cons_append, tokens_append_blank _ _ (hgap c (by simp)),
    tokens_blanks_append fun d hd => hgap d (by simp [hd])]

/-- A parenthesis of a text is one of its tokens. -/
theorem mem_tokens_of_isParen {t : Text} {c : Char} (hmem : c ∈ t) (hc : isParen c = true) :
    [c] ∈ tokens t := by
  obtain ⟨front, back, rfl⟩ := List.append_of_mem hmem
  simp [tokens_append_paren _ _ hc]

/-- A text whose tokens are atoms has no parenthesis. -/
theorem isParen_eq_false_of_isAtom {t : Text} (h : ∀ w ∈ tokens t, IsAtom w) :
    ∀ c ∈ t, isParen c = false := by
  intro c hmem
  cases hc : isParen c with
  | false => rfl
  | true =>
    have hbreak := (h [c] (mem_tokens_of_isParen hmem hc)).2 c (by simp)
    simp [isBreak, hc] at hbreak

end SqlClauses.Text
