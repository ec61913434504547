import Mathlib.Data.List.Chain
import SqlClauses.Proofs.Text.Split
import SqlClauses.Text.Words

/-!
# Words: laws

What the words of a text are, and what they make up with single spaces between them.

* `words_append_cons`: a blank cuts the words of a text in two; every law of words comes from it.
* `words_blanks_append`, `words_append_blanks`: blanks at the ends of a text belong to no word.
* `words_unwords`: words that are written with single spaces between them are read back.
-/

namespace SqlClauses.Text

/-- A text that is one word: it is not empty and has no blank. -/
def IsWord (t : Text) : Prop := t ≠ [] ∧ ∀ c ∈ t, isBlank c = false

/-! ## Words -/

@[simp] theorem words_nil : words [] = [] := rfl

/-- A blank cuts the words of a text in two. -/
theorem words_append_cons (s t : Text) {c : Char} (hc : isBlank c = true) :
    words (s ++ c :: t) = words s ++ words t := by
  rw [words, List.splitOnP_append_cons s t hc, List.filter_append]
  rfl

@[simp] theorem words_cons (t : Text) {c : Char} (hc : isBlank c = true) :
    words (c :: t) = words t :=
  words_append_cons [] t hc

theorem words_of_isWord {w : Text} (hw : IsWord w) : words w = [w] := by
  rw [words, List.splitOnP_eq_singleton hw.2]
  simp [hw.1]

theorem isWord_of_mem_words {t : Text} : ∀ w ∈ words t, IsWord w := by
  induction t using cut_induction isBlank with
  | plain t ht =>
    by_cases hne : t = []
    · simp [hne]
    · rw [words_of_isWord ⟨hne, ht⟩, List.forall_mem_singleton]
      exact ⟨hne, ht⟩
  | cut s c t hc hs ht =>
    rw [words_append_cons _ _ hc]
    exact fun w hw => (List.mem_append.1 hw).elim (hs w) (ht w)

/-- Blanks at the front of a text belong to no word. -/
theorem words_blanks_append {gap : Text} (hgap : ∀ c ∈ gap, isBlank c = true) (t : Text) :
    words (gap ++ t) = words t := by
  induction gap with
  | nil => rfl
  | cons c gap ih =>
    rw [List.cons_append, words_cons _ (hgap c (by simp))]
    exact ih fun d hd => hgap d (by simp [hd])

theorem words_append_blanks {gap : Text} (hgap : ∀ c ∈ gap, isBlank c = true) (t : Text) :
    words (t ++ gap) = words t := by
  cases gap with
  | nil => rw [List.append_nil]
  | cons c gap =>
    have hrest : words gap = [] := by
      rw [← List.append_nil gap, words_blanks_append fun d hd => hgap d (by simp [hd])]
      rfl
    rw [words_append_cons _ _ (hgap c (by simp)), hrest, List.append_nil]

/-! ## Words with single spaces between them -/

@[simp] theorem unwords_nil : unwords [] = [] := rfl

@[simp] theorem unwords_singleton (w : Text) : unwords [w] = w := List.intercalate_singleton

@[simp] theorem unwords_cons_cons (w v : Text) (ws : List Text) :
    unwords (w :: v :: ws) = w ++ ' ' :: unwords (v :: ws) := by
  simp [unwords]

theorem unwords_append {front back : List Text} (hfront : front ≠ []) (hback : back ≠ []) :
    unwords (front ++ back) = unwords front ++ ' ' :: unwords back :=
  intercalate_append ' ' hfront hback

theorem isBlank_space : isBlank ' ' = true := by decide

/-- Between two lists of words there is a space, or nothing if one of them is empty. -/
theorem exists_unwords_append (front back : List Text) :
    ∃ gap, (∀ c ∈ gap, isBlank c = true) ∧
      unwords (front ++ back) = unwords front ++ gap ++ unwords back := by
  by_cases hfront : front = []
  · exact ⟨[], by simp, by simp [hfront]⟩
  · by_cases hback : back = []
    · exact ⟨[], by simp, by simp [hback]⟩
    · exact ⟨[' '], by simp [isBlank_space], by simp [unwords_append hfront hback]⟩

/-- The words of texts that are written with single spaces between them. -/
theorem words_unwords_eq_flatMap (parts : List Text) :
    words (unwords parts) = parts.flatMap words := by
  induction parts with
  | nil => rfl
  | cons part parts ih =>
    cases parts with
    | nil => simp
    | cons next parts =>
      rw [unwords_cons_cons, words_append_cons _ _ isBlank_space, ih, ← List.flatMap_cons]

/-- Words that are written with single spaces between them are read back. -/
theorem words_unwords {ws : List Text} (h : ∀ w ∈ ws, IsWord w) : words (unwords ws) = ws := by
  rw [words_unwords_eq_flatMap]
  induction ws with
  | nil => rfl
  | cons w ws ih =>
    rw [List.flatMap_cons, words_of_isWord (h w (by simp)), ih fun v hv => h v (by simp [hv])]
    rfl

end SqlClauses.Text
