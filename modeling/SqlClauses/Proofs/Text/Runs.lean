import SqlClauses.Proofs.Text.Normal

/-!
# Words as maximal runs

The words of a text, said without cutting it: the runs of visible characters that go as far as they
can, with blanks around them. Normal form writes these with single spaces between them, and it hands
back the text that it was given just when that text is written so already.

* `runs_iff`: a text has one list of runs, and these are its words.
* `normalize_by_runs`: what normal form is, and when the text is handed back as it is.
-/

namespace SqlClauses.Text

/-- A list of words is the list of all runs of visible characters of a text, each as long as it can
be. -/
inductive Runs : Text → List Text → Prop
  /-- Blanks have no run. -/
  | blanks {gap : Text} (hgap : ∀ c ∈ gap, isBlank c = true) : Runs gap []
  /-- Behind some blanks stands a run, which ends at a blank or at the end of the text. -/
  | run {gap word rest : Text} {others : List Text} (hgap : ∀ c ∈ gap, isBlank c = true)
      (hword : IsWord word) (hrest : rest.head?.all isBlank = true) (h : Runs rest others) :
      Runs (gap ++ (word ++ rest)) (word :: others)

/-- Blanks in front of a text make no run and are part of none. -/
theorem Runs.blanks_append {gap t : Text} {ws : List Text} (hgap : ∀ c ∈ gap, isBlank c = true)
    (h : Runs t ws) : Runs (gap ++ t) ws := by
  cases h with
  | blanks hblank => exact .blanks (List.forall_mem_append.2 ⟨hgap, hblank⟩)
  | run hblank hword hrest h =>
    rw [← List.append_assoc]
    exact .run (List.forall_mem_append.2 ⟨hgap, hblank⟩) hword hrest h

/-- No run reaches over a blank. -/
theorem Runs.append_cons {s t : Text} {ws vs : List Text} {c : Char} (hc : isBlank c = true)
    (hs : Runs s ws) (ht : Runs t vs) : Runs (s ++ c :: t) (ws ++ vs) := by
  induction hs with
  | blanks hgap =>
    have hblank : ∀ d ∈ [c], isBlank d = true := by simpa using hc
    exact .blanks_append hgap (.blanks_append hblank ht)
  | @run gap word rest others hgap hword hrest h ih =>
    have hbehind : (rest ++ c :: t).head?.all isBlank = true := by
      cases rest with
      | nil => exact hc
      | cons d rest => exact hrest
    rw [List.append_assoc, List.append_assoc]
    exact .run hgap hword hbehind ih

theorem runs_words (t : Text) : Runs t (words t) := by
  induction t using cut_induction isBlank with
  | plain t ht =>
    by_cases hne : t = []
    · rw [hne]
      exact .blanks (by simp)
    · have hword : IsWord t := ⟨hne, ht⟩
      have hrun : Runs ([] ++ (t ++ [])) [t] := .run (by simp) hword rfl (.blanks (by simp))
      rwa [List.nil_append, List.append_nil, ← words_of_isWord hword] at hrun
  | cut s c t hc hs ht =>
    rw [words_append_cons _ _ hc]
    exact .append_cons hc hs ht

/-- A word at the front of a text, up to a blank or the end, is the first of its words. -/
theorem words_isWord_append {word rest : Text} (hword : IsWord word)
    (hrest : rest.head?.all isBlank = true) : words (word ++ rest) = word :: words rest := by
  cases rest with
  | nil =>
    rw [List.append_nil, words_of_isWord hword]
    rfl
  | cons c rest =>
    have hc : isBlank c = true := hrest
    rw [words_append_cons _ _ hc, words_of_isWord hword, words_cons _ hc]
    rfl

/-- A text has one list of runs, which are its words. -/
theorem runs_iff (t : Text) (ws : List Text) : Runs t ws ↔ ws = words t := by
  constructor
  · intro h
    induction h with
    | @blanks gap hgap =>
      rw [← List.append_nil gap, words_blanks_append hgap]
      rfl
    | run hgap hword hrest h ih =>
      rw [words_blanks_append hgap, words_isWord_append hword hrest, ih]
  · rintro rfl
    exact runs_words t

/-- The check for normal form accepts the texts that are their words with single spaces between
them. -/
theorem isNormal_iff_unwords_words (t : Text) : isNormal t = true ↔ unwords (words t) = t := by
  rw [← normalize_eq_self_iff, normalize_eq]

/-- Normal form writes the runs of a text with single spaces between them, so it depends on nothing
else. The text is handed back as it is just when it is written so, which the check tells; and so the
normal form of a normal form is that form itself. -/
theorem normalize_by_runs (t : Text) :
    (∃ ws, Runs t ws) ∧
    (∀ ws, Runs t ws →
      normalize t = unwords ws ∧
        normalizeShared t = (if t = unwords ws then .borrowed t else .owned (unwords ws)) ∧
        ∀ other, Runs other ws → normalize other = normalize t) ∧
    (normalizeShared t).text = normalize t ∧
    (isNormal t = true ↔ unwords (words t) = t) ∧
    normalize (normalize t) = normalize t ∧
    normalizeShared (normalize t) = .borrowed (normalize t) := by
  refine ⟨⟨_, runs_words t⟩, ?_, text_normalizeShared t, isNormal_iff_unwords_words t, ?_, ?_⟩
  · intro ws hws
    obtain rfl := (runs_iff t ws).1 hws
    refine ⟨normalize_eq t, ?_, ?_⟩
    · have hcheck : isNormal t = true ↔ t = unwords (words t) :=
        (isNormal_iff_unwords_words t).trans eq_comm
      simp only [normalizeShared, hcheck]
    · intro other hother
      rw [normalize_eq, normalize_eq, ← (runs_iff other _).1 hother]
  · exact (normalize_eq_self_iff _).2 (isNormal_normalize t)
  · exact if_pos (isNormal_normalize t)

/-- A tab, a run of spaces and a space that does not break lines are blanks, so this text is written
anew; the result is then handed back as it is. -/
theorem normalize_by_runs_values :
    let t := "\tSELECT  é\u00A0".toList
    let ws := ["SELECT".toList, ['é']]
    Runs t ws ∧ normalize t = "SELECT é".toList ∧
      normalizeShared t = .owned "SELECT é".toList ∧
      normalize "SELECT é".toList = normalize t ∧
      normalizeShared "SELECT é".toList = .borrowed "SELECT é".toList := by
  intro t ws
  have hruns : Runs t ws := (runs_iff t ws).2 (by decide +kernel)
  have hother : Runs "SELECT é".toList ws := (runs_iff _ ws).2 (by decide +kernel)
  obtain ⟨-, hnormal, -, -, -, hagain⟩ := normalize_by_runs t
  obtain ⟨heq, hshared, hsame⟩ := hnormal ws hruns
  have hwritten : unwords ws = "SELECT é".toList := by decide +kernel
  rw [hwritten] at heq hshared
  refine ⟨hruns, heq, ?_, hsame _ hother, ?_⟩
  · rw [hshared]
    decide +kernel
  · rw [heq] at hagain
    exact hagain

end SqlClauses.Text
