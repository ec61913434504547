import SqlClauses.Proofs.Query

/-!
# Tokens that belong to no mark

A token can be unable to be a mark or half of one. It keeps apart what stands on both sides, so that
no mark comes up there. All tokens with a comma or a dot are of this kind as far as keywords are
concerned, and so blanks beside these can be left out, and texts be joined at them.

* `plain_append_cons_iff`, `ofTokens_append_inert`: tokens around an inert one are looked at on
  their own.
* `plain_join`, `plain_append_glue`: joining texts at a comma or a dot makes no keyword.
* `plain_drop_blanks`: nor does leaving out blanks beside one.
-/

namespace SqlClauses

open Text

/-! ## Inert tokens -/

section Inert

variable {κ : Type} [Mark κ]

/-- A token that is no mark, and neither the first nor the second half of one. -/
def Inert (κ : Type) [Mark κ] (token : Text) : Prop :=
  ∀ mark : κ, Mark.spelling mark ≠ token ∧
    ∀ other, Mark.spelling mark ≠ token ++ ' ' :: other ∧ Mark.spelling mark ≠ other ++ ' ' :: token

variable [TokenMark κ]

theorem Inert.ofSpelling?_eq_none {token : Text} (h : Inert κ token) :
    (Mark.ofSpelling? token : Option κ) = none :=
  ofSpelling?_eq_none_iff.2 fun mark => (h mark).1

/-- No mark goes on behind an inert token. -/
theorem Inert.apart_behind {token : Text} (h : Inert κ token) (front back : List Text) :
    Apart κ (front ++ [token]) back := by
  intro last hlast next _
  obtain rfl : token = last := by simpa using hlast
  exact ofSpelling?_eq_none_iff.2 fun mark => ((h mark).2 next).1

/-- No mark goes on in an inert token. -/
theorem Inert.apart_before {token : Text} (h : Inert κ token) (front back : List Text) :
    Apart κ front (token :: back) := by
  intro last _ next hnext
  obtain rfl : token = next := by simpa using hnext
  exact ofSpelling?_eq_none_iff.2 fun mark => ((h mark).2 last).2

/-- Around an inert token there is a mark only if there is one on either side. -/
theorem plain_append_cons_iff {front back : List Text} {token : Text} (h : Inert κ token) :
    Plain κ (front ++ token :: back) ↔ Plain κ front ∧ Plain κ back := by
  rw [plain_append, plain_cons]
  exact ⟨fun ⟨hfront, ⟨_, _, hback⟩, _⟩ => ⟨hfront, hback⟩,
    fun ⟨hfront, hback⟩ => ⟨hfront, ⟨h.ofSpelling?_eq_none, h.apart_behind [] back, hback⟩,
      h.apart_before front back⟩⟩

/-- An inert token stays loose, and the tokens behind it are sorted on their own. -/
theorem ofTokens_append_inert {front : List Text} {token : Text} (hfront : Plain κ front)
    (h : Inert κ token) (back : List Text) :
    Sorted.ofTokens (front ++ token :: back) =
      Sorted.pushAll (front ++ [token]) (Sorted.ofTokens back : Sorted κ) := by
  have hplain : Plain κ (front ++ [token]) := (plain_append_cons_iff h).2 ⟨hfront, plain_nil⟩
  rw [← Sorted.ofTokens_append hplain (h.apart_behind front back), List.append_assoc]
  rfl

end Inert

/-! ## Commas and dots -/

/-- A character that joins what stands on both sides into one token, and is in no keyword. -/
def isGlue (c : Char) : Bool := c == ',' || c == '.'

theorem isBreak_of_isGlue {c : Char} (h : isGlue c = true) : isBreak c = false := by
  simp only [isGlue, Bool.or_eq_true, beq_iff_eq] at h
  rcases h with rfl | rfl <;> decide

theorem not_mem_spelling_of_isGlue {c : Char} (h : isGlue c = true) (keyword : Keyword) :
    c ∉ keyword.spelling := by
  simp only [isGlue, Bool.or_eq_true, beq_iff_eq] at h
  rcases h with rfl | rfl <;> cases keyword <;> decide

/-- A token with glue in it belongs to no keyword. -/
theorem inert_of_isGlue {token : Text} {c : Char} (hc : isGlue c = true) (hmem : c ∈ token) :
    Inert Keyword token := by
  intro keyword
  have hnot := not_mem_spelling_of_isGlue hc keyword
  refine ⟨?_, fun other => ⟨?_, ?_⟩⟩
  · rintro rfl
    exact hnot hmem
  · intro h
    exact hnot (show c ∈ Mark.spelling keyword by simp [h, hmem])
  · intro h
    exact hnot (show c ∈ Mark.spelling keyword by simp [h, hmem])

theorem mem_run_of_getLast? {front run : Text} {c : Char}
    (hfront : front.getLast?.all isBreak = true) (hc : isGlue c = true)
    (h : (front ++ run).getLast? = some c) : c ∈ run := by
  cases run with
  | nil =>
    rw [List.append_nil] at h
    simp [h, isBreak_of_isGlue hc] at hfront
  | cons d run =>
    rw [List.getLast?_append_of_ne_nil _ (by simp)] at h
    exact List.mem_of_getLast? h

theorem mem_run_of_head? {run back : Text} {c : Char} (hback : back.head?.all isBreak = true)
    (hc : isGlue c = true) (h : (run ++ back).head? = some c) : c ∈ run := by
  cases run with
  | nil =>
    rw [List.nil_append] at h
    simp [h, isBreak_of_isGlue hc] at hback
  | cons d run => exact List.mem_of_mem_head? h

/-- Two texts are joined at glue: the tokens that meet there become one that belongs to no
keyword. -/
theorem plain_join {s t : Text} (hglue : s.getLast?.all isGlue = true ∨ t.head?.all isGlue = true)
    (hs : Plain Keyword (tokens s)) (ht : Plain Keyword (tokens t)) :
    Plain Keyword (tokens (s ++ t)) := by
  cases hlast : s.getLast? with
  | none =>
    obtain rfl := List.getLast?_eq_none_iff.1 hlast
    exact ht
  | some last =>
    cases hhead : t.head? with
    | none =>
      obtain rfl := List.head?_eq_none_iff.1 hhead
      rwa [List.append_nil]
    | some head =>
      obtain ⟨front, left, rfl, hleft, hfront⟩ := exists_append_run s
      obtain ⟨right, back, rfl, hright, hback⟩ := exists_run_append t
      obtain ⟨c, hc, hmem⟩ : ∃ c, isGlue c = true ∧ c ∈ left ++ right := by
        rcases hglue with hglue | hglue
        · have hc : isGlue last = true := by simpa [hlast] using hglue
          exact ⟨last, hc, List.mem_append_left _ (mem_run_of_getLast? hfront hc hlast)⟩
        · have hc : isGlue head = true := by simpa [hhead] using hglue
          exact ⟨head, hc, List.mem_append_right _ (mem_run_of_head? hback hc hhead)⟩
      have hatom : IsAtom (left ++ right) :=
        ⟨List.ne_nil_of_mem hmem, List.forall_mem_append.2 ⟨hleft, hright⟩⟩
      have htokens : tokens (front ++ left ++ (right ++ back)) =
          tokens front ++ (left ++ right) :: tokens back := by
        rw [List.append_assoc, ← List.append_assoc left,
          tokens_append_of_getLast? _ _ hfront, tokens_atom_append hatom hback]
      rw [tokens_append_of_getLast? _ _ hfront] at hs
      rw [tokens_append_of_head? _ _ hback] at ht
      rw [htokens, plain_append_cons_iff (inert_of_isGlue hc hmem)]
      exact ⟨(plain_append.1 hs).1, (plain_append.1 ht).2.1⟩

/-- Two texts are joined with glue between them. -/
theorem plain_append_glue {s t : Text} {c : Char} (hc : isGlue c = true)
    (hs : Plain Keyword (tokens s)) (ht : Plain Keyword (tokens t)) :
    Plain Keyword (tokens (s ++ c :: t)) := by
  have hatom : IsAtom [c] := ⟨by simp, by simpa using isBreak_of_isGlue hc⟩
  have hglue : Plain Keyword (tokens [c]) := by
    rw [tokens_of_isAtom hatom]
    exact (plain_append_cons_iff (inert_of_isGlue hc (List.mem_singleton_self c))).2
      ⟨plain_nil, plain_nil⟩
  exact plain_join (.inr hc) hs (plain_join (s := [c]) (.inl hc) hglue ht)

/-- Blanks beside glue are left out. -/
theorem plain_drop_blanks {front gap back : Text} (hgap : ∀ c ∈ gap, isBlank c = true)
    (hglue : front.getLast?.all isGlue = true ∨ back.head?.all isGlue = true)
    (h : Plain Keyword (tokens (front ++ gap ++ back))) :
    Plain Keyword (tokens (front ++ back)) := by
  by_cases hne : gap = []
  · simpa [hne] using h
  · rw [tokens_append_gap hne hgap, plain_append] at h
    exact plain_join hglue h.1 h.2.1

end SqlClauses
