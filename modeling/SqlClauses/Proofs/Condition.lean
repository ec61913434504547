import Mathlib.Data.List.Induction
import SqlClauses.Proofs.Glue

/-!
# Conditions: laws

A content is cut at its connectives just as a query is cut at its keywords, so its conditions are
what its tokens have between the connectives. They are read back from a text that has them with
`AND` in between, whatever the connectives were.

* `listOfText_eq_parts`: the conditions of a content, from its tokens.
* `plain_joined`: joining them by `AND` makes no keyword.
* `listOfText_joined`: conditions that are joined by `AND` are read back.
* `listOfText_unwords_append`: what stands on both sides of a connective is read on its own.
-/

namespace SqlClauses

open Text

/-! ## What stands between the marks -/

section Parts

variable {κ : Type}

namespace Sorted

/-- The tokens between the marks, from the front to the end. -/
def parts (sorted : Sorted κ) : List (List Text) := sorted.loose :: sorted.groups.map Prod.snd

/-- Tokens with the same mark wherever one part ends and the next begins. -/
def ofParts (mark : κ) : List (List Text) → Sorted κ
  | [] => ⟨[], []⟩
  | first :: rest => ⟨first, rest.map fun part => (mark, part)⟩

theorem parts_ofParts (mark : κ) {parts : List (List Text)} (hne : parts ≠ []) :
    (ofParts mark parts).parts = parts := by
  obtain ⟨first, rest, rfl⟩ := List.exists_cons_of_ne_nil hne
  simp [ofParts, Sorted.parts, Function.comp_def]

variable [Mark κ]

theorem tokens_ofParts_cons_cons (mark : κ) (first second : List Text)
    (rest : List (List Text)) :
    (ofParts mark (first :: second :: rest)).tokens =
      first ++ (Mark.tokens mark ++ (ofParts mark (second :: rest)).tokens) := by
  simp [ofParts, tokens]

theorem isInfix_of_mem_parts {sorted : Sorted κ} :
    ∀ part ∈ sorted.parts, part <:+: sorted.tokens := by
  intro part hpart
  rcases List.mem_cons.1 hpart with rfl | hpart
  · exact (List.prefix_append ..).isInfix
  · obtain ⟨group, hgroup, rfl⟩ := List.mem_map.1 hpart
    obtain ⟨before, behind, hgroups⟩ := List.append_of_mem hgroup
    refine ⟨sorted.loose ++ (before.flatMap fun other => Mark.tokens other.1 ++ other.2) ++
      Mark.tokens group.1, behind.flatMap fun other => Mark.tokens other.1 ++ other.2, ?_⟩
    simp [tokens, hgroups]

theorem plain_of_mem_parts {sorted : Sorted κ} (h : sorted.Settled) :
    ∀ part ∈ sorted.parts, Plain κ part := by
  intro part hpart
  obtain ⟨loose, groups⟩ := sorted
  rcases List.mem_cons.1 hpart with rfl | hpart
  · cases groups with
    | nil => exact h
    | cons group groups => exact h.1
  · obtain ⟨group, hgroup, rfl⟩ := List.mem_map.1 hpart
    exact plain_of_mem_groups h group hgroup

end Sorted

namespace Cut

theorem parts_sorted (cut : Cut κ) : cut.sorted.parts = cut.gaps.map Text.tokens := by
  simp [sorted, Sorted.parts, gaps]

variable [Mark κ]

theorem isInfix_of_mem_gaps {cut : Cut κ} : ∀ gap ∈ cut.gaps, gap <:+: cut.text := by
  intro gap hgap
  rcases List.mem_cons.1 hgap with rfl | hgap
  · exact (List.prefix_append ..).isInfix
  · obtain ⟨piece, hpiece, rfl⟩ := List.mem_map.1 hgap
    exact tail_isInfix hpiece

end Cut

end Parts

namespace Condition

/-! ## Reading -/

/-- The tokens of a content between its connectives. -/
def partsOfText (content : Text) : List (List Text) :=
  (Sorted.ofTokens (tokens content) : Sorted Connective).parts

/-- The conditions of a content are what its tokens have between the connectives. -/
theorem listOfText_eq_parts {content : Text} (h : Spaced content)
    (hparen : ∀ c ∈ content, isParen c = false) :
    listOfText content = (partsOfText content).map unwords := by
  rw [listOfText, partsOfText, ← sorted_ofText (tidy_of_spaced h), Cut.parts_sorted, List.map_map]
  refine List.map_congr_left fun gap hgap => ?_
  have hwithin : gap <:+: content := by
    have := Cut.isInfix_of_mem_gaps gap hgap
    rwa [Cut.text_ofText] at this
  rw [trim_eq_unwords (h.of_isInfix hwithin), Function.comp_apply,
    tokens_eq_words fun c hc => hparen c (hwithin.subset hc)]

/-- Tokens with single spaces between them are read token by token. -/
theorem listOfText_unwords {ts : List Text} (h : ∀ token ∈ ts, IsAtom token) :
    listOfText (unwords ts) = (Sorted.ofTokens ts : Sorted Connective).parts.map unwords := by
  have htokens : tokens (unwords ts) = ts :=
    tokens_unwords_of_isToken fun token htoken => .inl (h token htoken)
  have hnormal : isNormal (unwords ts) = true :=
    isNormal_unwords fun token htoken => (h token htoken).isWord
  rw [listOfText_eq_parts (spaced_of_isNormal hnormal)
    (isParen_eq_false_of_isAtom (by rwa [htokens])), partsOfText, htokens]

theorem partsOfText_ne_nil (content : Text) : partsOfText content ≠ [] := by
  simp [partsOfText, Sorted.parts]

/-- Tokens that can be a condition: there is no mark of any kind among them. -/
structure IsPart (part : List Text) : Prop where
  connective : Plain Connective part
  keyword : Plain Keyword part
  isToken : ∀ token ∈ part, IsToken token

theorem IsPart.isAtom {part : List Text} (h : IsPart part) : ∀ token ∈ part, IsAtom token :=
  isAtom_of_plain h.keyword h.isToken

/-- What a content without a keyword is cut into can be conditions. -/
theorem isPart_of_mem_partsOfText {content : Text} (h : Plain Keyword (tokens content)) :
    ∀ part ∈ partsOfText content, IsPart part := by
  intro part hpart
  have hwithin : part <:+: tokens content := by
    have := Sorted.isInfix_of_mem_parts part hpart
    rwa [Sorted.tokens_ofTokens isToken_of_mem_tokens] at this
  exact {
    connective :=
      Sorted.plain_of_mem_parts (Sorted.settled_ofTokens isToken_of_mem_tokens) part hpart
    keyword := h.of_isInfix hwithin
    isToken := fun token htoken => isToken_of_mem_tokens token (hwithin.subset htoken) }

/-! ## Joining -/

theorem isAtom_spelling (connective : Connective) : IsAtom connective.spelling := by
  cases connective <;> decide

theorem tokens_connective (connective : Connective) :
    Mark.tokens connective = [connective.spelling] :=
  tokens_of_isAtom (isAtom_spelling connective)

/-- No connective has two words. -/
theorem apart_connective (front back : List Text) : Apart Connective front back := by
  intro last _ next _
  refine ofSpelling?_eq_none_iff.2 fun connective h => ?_
  have hspace : ' ' ∉ Mark.spelling connective := by cases connective <;> decide
  simp [h] at hspace

/-- No connective is part of a keyword. -/
theorem inert_spelling (connective : Connective) : Inert Keyword connective.spelling := by
  intro keyword
  have hwhole : Keyword.spelling keyword ≠ connective.spelling := by
    cases connective <;> cases keyword <;> decide
  have hfront : ¬ connective.spelling ++ [' '] <+: Keyword.spelling keyword := by
    cases connective <;> cases keyword <;> decide
  have hback : ¬ ' ' :: connective.spelling <:+ Keyword.spelling keyword := by
    cases connective <;> cases keyword <;> decide
  refine ⟨hwhole, fun other => ⟨fun h => hfront ⟨other, ?_⟩, fun h => hback ⟨other, h.symm⟩⟩⟩
  rw [List.append_assoc]
  exact h.symm

/-- The tokens of conditions that are joined by `AND`, sorted. -/
def joined (parts : List (List Text)) : Sorted Connective := Sorted.ofParts .and parts

@[simp] theorem tokens_joined_singleton (part : List Text) : (joined [part]).tokens = part := by
  simp [joined, Sorted.ofParts, Sorted.tokens]

theorem tokens_joined_cons_cons (first second : List Text) (rest : List (List Text)) :
    (joined (first :: second :: rest)).tokens =
      first ++ Connective.and.spelling :: (joined (second :: rest)).tokens := by
  rw [joined, Sorted.tokens_ofParts_cons_cons, tokens_connective]
  rfl

theorem settled_joined {parts : List (List Text)} (h : ∀ part ∈ parts, IsPart part) :
    (joined parts).Settled := by
  induction parts using List.twoStepInduction with
  | nil => exact plain_nil
  | singleton part => exact (h part (by simp)).connective
  | cons_cons first second rest _ ih =>
    have hrest : (joined (second :: rest)).Settled := ih second fun part hpart =>
      h part (by simp [hpart])
    exact ⟨(h first (by simp)).connective, apart_connective first _, hrest⟩

/-- Joining tokens by `AND` makes no keyword. -/
theorem plain_joined {parts : List (List Text)} (h : ∀ part ∈ parts, IsPart part) :
    Plain Keyword (joined parts).tokens := by
  induction parts using List.twoStepInduction with
  | nil => exact plain_nil
  | singleton part => simpa using (h part (by simp)).keyword
  | cons_cons first second rest _ ih =>
    rw [tokens_joined_cons_cons, plain_append_cons_iff (inert_spelling .and)]
    exact ⟨(h first (by simp)).keyword, ih second fun part hpart => h part (by simp [hpart])⟩

theorem isAtom_of_mem_joined {parts : List (List Text)} (h : ∀ part ∈ parts, IsPart part) :
    ∀ token ∈ (joined parts).tokens, IsAtom token := by
  induction parts using List.twoStepInduction with
  | nil => simp [joined, Sorted.ofParts, Sorted.tokens]
  | singleton part => simpa using (h part (by simp)).isAtom
  | cons_cons first second rest _ ih =>
    rw [tokens_joined_cons_cons, List.forall_mem_append, List.forall_mem_cons]
    exact ⟨(h first (by simp)).isAtom, isAtom_spelling .and, ih second fun part hpart =>
      h part (by simp [hpart])⟩

theorem tokens_append_and (s t : Text) :
    tokens (s ++ " AND ".toList ++ t) = tokens s ++ Connective.and.spelling :: tokens t := by
  have hspaces : s ++ " AND ".toList ++ t = s ++ ' ' :: (Connective.and.spelling ++ ' ' :: t) := by
    simp [Connective.spelling]
  rw [hspaces, tokens_append_blank s _ isBlank_space, tokens_append_blank _ t isBlank_space,
    tokens_of_isAtom (isAtom_spelling .and)]
  rfl

/-- The tokens of conditions that are written with `AND` between them. -/
theorem tokens_intercalate_and {parts : List (List Text)} (h : ∀ part ∈ parts, IsPart part) :
    tokens (" AND ".toList.intercalate (parts.map unwords)) = (joined parts).tokens := by
  induction parts using List.twoStepInduction with
  | nil => rfl
  | singleton part => simp [tokens_unwords_of_isToken (h part (by simp)).isToken]
  | cons_cons first second rest _ ih =>
    have hrest := ih second fun part hpart => h part (by simp [hpart])
    rw [List.map_cons, List.map_cons, List.intercalate_cons_cons, ← List.map_cons,
      tokens_append_and, hrest, tokens_unwords_of_isToken (h first (by simp)).isToken,
      tokens_joined_cons_cons]

/-- Conditions that are joined by `AND` are read back. -/
theorem listOfText_joined {parts : List (List Text)} (hne : parts ≠ [])
    (h : ∀ part ∈ parts, IsPart part) :
    listOfText (unwords (joined parts).tokens) = parts.map unwords := by
  rw [listOfText_unwords (isAtom_of_mem_joined h), Sorted.ofTokens_tokens (settled_joined h), joined,
    Sorted.parts_ofParts _ hne]

/-- Behind a connective, conditions are read on their own. -/
theorem listOfText_unwords_append {front back : List Text} (connective : Connective)
    (hfront : ∀ token ∈ front, IsAtom token) (hback : ∀ token ∈ back, IsAtom token) :
    listOfText (unwords (front ++ connective.spelling :: back)) =
      listOfText (unwords front) ++ listOfText (unwords back) := by
  have hwhole : ∀ token ∈ front ++ connective.spelling :: back, IsAtom token :=
    List.forall_mem_append.2
      ⟨hfront, List.forall_mem_cons.2 ⟨isAtom_spelling connective, hback⟩⟩
  have htokens : front ++ connective.spelling :: back =
      front ++ (Mark.tokens connective ++ back) := by
    rw [tokens_connective]
    rfl
  rw [listOfText_unwords hwhole, listOfText_unwords hfront, listOfText_unwords hback, htokens,
    Sorted.ofTokens_append_tokens (apart_connective _ _)]
  simp [Sorted.parts]

end Condition

end SqlClauses
