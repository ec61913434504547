import SqlClauses.Proofs.Marks

/-!
# Sorting tokens: laws

Tokens can be sorted under the marks that they follow, and sorted tokens can be written out again.
The two are inverse to each other, between the lists of tokens and the sorted tokens that are
settled: no mark is left among the tokens of a group, and no group ends in a token that would take
the beginning of the next mark to itself.

* `tokens_ofTokens`: no token is lost.
* `settled_ofTokens`: no mark is missed.
* `ofTokens_tokens`: no mark is made up.
* `ofTokens_append`, `ofTokens_append_tokens`: tokens behind others are sorted on their own if none
  of the others is a mark, or if a mark stands between them.
-/

namespace SqlClauses

open Text

variable {κ : Type} [Mark κ]

/-- The tokens that a mark is written with. -/
def Mark.tokens (mark : κ) : List Text := Text.tokens (Mark.spelling mark)

/-- No mark is among the tokens, neither as one token nor as two that stand side by side. -/
def Plain (κ : Type) [Mark κ] (tokens : List Text) : Prop :=
  (∀ token ∈ tokens, (Mark.ofSpelling? token : Option κ) = none) ∧
    tokens.IsChain fun first second =>
      (Mark.ofSpelling? (first ++ ' ' :: second) : Option κ) = none

/-- The last of some tokens and the first of others are no mark together. -/
def Apart (κ : Type) [Mark κ] (front back : List Text) : Prop :=
  ∀ last ∈ front.getLast?, ∀ next ∈ back.head?,
    (Mark.ofSpelling? (last ++ ' ' :: next) : Option κ) = none

theorem plain_nil : Plain κ [] := ⟨by simp, .nil⟩

theorem plain_cons {token : Text} {rest : List Text} :
    Plain κ (token :: rest) ↔
      (Mark.ofSpelling? token : Option κ) = none ∧ Apart κ [token] rest ∧ Plain κ rest := by
  simp only [Plain, Apart, List.forall_mem_cons, List.isChain_cons, List.getLast?_singleton,
    Option.mem_some_iff, forall_eq']
  exact ⟨fun ⟨⟨h, hrest⟩, hnext, hchain⟩ => ⟨h, hnext, hrest, hchain⟩,
    fun ⟨h, hnext, hrest, hchain⟩ => ⟨⟨h, hrest⟩, hnext, hchain⟩⟩

theorem plain_append {front back : List Text} :
    Plain κ (front ++ back) ↔ Plain κ front ∧ Plain κ back ∧ Apart κ front back := by
  simp only [Plain, Apart, List.forall_mem_append, List.isChain_append]
  exact ⟨fun ⟨⟨hf, hb⟩, hcf, hcb, hseam⟩ => ⟨⟨hf, hcf⟩, ⟨hb, hcb⟩, hseam⟩,
    fun ⟨⟨hf, hcf⟩, ⟨hb, hcb⟩, hseam⟩ => ⟨⟨hf, hb⟩, hcf, hcb, hseam⟩⟩

/-- Only the last token in front matters. -/
theorem Apart.of_append (before : List Text) {front back : List Text}
    (h : Apart κ (before ++ front) back) : Apart κ front back := by
  intro last hlast
  refine h last ?_
  rw [List.getLast?_append_of_ne_nil]
  · exact hlast
  · rintro rfl
    simp at hlast

/-- Some of the tokens that stand side by side have no mark if all have none. -/
theorem Plain.of_isInfix {part whole : List Text} (h : Plain κ whole) (hpart : part <:+: whole) :
    Plain κ part := by
  obtain ⟨front, back, rfl⟩ := hpart
  exact (plain_append.1 (plain_append.1 h).1).2.1

namespace Sorted

/-- Sorted tokens, written out again. -/
def tokens (sorted : Sorted κ) : List Text :=
  sorted.loose ++ sorted.groups.flatMap fun group => Mark.tokens group.1 ++ group.2

/-- Puts tokens in front. -/
def pushAll (tokens : List Text) (sorted : Sorted κ) : Sorted κ :=
  { sorted with loose := tokens ++ sorted.loose }

/-- No mark is left among tokens, nor in the groups that follow them, and none is begun where they
end. -/
def SettledFrom (loose : List Text) : List (κ × List Text) → Prop
  | [] => Plain κ loose
  | (mark, tokens) :: groups =>
    Plain κ loose ∧ Apart κ loose (Mark.tokens mark) ∧ SettledFrom tokens groups

/-- No mark is left within a group, and none is begun at its end. -/
def Settled (sorted : Sorted κ) : Prop := SettledFrom sorted.loose sorted.groups

@[simp] theorem tokens_push (token : Text) (sorted : Sorted κ) :
    (sorted.push token).tokens = token :: sorted.tokens := rfl

@[simp] theorem tokens_pushMark (mark : κ) (sorted : Sorted κ) :
    (sorted.pushMark mark).tokens = Mark.tokens mark ++ sorted.tokens := by
  simp [pushMark, tokens]

theorem plain_of_mem_groups {loose : List Text} {groups : List (κ × List Text)}
    (h : SettledFrom loose groups) :
    ∀ group ∈ groups, Plain κ group.2 := by
  induction groups generalizing loose with
  | nil => simp
  | cons group groups ih =>
    obtain ⟨-, -, hrest⟩ := h
    have hgroup : Plain κ group.2 := by
      cases groups with
      | nil => exact hrest
      | cons next groups => exact hrest.1
    exact List.forall_mem_cons.2 ⟨hgroup, ih hrest⟩

/-- What stands in a group is among the tokens. -/
theorem isToken_of_mem_groups {sorted : Sorted κ}
    (h : ∀ token ∈ sorted.tokens, IsToken token) :
    ∀ group ∈ sorted.groups, ∀ token ∈ group.2, IsToken token := by
  intro group hgroup token htoken
  refine h token (List.mem_append_right _ (List.mem_flatMap.2 ⟨group, hgroup, ?_⟩))
  exact List.mem_append_right _ htoken

/-! ## One step of sorting -/

theorem ofTokens_cons_cons {first second : Text} {mark : κ}
    (h : Mark.ofSpelling? (first ++ ' ' :: second) = some mark) (rest : List Text) :
    ofTokens (first :: second :: rest) = pushMark mark (ofTokens rest) := by
  rw [ofTokens, h]

variable [TokenMark κ]

/-- A token that is a mark begins no mark of two tokens. -/
theorem apart_of_eq_some {token : Text} {mark : κ} (h : Mark.ofSpelling? token = some mark)
    (back : List Text) : Apart κ [token] back := by
  intro last hlast next _
  obtain rfl : token = last := by simpa using hlast
  rw [ofSpelling?_eq_some_iff] at h
  refine ofSpelling?_eq_none_iff.2 fun other hother => ?_
  obtain rfl : mark = other := TokenMark.eq_of_prefix ⟨' ' :: next, by rw [h, hother]⟩
  simp [h] at hother

theorem ofTokens_cons_of_eq_some {token : Text} {mark : κ}
    (h : Mark.ofSpelling? token = some mark) (rest : List Text) :
    ofTokens (token :: rest) = pushMark mark (ofTokens rest) := by
  cases rest with
  | nil => simp only [ofTokens, h]
  | cons next rest =>
    have hpair := apart_of_eq_some h (next :: rest) token rfl next rfl
    rw [ofTokens, hpair, h]

omit [TokenMark κ] in
theorem ofTokens_cons_of_eq_none {token : Text} {rest : List Text}
    (h : (Mark.ofSpelling? token : Option κ) = none) (hrest : Apart κ [token] rest) :
    (ofTokens (token :: rest) : Sorted κ) = push token (ofTokens rest) := by
  cases rest with
  | nil => simp only [ofTokens, h, push]
  | cons next rest =>
    have hpair : (Mark.ofSpelling? (token ++ ' ' :: next) : Option κ) = none :=
      hrest token rfl next rfl
    rw [ofTokens, hpair, h]

/-- Tokens are sorted from the left: first comes a mark of one token, one of two, or a token that
belongs to no mark. -/
theorem sort_induction (κ : Type) [Mark κ] {motive : List Text → Prop} (nil : motive [])
    (single : ∀ token rest, ∀ mark : κ, Mark.ofSpelling? token = some mark →
      motive rest → motive (token :: rest))
    (double : ∀ first second rest, ∀ mark : κ,
      Mark.ofSpelling? (first ++ ' ' :: second) = some mark →
      motive rest → motive (first :: second :: rest))
    (plain : ∀ token rest, (Mark.ofSpelling? token : Option κ) = none → Apart κ [token] rest →
      motive rest → motive (token :: rest))
    (tokens : List Text) : motive tokens := by
  induction hn : tokens.length using Nat.strong_induction_on generalizing tokens with
  | _ n ih =>
    cases tokens with
    | nil => exact nil
    | cons token rest =>
      rw [List.length_cons] at hn
      have hrest := ih rest.length (by omega) rest rfl
      cases hone : (Mark.ofSpelling? token : Option κ) with
      | some mark => exact single token rest mark hone hrest
      | none =>
        cases rest with
        | nil => exact plain token [] hone (by simp [Apart]) hrest
        | cons next rest =>
          cases htwo : (Mark.ofSpelling? (token ++ ' ' :: next) : Option κ) with
          | none => exact plain token _ hone (by simpa [Apart] using htwo) hrest
          | some mark =>
            rw [List.length_cons] at hn
            exact double token next rest mark htwo (ih rest.length (by omega) rest rfl)

/-! ## There and back -/

theorem tokens_double {first second : Text} {mark : κ}
    (h : Mark.ofSpelling? (first ++ ' ' :: second) = some mark) :
    Mark.tokens mark = [first, second] := by
  rw [ofSpelling?_eq_some_iff] at h
  obtain ⟨-, hfirst, hsecond⟩ := isAtom_of_spelling_eq h
  rw [Mark.tokens, h, tokens_append_blank _ _ isBlank_space, tokens_of_isAtom hfirst,
    tokens_of_isAtom hsecond]
  rfl

/-- No token is lost. -/
theorem tokens_ofTokens {tokens : List Text} (h : ∀ token ∈ tokens, IsToken token) :
    (ofTokens tokens : Sorted κ).tokens = tokens := by
  induction tokens using sort_induction κ with
  | nil => rfl
  | single token rest mark hmark ih =>
    rw [ofTokens_cons_of_eq_some hmark, tokens_pushMark, ih fun t ht => h t (by simp [ht]),
      Mark.tokens, ofSpelling?_eq_some_iff.1 hmark, tokens_of_isToken (h token (by simp))]
    rfl
  | double first second rest mark hmark ih =>
    rw [ofTokens_cons_cons hmark, tokens_pushMark, ih fun t ht => h t (by simp [ht]),
      tokens_double hmark]
    rfl
  | plain token rest hone hrest ih =>
    rw [ofTokens_cons_of_eq_none hone hrest, tokens_push, ih fun t ht => h t (by simp [ht])]

theorem tokens_ne_nil (mark : κ) : Mark.tokens mark ≠ [] := by
  cases TokenMark.spelled mark with
  | paren c hword hc hspelling => simp [Mark.tokens, hspelling, hc]
  | single hword hatom => simp [Mark.tokens, tokens_of_isAtom hatom]
  | double first second hword hfirst hsecond hspelling =>
    simp [Mark.tokens, hspelling, tokens_append_blank _ _ isBlank_space, tokens_of_isAtom hfirst]

omit [TokenMark κ] in
theorem settled_pushMark (mark : κ) (sorted : Sorted κ) :
    (pushMark mark sorted).Settled ↔ sorted.Settled := by
  simp [Settled, pushMark, SettledFrom, plain_nil, Apart]

theorem settled_push (token : Text) (sorted : Sorted κ) :
    (push token sorted).Settled ↔
      (Mark.ofSpelling? token : Option κ) = none ∧ Apart κ [token] sorted.tokens ∧
        sorted.Settled := by
  obtain ⟨loose, groups⟩ := sorted
  cases groups with
  | nil => simp [Settled, push, SettledFrom, tokens, plain_cons]
  | cons group groups =>
    obtain ⟨mark, behind⟩ := group
    obtain ⟨head, others, htokens⟩ := List.exists_cons_of_ne_nil (tokens_ne_nil mark)
    cases loose with
    | nil =>
      simp [Settled, push, SettledFrom, tokens, plain_cons, htokens, plain_nil, Apart]
    | cons next loose =>
      simp [Settled, push, SettledFrom, tokens, plain_cons, htokens, Apart, and_assoc]

/-- No mark is missed. -/
theorem settled_ofTokens {tokens : List Text} (h : ∀ token ∈ tokens, IsToken token) :
    (ofTokens tokens : Sorted κ).Settled := by
  induction tokens using sort_induction κ with
  | nil => exact plain_nil
  | single token rest mark hmark ih =>
    rw [ofTokens_cons_of_eq_some hmark, settled_pushMark]
    exact ih fun t ht => h t (by simp [ht])
  | double first second rest mark hmark ih =>
    rw [ofTokens_cons_cons hmark, settled_pushMark]
    exact ih fun t ht => h t (by simp [ht])
  | plain token rest hone hrest ih =>
    have htail : ∀ t ∈ rest, IsToken t := fun t ht => h t (by simp [ht])
    rw [ofTokens_cons_of_eq_none hone hrest, settled_push, tokens_ofTokens htail]
    exact ⟨hone, hrest, ih htail⟩

omit [TokenMark κ] in
/-- Tokens without a mark stay loose. -/
theorem ofTokens_append {front back : List Text} (hfront : Plain κ front)
    (hseam : Apart κ front back) :
    (ofTokens (front ++ back) : Sorted κ) = pushAll front (ofTokens back) := by
  induction front with
  | nil => rfl
  | cons token front ih =>
    obtain ⟨hone, hnext, hplain⟩ := plain_cons.1 hfront
    have hrest : Apart κ [token] (front ++ back) := by
      cases front with
      | nil => exact hseam
      | cons next front => exact hnext
    have hback : Apart κ front back := by
      cases front with
      | nil => simp [Apart]
      | cons next front => simpa [Apart] using hseam
    rw [List.cons_append, ofTokens_cons_of_eq_none hone hrest, ih hplain hback]
    rfl

omit [TokenMark κ] in
theorem ofTokens_of_plain {tokens : List Text} (h : Plain κ tokens) :
    (ofTokens tokens : Sorted κ) = ⟨tokens, []⟩ := by
  have happend : (ofTokens (tokens ++ []) : Sorted κ) = _ := ofTokens_append h (by simp [Apart])
  simpa [pushAll, ofTokens] using happend

theorem ofTokens_tokens_append (mark : κ) (rest : List Text) :
    ofTokens (Mark.tokens mark ++ rest) = pushMark mark (ofTokens rest) := by
  cases TokenMark.spelled mark with
  | paren c hword hc hspelling =>
    rw [Mark.tokens, hspelling, tokens_cons_paren [] hc]
    exact ofTokens_cons_of_eq_some (ofSpelling?_eq_some_iff.2 hspelling) rest
  | single hword hatom =>
    rw [Mark.tokens, tokens_of_isAtom hatom]
    exact ofTokens_cons_of_eq_some (ofSpelling?_eq_some_iff.2 rfl) rest
  | double first second hword hfirst hsecond hspelling =>
    rw [Mark.tokens, hspelling, tokens_append_blank _ _ isBlank_space, tokens_of_isAtom hfirst,
      tokens_of_isAtom hsecond]
    exact ofTokens_cons_cons (ofSpelling?_eq_some_iff.2 hspelling) rest

/-- Behind a mark that can follow them, tokens are sorted on their own. -/
theorem ofTokens_append_tokens {front : List Text} {mark : κ} (h : Apart κ front (Mark.tokens mark))
    (back : List Text) :
    (ofTokens (front ++ (Mark.tokens mark ++ back)) : Sorted κ) =
      ⟨(ofTokens front : Sorted κ).loose, (ofTokens front).groups ++
        (mark, (ofTokens back : Sorted κ).loose) :: (ofTokens back).groups⟩ := by
  induction front using sort_induction κ with
  | nil => exact ofTokens_tokens_append mark back
  | single token rest first hfirst ih =>
    rw [List.cons_append, ofTokens_cons_of_eq_some hfirst, ofTokens_cons_of_eq_some hfirst,
      ih (h.of_append [token])]
    rfl
  | double first second rest other hother ih =>
    rw [List.cons_append, List.cons_append, ofTokens_cons_cons hother, ofTokens_cons_cons hother,
      ih (h.of_append [first, second])]
    rfl
  | plain token rest hone hrest ih =>
    have hnext : Apart κ [token] (rest ++ (Mark.tokens mark ++ back)) := by
      cases rest with
      | cons next rest => exact hrest
      | nil =>
        obtain ⟨head, others, htokens⟩ := List.exists_cons_of_ne_nil (tokens_ne_nil mark)
        simpa [Apart, htokens] using h
    rw [List.cons_append, ofTokens_cons_of_eq_none hone hnext, ofTokens_cons_of_eq_none hone hrest,
      ih (h.of_append [token])]
    rfl

/-- No mark is made up. -/
theorem ofTokens_tokens {sorted : Sorted κ} (h : sorted.Settled) :
    ofTokens sorted.tokens = sorted := by
  obtain ⟨loose, groups⟩ := sorted
  induction groups generalizing loose with
  | nil => simpa [tokens] using ofTokens_of_plain h
  | cons group groups ih =>
    obtain ⟨mark, behind⟩ := group
    obtain ⟨hplain, hseam, hrest⟩ := h
    have hwritten : tokens ⟨loose, (mark, behind) :: groups⟩ =
        loose ++ (Mark.tokens mark ++ tokens ⟨behind, groups⟩) := by
      simp [tokens]
    rw [hwritten, ofTokens_append_tokens hseam, ofTokens_of_plain hplain, ih behind hrest]
    rfl

/-- Tokens have a mark among them exactly if sorting opens a group. -/
theorem groups_ofTokens_eq_nil_iff {tokens : List Text} (h : ∀ token ∈ tokens, IsToken token) :
    (ofTokens tokens : Sorted κ).groups = [] ↔ Plain κ tokens := by
  constructor
  · intro hnil
    have hsettled : SettledFrom _ _ := settled_ofTokens (κ := κ) h
    have hwritten := tokens_ofTokens (κ := κ) h
    rw [hnil] at hsettled
    simp only [Sorted.tokens, hnil, List.flatMap_nil, List.append_nil] at hwritten
    exact hwritten ▸ hsettled
  · intro hplain
    rw [ofTokens_of_plain hplain]

end Sorted

end SqlClauses
