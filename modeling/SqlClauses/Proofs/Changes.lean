import SqlClauses.Expression.Change
import SqlClauses.Proofs.Encoding
import SqlClauses.Proofs.Recording

/-!
# Changes of an expression: laws

What an expression holds after any changes, in any order and of any kinds under one keyword. A
keyword stands where it was first changed, and its value comes from its own changes alone: from the
last one if that sets a text, and otherwise from the changes of the last one's kind that end them.

* `trailing_append`, `trailing_concat_of_eq_none`: a list grows by changes of its kind, and any
  other change ends it.
* `apply_eq_alter`, `update_value?`: what one change does to the value of its keyword.
* `get?_applyAll`, `keywords_applyAll`: the same of all changes.
* `applyAll_by_keyword`: keywords, values and members of what changes build from nothing.
-/

namespace SqlClauses

theorem Keyword.ofKey?_key (keyword : Keyword) : ofKey? keyword.key = some keyword := by
  cases keyword <;> decide

namespace Change

/-! ## The changes that end a list -/

section Trailing

variable {α : Type} {added? : Change → Option (List α)}

/-- Changes of one kind add to what those in front of them leave. -/
theorem trailing_append (changes : List Change) {run : List Change}
    (h : ∀ change ∈ run, (added? change).isSome) :
    trailing added? (changes ++ run) =
      trailing added? changes ++ (run.filterMap added?).flatten := by
  unfold trailing
  dsimp only
  rw [List.reverse_append, List.takeWhile_append_of_pos, List.reverse_append, List.reverse_reverse,
    List.filterMap_append, List.flatten_append]
  intro change hchange
  exact h change (List.mem_reverse.1 hchange)

/-- A change of another kind leaves nothing of a list. -/
theorem trailing_concat_of_eq_none (changes : List Change) {change : Change}
    (h : added? change = none) : trailing added? (changes ++ [change]) = [] := by
  simp [trailing, h]

end Trailing

/-! ## One change -/

/-- What the value of its keyword becomes when a change is carried out. -/
def update (change : Change) (value : Option Value) : Value :=
  match change with
  | setText _ words => .text words
  | addFields _ fields => .fields (extend (value.bind Value.fields?) fields)
  | addConditions _ conditions =>
    .conditions (extend (value.bind Value.conditions?) conditions)

theorem apply_eq_alter (expression : Expression) (change : Change) :
    apply expression change = expression.alter change.keyword change.update := by
  cases change <;> rfl

/-- The changes of one keyword, in order. -/
def own (keyword : Keyword) (changes : List Change) : List Change :=
  changes.filter fun change => change.keyword == keyword

theorem own_concat_self (changes : List Change) (change : Change) :
    own change.keyword (changes ++ [change]) = own change.keyword changes ++ [change] := by
  simp [own]

theorem own_concat_of_ne {keyword : Keyword} {change : Change} (h : change.keyword ≠ keyword)
    (changes : List Change) : own keyword (changes ++ [change]) = own keyword changes := by
  simp [own, h]

theorem own_own (keyword : Keyword) (changes : List Change) :
    own keyword (own keyword changes) = own keyword changes := by
  simp [own, List.filter_filter]

/-- What the changes of one keyword leave, by the kind of the last one. -/
def left (own : List Change) : Change → Value
  | setText _ words => .text words
  | addFields _ _ => .fields (trailing fields? own)
  | addConditions _ _ => .conditions (trailing conditions? own)

theorem value?_eq (keyword : Keyword) (changes : List Change) :
    value? keyword changes = (own keyword changes).getLast?.map (left (own keyword changes)) := rfl

section Lists

variable {α : Type} {added? : Change → Option (List α)} {list? : Value → Option (List α)}

/-- The list under a keyword is what the last changes of its kind add, and it is missing where there
are none. -/
theorem getD_bind_value?
    (h : ∀ own change, list? (left own change) = (added? change).map fun _ => trailing added? own)
    (keyword : Keyword) (changes : List Change) :
    ((value? keyword changes).bind list?).getD [] = trailing added? (own keyword changes) := by
  rw [value?_eq]
  rcases List.eq_nil_or_concat (own keyword changes) with hnil | ⟨before, last, hlast⟩
  · rw [hnil]
    rfl
  · rw [List.concat_eq_append] at hlast
    rw [hlast, List.getLast?_concat, Option.map_some, Option.bind_some, h]
    cases hadded : added? last with
    | none => exact (trailing_concat_of_eq_none before hadded).symm
    | some list => rfl

/-- One more change of the kind adds its list. -/
theorem extend_value?
    (h : ∀ own change, list? (left own change) = (added? change).map fun _ => trailing added? own)
    (keyword : Keyword) (changes : List Change) {change : Change} {list : List α}
    (hadded : added? change = some list) :
    extend ((value? keyword changes).bind list?) list =
      trailing added? (own keyword changes ++ [change]) := by
  have hrun : ∀ item ∈ [change], (added? item).isSome := by simp [hadded]
  rw [extend, getD_bind_value? h, trailing_append _ hrun]
  simp [hadded]

end Lists

theorem fields?_left (own : List Change) (change : Change) :
    (left own change).fields? = (fields? change).map fun _ => trailing fields? own := by
  cases change <;> rfl

theorem conditions?_left (own : List Change) (change : Change) :
    (left own change).conditions? = (conditions? change).map fun _ => trailing conditions? own := by
  cases change <;> rfl

/-- One more change is carried out behind the others. -/
theorem update_value? (changes : List Change) (change : Change) :
    some (change.update (value? change.keyword changes)) =
      value? change.keyword (changes ++ [change]) := by
  rw [value?_eq _ (changes ++ [change]), own_concat_self, List.getLast?_concat, Option.map_some]
  apply congrArg
  cases change with
  | setText keyword words => rfl
  | addFields keyword fields =>
    exact congrArg Value.fields (extend_value? fields?_left keyword changes rfl)
  | addConditions keyword conditions =>
    exact congrArg Value.conditions (extend_value? conditions?_left keyword changes rfl)

/-! ## All changes -/

theorem applyAll_concat (expression : Expression) (changes : List Change) (change : Change) :
    applyAll expression (changes ++ [change]) = apply (applyAll expression changes) change :=
  List.foldl_append ..

/-- The value of a keyword comes from its own changes alone. -/
theorem get?_applyAll (changes : List Change) (keyword : Keyword) :
    (applyAll .empty changes).get? keyword = value? keyword changes := by
  induction changes using List.reverseRecOn with
  | nil => rfl
  | append_singleton changes change ih =>
    rw [applyAll_concat, apply_eq_alter, Expression.get?_alter]
    by_cases h : keyword = change.keyword
    · subst h
      rw [if_pos rfl, ih, update_value?]
    · rw [if_neg h, ih, value?_eq, value?_eq, own_concat_of_ne (Ne.symm h)]

theorem keywords_applyAll (changes : List Change) :
    (applyAll .empty changes).keywords = (changes.map keyword).eraseDups :=
  Expression.keywords_foldl apply_eq_alter changes

end Change

/-! ## Members -/

/-- The member under the key of a keyword is its value. -/
theorem Entry.lookup_members (entries : List Entry) (keyword : Keyword) :
    (entries.map fun entry => (entry.1.key, entry.2.toJson)).lookup keyword.key =
      (entries.lookup keyword).map Value.toJson := by
  induction entries with
  | nil => rfl
  | cons entry entries ih =>
    rw [List.map_cons, List.lookup_cons, List.lookup_cons]
    by_cases h : keyword = entry.1
    · simp [h]
    · have hkey : (keyword.key == entry.1.key) = false :=
        beq_eq_false_iff_ne.2 fun heq => h (Keyword.key_injective heq)
      have hkeyword : (keyword == entry.1) = false := beq_eq_false_iff_ne.2 h
      rw [hkey, hkeyword]
      exact ih

/-- Changes of nothing leave each keyword once, where it was first changed. Whether a keyword has a
value, and which, is told by its own changes alone, and the value is found under the key of the
keyword too. The JSON object has one member for each keyword, in the same order. -/
theorem applyAll_by_keyword (changes : List Change) :
    let expression := Change.applyAll .empty changes
    (expression.keywords = (changes.map Change.keyword).eraseDups ∧ expression.keywords.Nodup) ∧
    (∀ keyword,
      (expression.get? keyword = none ↔ ∀ change ∈ changes, change.keyword ≠ keyword) ∧
      expression.get? keyword = Change.value? keyword changes ∧
      expression.get? keyword = (Change.applyAll .empty (Change.own keyword changes)).get? keyword ∧
      expression.getKey? keyword.key = expression.get? keyword) ∧
    ∃ members, expression.toJson = .obj members ∧
      members.map Prod.fst = expression.keywords.map Keyword.key ∧ (members.map Prod.fst).Nodup ∧
      ∀ keyword : Keyword,
        members.lookup keyword.key = (expression.get? keyword).map Value.toJson := by
  intro expression
  have hkeys : (expression.entries.map fun entry => (entry.1.key, entry.2.toJson)).map Prod.fst =
      expression.keywords.map Keyword.key := by
    rw [List.map_map, Expression.keywords, List.map_map]
    rfl
  refine ⟨⟨Change.keywords_applyAll changes, expression.nodup⟩, fun keyword => ⟨?_, ?_, ?_, ?_⟩,
    _, rfl, hkeys, ?_, Entry.lookup_members expression.entries⟩
  · rw [Expression.get?_eq_none_iff, Change.keywords_applyAll, List.mem_eraseDups]
    simp
  · exact Change.get?_applyAll changes keyword
  · rw [Change.get?_applyAll, Change.get?_applyAll, Change.value?_eq, Change.value?_eq,
      Change.own_own]
  · rw [Expression.getKey?, Keyword.ofKey?_key, Option.bind_some]
  · rw [hkeys]
    refine List.Pairwise.map Keyword.key ?_ expression.nodup
    intro first second hne heq
    exact hne (Keyword.key_injective heq)

/-- Lists may be empty and kinds may change under one keyword: only the fields behind the conditions
stay, and a keyword that was changed in between does not see it. -/
theorem applyAll_by_keyword_values :
    let changes : List Change :=
      [.addFields .select [.named ['a']], .addConditions .whereCond [],
        .addConditions .select [['b']], .addFields .select [.named ['c']], .setText .limit ['1'],
        .addFields .select [], .addFields .select [.malformed ['d']], .setText .limit ['2']]
    let expression := Change.applyAll .empty changes
    expression.keywords = [.select, .whereCond, .limit] ∧
      expression.get? .select = some (.fields [.named ['c'], .malformed ['d']]) ∧
      expression.getKey? "where".toList = some (.conditions []) ∧
      expression.get? .limit = some (.text ['2']) ∧
      expression.get? .join = none := by
  intro changes expression
  obtain ⟨⟨hkeywords, -⟩, hvalues, -⟩ := applyAll_by_keyword changes
  obtain ⟨-, hselect, -⟩ := hvalues .select
  obtain ⟨-, hwhere, -, hkey⟩ := hvalues .whereCond
  obtain ⟨-, hlimit, -⟩ := hvalues .limit
  obtain ⟨hnone, -⟩ := hvalues .join
  refine ⟨hkeywords.trans (by decide), hselect.trans (by decide), ?_, hlimit.trans (by decide), ?_⟩
  · exact hkey.trans (hwhere.trans (by decide))
  · exact hnone.2 (by decide)

end SqlClauses
