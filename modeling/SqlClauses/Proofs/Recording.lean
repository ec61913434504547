import Mathlib.Data.List.Induction
import SqlClauses.Query

/-!
# Recording phrases: laws

What an expression holds after any number of phrases. A keyword stands where it first occurred, and
its value comes from the contents recorded under it alone: from the last one if it is kept as a
text, and from all of them in order if it is read as a list.

* `get?_alter`, `keywords_recordAll`: what one change does, and which keywords there are in the end.
* `record_record`: two phrases of one keyword, recorded as a single one.
* `get?_recordAll`: the value of a keyword, from the contents recorded under it.
* `parse_by_clauses`: the same of a query and its clauses.
-/

namespace SqlClauses

/-! ## One change -/

namespace Entry

theorem lookup_alter_self (keyword : Keyword) (change : Option Value → Value)
    (entries : List Entry) :
    (alter keyword change entries).lookup keyword = some (change (entries.lookup keyword)) := by
  induction entries with
  | nil => simp [alter]
  | cons entry entries ih =>
    obtain ⟨other, value⟩ := entry
    by_cases h : other = keyword
    · subst h
      simp [alter]
    · have hne : (keyword == other) = false := by simpa using Ne.symm h
      simp only [alter, if_neg h, List.lookup_cons, hne, ih]

theorem lookup_alter_of_ne {keyword other : Keyword} (h : other ≠ keyword)
    (change : Option Value → Value) (entries : List Entry) :
    (alter keyword change entries).lookup other = entries.lookup other := by
  have hother : (other == keyword) = false := by simpa using h
  induction entries with
  | nil => simp [alter, List.lookup_cons, hother]
  | cons entry entries ih =>
    obtain ⟨first, value⟩ := entry
    by_cases hfirst : first = keyword
    · subst hfirst
      simp [alter, List.lookup_cons, hother]
    · simp only [alter, if_neg hfirst, List.lookup_cons, ih]

/-- Of two changes under one keyword the second goes on from what the first one leaves. -/
theorem alter_alter (keyword : Keyword) (first second : Option Value → Value)
    (entries : List Entry) :
    alter keyword second (alter keyword first entries) =
      alter keyword (fun value => second (some (first value))) entries := by
  induction entries with
  | nil => simp [alter]
  | cons entry rest ih =>
    by_cases h : entry.1 = keyword
    · simp [alter, h]
    · simp only [alter, if_neg h, ih]

theorem lookup_of_mem {entries : List Entry} (h : (entries.map Prod.fst).Nodup) :
    ∀ entry ∈ entries, entries.lookup entry.1 = some entry.2 := by
  induction entries with
  | nil => simp
  | cons first rest ih =>
    intro entry hentry
    obtain ⟨hfirst, hrest⟩ := List.nodup_cons.1 h
    rcases List.mem_cons.1 hentry with rfl | hentry
    · rw [List.lookup_cons_self]
    · have hne : (entry.1 == first.1) = false := by
        rw [beq_eq_false_iff_ne]
        rintro heq
        exact hfirst (heq ▸ List.mem_map_of_mem hentry)
      rw [List.lookup_cons, hne]
      exact ih hrest entry hentry

theorem alter_of_notMem {keyword : Keyword} {entries : List Entry}
    (h : keyword ∉ entries.map Prod.fst) (change : Option Value → Value) :
    alter keyword change entries = entries ++ [(keyword, change none)] := by
  induction entries with
  | nil => rfl
  | cons first rest ih =>
    rw [List.map_cons, List.mem_cons, not_or] at h
    rw [alter, if_neg (Ne.symm h.1), ih h.2]
    rfl

end Entry

namespace Expression

theorem eq_of_entries_eq {a b : Expression} (h : a.entries = b.entries) : a = b := by
  cases a
  cases b
  cases h
  rfl

@[simp] theorem entries_alter (expression : Expression) (keyword : Keyword)
    (change : Option Value → Value) :
    (expression.alter keyword change).entries = Entry.alter keyword change expression.entries :=
  rfl

@[simp] theorem get?_empty (keyword : Keyword) : empty.get? keyword = none := rfl

/-- A change is seen under its keyword and nowhere else. -/
theorem get?_alter (expression : Expression) (keyword other : Keyword)
    (change : Option Value → Value) :
    (expression.alter keyword change).get? other =
      if other = keyword then some (change (expression.get? keyword))
      else expression.get? other := by
  split
  · next h =>
    subst h
    exact Entry.lookup_alter_self other change expression.entries
  · next h => exact Entry.lookup_alter_of_ne h change expression.entries

theorem keywords_alter (expression : Expression) (keyword : Keyword)
    (change : Option Value → Value) :
    (expression.alter keyword change).keywords =
      if keyword ∈ expression.keywords then expression.keywords
      else expression.keywords ++ [keyword] :=
  Entry.keywords_alter keyword change expression.entries

theorem get?_eq_none_iff (expression : Expression) (keyword : Keyword) :
    expression.get? keyword = none ↔ keyword ∉ expression.keywords := by
  simp only [get?, keywords, List.lookup_eq_none_iff, List.mem_map, bne_iff_ne]
  exact ⟨fun h ⟨entry, hentry, heq⟩ => h entry hentry heq.symm,
    fun h entry hentry heq => h ⟨entry, hentry, heq.symm⟩⟩

theorem alter_alter (expression : Expression) (keyword : Keyword)
    (first second : Option Value → Value) :
    (expression.alter keyword first).alter keyword second =
      expression.alter keyword fun value => second (some (first value)) :=
  eq_of_entries_eq (Entry.alter_alter keyword first second expression.entries)

end Expression

/-! ## One phrase -/

/-- What the value of its keyword becomes when a phrase is recorded. -/
def Phrase.update (phrase : Phrase) (value : Option Value) : Value :=
  match phrase.keyword.reading with
  | .fields => .fields (extend (value.bind Value.fields?) (Field.listOfText phrase.content))
  | .conditions =>
    .conditions (extend (value.bind Value.conditions?) (Condition.listOfText phrase.content))
  | .join => .fields (extend (value.bind Value.fields?) (Field.joinListOfText phrase.content))
  | .verbatim => .text phrase.content

/-- The contents of the phrases of one keyword, in order. -/
def Phrase.contents (keyword : Keyword) (phrases : List Phrase) : List Text :=
  (phrases.filter fun phrase => phrase.keyword == keyword).map Phrase.content

/-- What contents leave as the value of a keyword that had none. Of texts the last one stays, and
lists are put one behind the other. -/
def Value.ofContents? (reading : Reading) (contents : List Text) : Option Value :=
  contents.getLast?.map fun last =>
    match reading with
    | .fields => .fields (contents.flatMap Field.listOfText)
    | .conditions => .conditions (contents.flatMap Condition.listOfText)
    | .join => .fields (contents.flatMap Field.joinListOfText)
    | .verbatim => .text last

/-- A list that is extended by what is read from one more content. -/
theorem extend_flatMap {α : Type} (read : Text → List α) (contents : List Text) (content : Text) :
    extend (contents.getLast?.bind fun _ => some (contents.flatMap read)) (read content) =
      (contents ++ [content]).flatMap read := by
  cases contents with
  | nil => simp [extend]
  | cons first rest =>
    rw [List.getLast?_cons]
    simp [extend]

/-- One more content is recorded behind the others. -/
theorem Phrase.update_ofContents? (phrase : Phrase) (contents : List Text) :
    some (phrase.update (Value.ofContents? phrase.keyword.reading contents)) =
      Value.ofContents? phrase.keyword.reading (contents ++ [phrase.content]) := by
  unfold Phrase.update Value.ofContents?
  rw [List.getLast?_concat, Option.map_some]
  cases phrase.keyword.reading with
  | fields => simp only [Option.bind_map, Function.comp_def, Value.fields?, extend_flatMap]
  | conditions =>
    simp only [Option.bind_map, Function.comp_def, Value.conditions?, extend_flatMap]
  | join => simp only [Option.bind_map, Function.comp_def, Value.fields?, extend_flatMap]
  | verbatim => rfl

/-- A single phrase leaves what its content is read as. -/
theorem Phrase.update_none (phrase : Phrase) :
    some (phrase.update none) = Value.ofContents? phrase.keyword.reading [phrase.content] :=
  phrase.update_ofContents? []

/-- What is read from a text is what is read from its front and then from its back. -/
def Reading.Parts (reading : Reading) (whole front back : Text) : Prop :=
  match reading with
  | .fields => Field.listOfText whole = Field.listOfText front ++ Field.listOfText back
  | .conditions =>
    Condition.listOfText whole = Condition.listOfText front ++ Condition.listOfText back
  | .join => Field.joinListOfText whole = Field.joinListOfText front ++ Field.joinListOfText back
  | .verbatim => False

/-- The front of a content and then its back leave what the whole does. -/
theorem Phrase.update_update {keyword : Keyword} {whole front back : Text}
    (h : keyword.reading.Parts whole front back) (value : Option Value) :
    update ⟨keyword, back⟩ (some (update ⟨keyword, front⟩ value)) =
      update ⟨keyword, whole⟩ value := by
  unfold update
  unfold Reading.Parts at h
  dsimp only
  cases hreading : keyword.reading with
  | fields =>
    rw [hreading] at h
    simp [extend, Value.fields?, h]
  | conditions =>
    rw [hreading] at h
    simp [extend, Value.conditions?, h]
  | join =>
    rw [hreading] at h
    simp [extend, Value.fields?, h]
  | verbatim =>
    rw [hreading] at h
    contradiction

namespace Expression

theorem record_eq_alter (expression : Expression) (phrase : Phrase) :
    expression.record phrase = expression.alter phrase.keyword phrase.update := by
  unfold record Phrase.update
  cases phrase.keyword.reading <;> rfl

/-- Two phrases of one keyword are recorded like a single one with the contents of both. -/
theorem record_record (expression : Expression) {keyword : Keyword} {whole front back : Text}
    (h : keyword.reading.Parts whole front back) :
    (expression.record ⟨keyword, front⟩).record ⟨keyword, back⟩ =
      expression.record ⟨keyword, whole⟩ := by
  simp only [record_eq_alter, alter_alter, Phrase.update_update h]

/-! ## Any number of phrases -/

/-- Of equal elements the first is kept, so a further one is added only if it is new. -/
theorem eraseDups_concat (keywords : List Keyword) (keyword : Keyword) :
    (keywords ++ [keyword]).eraseDups =
      if keyword ∈ keywords then keywords.eraseDups else keywords.eraseDups ++ [keyword] := by
  rw [List.eraseDups_append]
  split
  · next h =>
    have hnone : [keyword].removeAll keywords = [] := by simp [List.removeAll, h]
    rw [hnone, List.eraseDups_nil, List.append_nil]
  · next h =>
    have hall : [keyword].removeAll keywords = [keyword] := by simp [List.removeAll, h]
    rw [hall]
    rfl

/-- Steps that each change one keyword leave the keywords in the order in which they are first
changed. -/
theorem keywords_foldl {ι : Type} {step : Expression → ι → Expression} {keyword : ι → Keyword}
    {update : ι → Option Value → Value}
    (h : ∀ expression item, step expression item = expression.alter (keyword item) (update item))
    (items : List ι) : (items.foldl step empty).keywords = (items.map keyword).eraseDups := by
  induction items using List.reverseRecOn with
  | nil => rfl
  | append_singleton items item ih =>
    rw [List.foldl_append, List.foldl_cons, List.foldl_nil, h, keywords_alter, ih, List.map_append,
      List.map_singleton, eraseDups_concat]
    simp only [List.mem_eraseDups]

theorem recordAll_concat (expression : Expression) (phrases : List Phrase) (phrase : Phrase) :
    expression.recordAll (phrases ++ [phrase]) = (expression.recordAll phrases).record phrase :=
  List.foldl_append ..

/-- The value of a keyword comes from the contents recorded under it alone. -/
theorem get?_recordAll (phrases : List Phrase) (keyword : Keyword) :
    (empty.recordAll phrases).get? keyword =
      Value.ofContents? keyword.reading (Phrase.contents keyword phrases) := by
  induction phrases using List.reverseRecOn with
  | nil => rfl
  | append_singleton phrases phrase ih =>
    rw [recordAll_concat, record_eq_alter, get?_alter]
    split
    · next h =>
      subst h
      rw [ih, Phrase.update_ofContents?]
      simp [Phrase.contents]
    · next h => simp [ih, Phrase.contents, Ne.symm h]

/-- The keywords stand in the order in which they first occur. -/
theorem keywords_recordAll (phrases : List Phrase) :
    (empty.recordAll phrases).keywords = (phrases.map Phrase.keyword).eraseDups :=
  keywords_foldl record_eq_alter phrases

/-- Phrases with different keywords become the entries one by one. -/
theorem entries_recordAll_of_nodup {phrases : List Phrase}
    (h : (phrases.map Phrase.keyword).Nodup) :
    (empty.recordAll phrases).entries =
      phrases.map fun phrase => (phrase.keyword, phrase.update none) := by
  induction phrases using List.reverseRecOn with
  | nil => rfl
  | append_singleton phrases phrase ih =>
    rw [List.map_append, List.map_singleton, List.nodup_append] at h
    obtain ⟨hphrases, -, hdisjoint⟩ := h
    have hnew : phrase.keyword ∉ (empty.recordAll phrases).entries.map Prod.fst := by
      rw [ih hphrases, List.map_map]
      exact fun hmem => hdisjoint _ hmem _ (by simp) rfl
    rw [recordAll_concat, record_eq_alter, entries_alter, Entry.alter_of_notMem hnew, ih hphrases,
      List.map_append]
    rfl

end Expression

/-! ## Clauses of a query -/

theorem Clause.contents_map_toPhrase (clauses : List Clause) (keyword : Keyword) :
    Phrase.contents keyword (clauses.map toPhrase) =
      (clauses.filter fun clause => clause.keyword == keyword).map (·.content) := by
  simp [Phrase.contents, List.filter_map, Function.comp_def]

/-- Every keyword of a query stands once, where it first occurs, and its value comes from all of its
own clauses and from no other one. -/
theorem parse_by_clauses (sql : Text) :
    let clauses := Clause.listOfQuery sql
    let keywords := (clauses.map (·.keyword)).eraseDups
    let own (keyword : Keyword) := clauses.filter fun clause => clause.keyword == keyword
    let expression := Expression.parse sql
    (expression.keywords = keywords ∧ expression.keywords.Nodup ∧
      expression.keys = keywords.map Keyword.key ∧ expression.size = keywords.length) ∧
    ∀ keyword,
      (expression.get? keyword = none ↔ ∀ clause ∈ clauses, clause.keyword ≠ keyword) ∧
      (expression.get? keyword = (own keyword).getLast?.map fun last =>
        match keyword.reading with
        | .verbatim => .text last.content
        | .fields => .fields ((own keyword).flatMap fun clause => Field.listOfText clause.content)
        | .join => .fields ((own keyword).flatMap fun clause => Field.joinListOfText clause.content)
        | .conditions =>
          .conditions ((own keyword).flatMap fun clause => Condition.listOfText clause.content)) ∧
      expression.get? keyword =
        (Expression.empty.recordAll ((own keyword).map Clause.toPhrase)).get? keyword := by
  intro clauses keywords own expression
  have hkeywords : expression.keywords = keywords := by
    simp only [expression, Expression.parse, Expression.keywords_recordAll, List.map_map]
    rfl
  have hcontents (keyword : Keyword) : Phrase.contents keyword (clauses.map Clause.toPhrase) =
      (own keyword).map (·.content) := Clause.contents_map_toPhrase clauses keyword
  have hown (keyword : Keyword) : Phrase.contents keyword ((own keyword).map Clause.toPhrase) =
      (own keyword).map (·.content) := by
    rw [Clause.contents_map_toPhrase, List.filter_filter]
    simp only [Bool.and_self, own]
  have hvalue (keyword : Keyword) : expression.get? keyword =
      Value.ofContents? keyword.reading ((own keyword).map (·.content)) := by
    rw [← hcontents]
    exact Expression.get?_recordAll ..
  refine ⟨⟨hkeywords, expression.nodup, ?_, ?_⟩, fun keyword => ⟨?_, ?_, ?_⟩⟩
  · rw [← hkeywords]
    rfl
  · rw [← hkeywords, Expression.keywords, List.length_map]
    rfl
  · rw [Expression.get?_eq_none_iff, hkeywords, List.mem_eraseDups]
    simp
  · rw [hvalue, Value.ofContents?, List.getLast?_map, Option.map_map]
    cases keyword.reading <;> simp [Function.comp_def, List.flatMap_map]
  · rw [hvalue, Expression.get?_recordAll, hown]

/-- Lists grow wherever their keyword comes back, a text is replaced, and no keyword moves. -/
example : (Expression.parse
    "SELECT a LIMIT 1 WHERE x OR y SELECT t.b LIMIT 2 WHERE z".toList).entries =
      [(.select, .fields [.named ['a'], .aliased ['t'] ['b']]), (.limit, .text ['2']),
        (.whereCond, .conditions [['x'], ['y'], ['z']])] := by
  decide +kernel

end SqlClauses
