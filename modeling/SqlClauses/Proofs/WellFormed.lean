import SqlClauses.Expression.WellFormed
import SqlClauses.Proofs.Condition
import SqlClauses.Proofs.Field
import SqlClauses.Proofs.Recording
import SqlClauses.Proofs.Rendering

/-!
# Well-formed values: laws

The contents of clauses are normal and without keywords. What is cut out of one and trimmed is
normal again, and no parenthesis comes up in it; but a keyword may, and so does not appear among
what is said of fields. A condition keeps to whole tokens of its content, which is why neither a
keyword nor a connective comes up in it.

* `exists_contents`: an entry of an expression, from the contents of clauses.
* `wellFormed_of_contents`: the value that contents leave is well-formed.
* `parse_wellFormed`: so is every value of a query.
-/

namespace SqlClauses

open Text

/-! ## Texts -/

theorem bare_iff (t : Text) : Bare t ↔ isNormal t = true ∧ ∀ c ∈ t, isParen c = false := by
  rw [Bare, normalize_eq_self_iff]
  refine and_congr_right fun _ => ⟨fun ⟨hopen, hclose⟩ c hc => ?_, fun h => ⟨?_, ?_⟩⟩
  · refine Bool.eq_false_iff.2 fun hparen => ?_
    rcases eq_or_eq_of_isParen hparen with rfl | rfl
    · exact hopen hc
    · exact hclose hc
  · exact fun hmem => absurd (h '(' hmem) (by decide)
  · exact fun hmem => absurd (h ')' hmem) (by decide)

theorem IsContent.isParen_eq_false {t : Text} (h : IsContent t) : ∀ c ∈ t, isParen c = false :=
  isParen_eq_false_of_isAtom (isAtom_of_plain h.2 isToken_of_mem_tokens)

theorem IsContent.bare {t : Text} (h : IsContent t) : Bare t :=
  (bare_iff t).2 ⟨h.1, h.isParen_eq_false⟩

/-- A piece of a content is bare once it is trimmed. -/
theorem IsContent.bare_trim {t piece : Text} (h : IsContent t) (hpiece : piece <:+: t) :
    Bare (trim piece) := by
  have hspaced : Spaced piece := h.spaced.of_isInfix hpiece
  refine (bare_iff _).2 ⟨isNormal_trim hspaced, fun c hc => ?_⟩
  exact h.isParen_eq_false c (hpiece.subset ((isInfix_trim piece).subset hc))

/-! ## Fields -/

/-- The texts of a field are pieces of the token that it was read from. -/
theorem Field.exists_of_mem_texts {token : Text} :
    ∀ text ∈ (ofToken token).texts, ∃ piece, piece <:+: token ∧ text = trim piece := by
  intro text htext
  rcases ofToken_cases token with
    ⟨heq, -⟩ | ⟨qualifier, name, heq, hsplit, -, -⟩ | ⟨heq, -⟩
  · rw [heq, texts, List.mem_singleton] at htext
    exact ⟨token, List.infix_rfl, htext⟩
  · have hwhole : qualifier ++ '.' :: name <:+: token := hsplit ▸ isInfix_trim token
    rw [heq, texts, List.mem_pair] at htext
    rcases htext with rfl | rfl
    · exact ⟨qualifier, (List.prefix_append ..).isInfix.trans hwhole, rfl⟩
    · exact ⟨name, ((List.suffix_cons ..).trans (List.suffix_append ..)).isInfix.trans hwhole, rfl⟩
  · rw [heq, texts, List.mem_singleton] at htext
    exact ⟨token, List.infix_rfl, htext⟩

theorem Field.bare_of_mem_texts {content : Text} (h : IsContent content) :
    ∀ field ∈ listOfText content, ∀ text ∈ field.texts, Bare text := by
  intro field hfield text htext
  obtain ⟨token, htoken, rfl⟩ := List.mem_map.1 hfield
  obtain ⟨piece, hpiece, rfl⟩ := exists_of_mem_texts text htext
  exact h.bare_trim (hpiece.trans (isInfix_of_mem_splitOn token htoken))

/-! ## Conditions -/

theorem IsContent.listOfText_eq_parts {content : Text} (h : IsContent content) :
    Condition.listOfText content = (Condition.partsOfText content).map unwords :=
  Condition.listOfText_eq_parts h.spaced h.isParen_eq_false

namespace Condition

theorem IsPart.isContent {part : List Text} (h : IsPart part) : IsContent (unwords part) := by
  refine ⟨isNormal_unwords fun token htoken => (h.isToken token htoken).isWord, ?_⟩
  rw [tokens_unwords_of_isToken h.isToken]
  exact h.keyword

/-- A condition is cut no further. -/
theorem IsPart.listOfText_eq {part : List Text} (h : IsPart part) :
    listOfText (unwords part) = [unwords part] := by
  rw [listOfText_unwords h.isAtom, Sorted.ofTokens_of_plain h.connective]
  rfl

/-- The conditions of a content are made of whole tokens of it. -/
theorem exists_part_of_mem_listOfText {content : Text} (h : IsContent content) :
    ∀ condition ∈ listOfText content, ∃ part, IsPart part ∧ condition = unwords part := by
  intro condition hcondition
  rw [h.listOfText_eq_parts] at hcondition
  obtain ⟨part, hpart, rfl⟩ := List.mem_map.1 hcondition
  exact ⟨part, isPart_of_mem_partsOfText h.2 part hpart, rfl⟩

theorem listOfText_ne_nil (content : Text) : listOfText content ≠ [] := by
  simp [listOfText, Cut.gaps]

end Condition

/-! ## Values -/

theorem wellFormed_fields {contents : List Text} (hne : contents ≠ [])
    (h : ∀ content ∈ contents, IsContent content) :
    (Value.fields (contents.flatMap Field.listOfText)).WellFormed .fields := by
  refine ⟨fun text htext => ?_, ?_, fun field hfield => ?_⟩
  · obtain ⟨field, hfield, htext⟩ := List.mem_flatMap.1 htext
    obtain ⟨content, hcontent, hfield⟩ := List.mem_flatMap.1 hfield
    exact Field.bare_of_mem_texts (h content hcontent) field hfield text htext
  · obtain ⟨content, rest, rfl⟩ := List.exists_cons_of_ne_nil hne
    simp [Field.listOfText_ne_nil]
  · obtain ⟨content, -, hfield⟩ := List.mem_flatMap.1 hfield
    exact Field.canonical_of_mem_listOfText field hfield

theorem wellFormed_conditions {contents : List Text} (hne : contents ≠ [])
    (h : ∀ content ∈ contents, IsContent content) :
    (Value.conditions (contents.flatMap Condition.listOfText)).WellFormed .conditions := by
  have hpart : ∀ condition ∈ contents.flatMap Condition.listOfText,
      ∃ part, Condition.IsPart part ∧ condition = unwords part := by
    intro condition hcondition
    obtain ⟨content, hcontent, hcondition⟩ := List.mem_flatMap.1 hcondition
    exact Condition.exists_part_of_mem_listOfText (h content hcontent) condition hcondition
  refine ⟨fun text htext => ?_, ?_, fun condition hcondition => ?_⟩
  · obtain ⟨part, hpart, rfl⟩ := hpart text htext
    exact hpart.isContent.bare
  · obtain ⟨content, rest, rfl⟩ := List.exists_cons_of_ne_nil hne
    simp [Condition.listOfText_ne_nil]
  · obtain ⟨part, hpart, rfl⟩ := hpart condition hcondition
    exact ⟨((isContent_iff _).1 hpart.isContent).2, hpart.listOfText_eq⟩

/-- What contents leave as a value is well-formed. -/
theorem wellFormed_of_contents {reading : Reading} {contents : List Text} {value : Value}
    (h : ∀ content ∈ contents, IsContent content)
    (hvalue : Value.ofContents? reading contents = some value) : value.WellFormed reading := by
  obtain ⟨last, hlast, rfl⟩ := Option.map_eq_some_iff.1 hvalue
  have hmem : last ∈ contents := List.mem_of_getLast? hlast
  have hne : contents ≠ [] := List.ne_nil_of_mem hmem
  cases reading with
  | verbatim =>
    refine ⟨?_, ((isContent_iff last).1 (h last hmem)).2⟩
    simpa [Value.texts] using (h last hmem).bare
  | fields => exact wellFormed_fields hne h
  | join => exact wellFormed_fields hne h
  | conditions => exact wellFormed_conditions hne h

/-! ## Expressions -/

/-- The value of an entry comes from contents of clauses. -/
theorem exists_contents (sql : Text) :
    ∀ entry ∈ (Expression.parse sql).entries, ∃ contents,
      (∀ content ∈ contents, IsContent content) ∧
        Value.ofContents? entry.1.reading contents = some entry.2 := by
  intro entry hentry
  have hvalue : (Expression.parse sql).get? entry.1 = some entry.2 :=
    Entry.lookup_of_mem (Expression.parse sql).nodup entry hentry
  rw [parse_eq_recordAll_listOfTokens, Expression.get?_recordAll] at hvalue
  refine ⟨_, fun content hcontent => ?_, hvalue⟩
  obtain ⟨phrase, hphrase, rfl⟩ := List.mem_map.1 hcontent
  exact isContent_of_mem_listOfTokens isToken_of_mem_tokens phrase (List.mem_filter.1 hphrase).1

theorem wellFormed_of_mem_entries (sql : Text) :
    ∀ entry ∈ (Expression.parse sql).entries, entry.2.WellFormed entry.1.reading := by
  intro entry hentry
  obtain ⟨contents, hcontents, hvalue⟩ := exists_contents sql entry hentry
  exact wellFormed_of_contents hcontents hvalue

/-- Every value of a query is of the kind that its keyword prescribes, and well-formed as one of
this kind. -/
theorem parse_wellFormed (sql : Text) :
    ∀ entry ∈ (Expression.parse sql).entries, entry.2.WellFormed entry.1.reading :=
  wellFormed_of_mem_entries sql

/-- The name of a field may be a keyword, which the dot in front of it keeps from being one. A
condition may be empty. -/
theorem parse_wellFormed_values :
    let entries := (Expression.parse
      "SELECT u .FROM, a. b.c WHERE x=1 AND OR y\tz LIMIT 3".toList).entries
    let columns : Entry :=
      (.select, .fields [.aliased ['u'] "FROM".toList, .malformed "a. b.c".toList])
    let filter : Entry := (.whereCond, .conditions ["x=1".toList, [], "y z".toList])
    (columns ∈ entries ∧ columns.2.WellFormed .fields) ∧
      filter ∈ entries ∧ filter.2.WellFormed .conditions := by
  intro entries columns filter
  have hcolumns : columns ∈ entries := by decide +kernel
  have hfilter : filter ∈ entries := by decide +kernel
  exact ⟨⟨hcolumns, parse_wellFormed _ columns hcolumns⟩, hfilter,
    parse_wellFormed _ filter hfilter⟩

end SqlClauses
