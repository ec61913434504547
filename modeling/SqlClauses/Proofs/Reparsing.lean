import SqlClauses.Proofs.WellFormed

/-!
# Reading an expression back

An expression that was read from a query can be written as a query and read again. All clauses of a
keyword have become one, blanks around commas and dots are gone, and every connective has become an
`AND`, but no keyword comes up by that, and nothing else is lost.

* `plain_fields`: no keyword comes up where fields are written side by side.
* `rereadable_of_contents`: what any contents leave as a value is read back.
* `parse_render_parse`: so is the expression of any query.
-/

namespace SqlClauses

open Text

/-! ## Fields -/

/-- Blanks at the ends of a piece that stands between glue are left out. -/
theorem plain_trim (front t back : Text) (hfront : front.getLast?.all isGlue = true)
    (hback : back.head?.all isGlue = true) (h : Plain Keyword (tokens (front ++ t ++ back))) :
    Plain Keyword (tokens (front ++ trim t ++ back)) := by
  obtain ⟨before, behind, ht, hbefore, hbehind⟩ := exists_eq_append_trim t
  have hwhole : front ++ t ++ back = front ++ before ++ (trim t ++ behind ++ back) := by
    conv_lhs => rw [ht]
    simp
  rw [hwhole] at h
  have hrest := plain_drop_blanks hbefore (.inl hfront) h
  have hsplit : front ++ (trim t ++ behind ++ back) = front ++ trim t ++ behind ++ back := by simp
  rw [hsplit] at hrest
  exact plain_drop_blanks hbehind (.inr hback) hrest

/-- So are all blanks that a token loses when it is read as a field. -/
theorem plain_display (front token back : Text) (hfront : front.getLast?.all isGlue = true)
    (hback : back.head?.all isGlue = true) (h : Plain Keyword (tokens (front ++ token ++ back))) :
    Plain Keyword (tokens (front ++ (Field.ofToken token).display ++ back)) := by
  have htrim := plain_trim front token back hfront hback h
  rcases Field.ofToken_cases token with
    ⟨heq, -⟩ | ⟨qualifier, name, heq, hsplit, -, -⟩ | ⟨heq, -⟩
  · rwa [heq]
  · have hqualifier :
        Plain Keyword (tokens (front ++ trim qualifier ++ '.' :: (name ++ back))) := by
      refine plain_trim front qualifier _ hfront rfl ?_
      simpa [hsplit] using htrim
    have hname :
        Plain Keyword (tokens (front ++ trim qualifier ++ ['.'] ++ trim name ++ back)) := by
      refine plain_trim _ name back (by simp [isGlue]) hback ?_
      simpa using hqualifier
    rw [heq]
    simpa [Field.display] using hname
  · rwa [heq]

/-- Tokens with commas between them make no keyword once they are read as fields. -/
theorem plain_displays (front : Text) (pieces : List Text)
    (hfront : front.getLast?.all isGlue = true)
    (h : Plain Keyword (tokens (front ++ [','].intercalate pieces))) :
    Plain Keyword (tokens (front ++
      [','].intercalate (pieces.map fun piece => (Field.ofToken piece).display))) := by
  -- The pieces that are read already stand in front, which ends in a comma from then on.
  induction pieces generalizing front with
  | nil => exact h
  | cons piece pieces ih =>
    cases pieces with
    | nil =>
      have hpiece := plain_display front piece [] hfront rfl (by simpa using h)
      simpa using hpiece
    | cons next pieces =>
      have hpiece : Plain Keyword (tokens (front ++ (Field.ofToken piece).display ++
          ',' :: [','].intercalate (next :: pieces))) := by
        refine plain_display front piece _ hfront rfl ?_
        simpa using h
      have hrest := ih (front ++ (Field.ofToken piece).display ++ [',']) (by simp [isGlue])
        (by simpa using hpiece)
      simpa using hrest

/-- Fields of any number of contents make no keyword when they are written side by side. -/
theorem plain_fields {contents : List Text}
    (h : ∀ content ∈ contents, Plain Keyword (tokens content)) :
    Plain Keyword (tokens ([','].intercalate
      ((contents.flatMap Field.listOfText).map Field.display))) := by
  induction contents with
  | nil => exact plain_nil
  | cons content contents ih =>
    have hcontent : Plain Keyword (tokens ([','].intercalate
        ((Field.listOfText content).map Field.display))) := by
      have hpieces := plain_displays [] (content.splitOn ',') rfl
        (by simpa using h content (by simp))
      simpa [Field.listOfText, Function.comp_def] using hpieces
    cases contents with
    | nil => simpa using hcontent
    | cons next contents =>
      have hrest := ih fun c hc => h c (by simp [hc])
      rw [List.flatMap_cons, List.map_append, intercalate_append]
      · exact plain_append_glue rfl hcontent hrest
      · simp [Field.listOfText_ne_nil]
      · simp [Field.listOfText_ne_nil]

theorem isNormal_display {token : Text} (h : Spaced token) :
    isNormal (Field.ofToken token).display = true := by
  rcases Field.ofToken_cases token with
    ⟨heq, -⟩ | ⟨qualifier, name, heq, hsplit, -, -⟩ | ⟨heq, -⟩
  · rw [heq]
    exact isNormal_trim h
  · have htrim : Spaced (qualifier ++ '.' :: name) := hsplit ▸ h.of_isInfix (isInfix_trim token)
    have hqualifier : Spaced qualifier := htrim.of_isInfix (List.prefix_append ..).isInfix
    have hname : Spaced name := htrim.of_isInfix ⟨qualifier ++ ['.'], [], by simp⟩
    rw [heq]
    exact isNormal_append_cons (isNormal_trim hqualifier) (isNormal_trim hname) (by decide)
  · rw [heq]
    exact isNormal_trim h

/-- Fields of normal contents make a normal text when they are written side by side. -/
theorem isNormal_fields {contents : List Text}
    (h : ∀ content ∈ contents, isNormal content = true) :
    isNormal ([','].intercalate
      ((contents.flatMap Field.listOfText).map Field.display)) = true := by
  refine isNormal_intercalate (by decide) fun text htext => ?_
  obtain ⟨field, hfield, rfl⟩ := List.mem_map.1 htext
  obtain ⟨content, hcontent, hfield⟩ := List.mem_flatMap.1 hfield
  obtain ⟨token, htoken, rfl⟩ := List.mem_map.1 hfield
  have hspaced : Spaced content := spaced_of_isNormal (h content hcontent)
  exact isNormal_display (hspaced.of_isInfix (isInfix_of_mem_splitOn token htoken))

/-! ## Values -/

/-- A value whose text says the same when it is the content of a clause. -/
structure Value.Rereadable (reading : Reading) (value : Value) : Prop where
  /-- No keyword comes up in the text. -/
  plain : Plain Keyword (tokens value.render)
  /-- The last token is the last word between spaces, as far as this matters to a `JOIN`. -/
  side : (lastToken? value.render).any isJoinSide = true → endsInJoinSide value.render = true
  /-- The text is read as the value. -/
  reread : Value.ofContents? reading [unwords (tokens value.render)] = some value

theorem rereadable_of_normal {reading : Reading} {value : Value} (h : IsContent value.render)
    (hreread : Value.ofContents? reading [value.render] = some value) :
    value.Rereadable reading where
  plain := h.2
  side := h.endsInJoinSide
  reread := by rwa [h.unwords_tokens]

theorem rereadable_fields {reading : Reading} {contents : List Text} (hne : contents ≠ [])
    (h : ∀ content ∈ contents, IsContent content)
    (hreading : reading = .fields ∨ reading = .join) :
    (Value.fields (contents.flatMap Field.listOfText)).Rereadable reading := by
  obtain ⟨-, hfields, hcanonical⟩ := wellFormed_fields hne h
  refine rereadable_of_normal ⟨isNormal_fields fun c hc => (h c hc).1,
    plain_fields fun c hc => (h c hc).2⟩ ?_
  have hback := Field.listOfText_displays hfields hcanonical
  rcases hreading with rfl | rfl
  · simp [Value.ofContents?, Value.render, hback]
  · simp [Value.ofContents?, Value.render, Field.joinListOfText, hback]

/-- Behind the last `AND` a side stands between spaces. -/
theorem endsInJoinSide_intercalate_and {parts : List (List Text)}
    (h : ∀ part ∈ parts, Condition.IsPart part)
    (hlast : (lastToken? (" AND ".toList.intercalate (parts.map unwords))).any isJoinSide = true) :
    endsInJoinSide (" AND ".toList.intercalate (parts.map unwords)) = true := by
  induction parts using List.twoStepInduction with
  | nil => simp [lastToken?] at hlast
  | singleton part =>
    rw [List.map_singleton, List.intercalate_singleton] at hlast ⊢
    rw [lastToken?, tokens_unwords_of_isToken (h part (by simp)).isToken] at hlast
    exact endsInJoinSide_unwords hlast
  | cons_cons first second rest _ ih =>
    rw [List.map_cons, List.map_cons, List.intercalate_cons_cons, ← List.map_cons] at hlast ⊢
    have hrest := ih second fun part hpart => h part (by simp [hpart])
    generalize " AND ".toList.intercalate ((second :: rest).map unwords) = back at hlast hrest ⊢
    have hspace : unwords first ++ " AND ".toList ++ back =
        unwords first ++ " AND".toList ++ ' ' :: back := by simp
    rw [hspace]
    refine endsInJoinSide_append_space _ (hrest ?_)
    rw [lastToken?, Condition.tokens_append_and] at hlast
    rw [lastToken?]
    cases hback : tokens back with
    | nil =>
      rw [hback, List.getLast?_concat] at hlast
      exact absurd hlast (by decide)
    | cons token others =>
      rwa [hback, List.getLast?_append_of_ne_nil _ (by simp), List.getLast?_cons_cons] at hlast

theorem rereadable_parts {parts : List (List Text)} (hne : parts ≠ [])
    (h : ∀ part ∈ parts, Condition.IsPart part) :
    (Value.conditions (parts.map unwords)).Rereadable .conditions := by
  have htokens : tokens (Value.conditions (parts.map unwords)).render =
      (Condition.joined parts).tokens := Condition.tokens_intercalate_and h
  refine ⟨?_, endsInJoinSide_intercalate_and h, ?_⟩
  · rw [htokens]
    exact Condition.plain_joined h
  · rw [htokens]
    simp [Value.ofContents?, Condition.listOfText_joined hne h]

theorem rereadable_conditions {contents : List Text} (hne : contents ≠ [])
    (h : ∀ content ∈ contents, IsContent content) :
    (Value.conditions (contents.flatMap Condition.listOfText)).Rereadable .conditions := by
  have hconditions : contents.flatMap Condition.listOfText =
      (contents.flatMap Condition.partsOfText).map unwords := by
    rw [List.map_flatMap]
    exact List.flatMap_congr fun content hcontent => (h content hcontent).listOfText_eq_parts
  rw [hconditions]
  refine rereadable_parts ?_ fun part hpart => ?_
  · obtain ⟨content, rest, rfl⟩ := List.exists_cons_of_ne_nil hne
    simp [Condition.partsOfText_ne_nil]
  · obtain ⟨content, hcontent, hpart⟩ := List.mem_flatMap.1 hpart
    exact Condition.isPart_of_mem_partsOfText (h content hcontent).2 part hpart

/-- What contents leave as a value is read back from its text. -/
theorem rereadable_of_contents {reading : Reading} {contents : List Text} {value : Value}
    (h : ∀ content ∈ contents, IsContent content)
    (hvalue : Value.ofContents? reading contents = some value) : value.Rereadable reading := by
  obtain ⟨last, hlast, rfl⟩ := Option.map_eq_some_iff.1 hvalue
  have hmem : last ∈ contents := List.mem_of_getLast? hlast
  have hne : contents ≠ [] := List.ne_nil_of_mem hmem
  cases reading with
  | verbatim => exact rereadable_of_normal (h last hmem) rfl
  | fields => exact rereadable_fields hne h (.inl rfl)
  | join => exact rereadable_fields hne h (.inr rfl)
  | conditions => exact rereadable_conditions hne h

/-! ## Expressions -/

/-- Every value that a query leaves is read back. -/
theorem rereadable_of_mem_entries (sql : Text) :
    ∀ entry ∈ (Expression.parse sql).entries, entry.2.Rereadable entry.1.reading := by
  intro entry hentry
  obtain ⟨contents, hcontents, hvalue⟩ := exists_contents sql entry hentry
  exact rereadable_of_contents hcontents hvalue

/-- The expression of a query is read back from the query that it is written as, unless a value
would draw a `JOIN` behind it to itself. -/
theorem parse_render_parse (sql : Text) (h : KeepApart (Expression.parse sql).phrases) :
    Expression.parse (Expression.parse sql).render = Expression.parse sql := by
  have hentries := rereadable_of_mem_entries sql
  generalize Expression.parse sql = expression at h hentries ⊢
  have hplain : ∀ phrase ∈ expression.phrases, Plain Keyword (tokens phrase.content) := by
    intro phrase hphrase
    obtain ⟨entry, hentry, rfl⟩ := List.mem_map.1 hphrase
    exact (hentries entry hentry).plain
  have hside : ∀ phrase ∈ expression.phrases, (lastToken? phrase.content).any isJoinSide = true →
      endsInJoinSide phrase.content = true := by
    intro phrase hphrase
    obtain ⟨entry, hentry, rfl⟩ := List.mem_map.1 hphrase
    exact (hentries entry hentry).side
  have hnodup : ((expression.phrases.map fun phrase =>
      (⟨phrase.keyword, unwords (tokens phrase.content)⟩ : Phrase)).map Phrase.keyword).Nodup := by
    simpa [Expression.phrases, Function.comp_def] using expression.nodup
  apply Expression.eq_of_entries_eq
  rw [Expression.parse, Expression.render, phrases_renderList hplain hside h,
    Expression.entries_recordAll_of_nodup hnodup, Expression.phrases, List.map_map, List.map_map]
  refine map_eq_self fun entry hentry => Prod.ext rfl (Option.some.inj ?_)
  exact (Phrase.update_none _).trans (hentries entry hentry).reread

/-- Clauses that come back, blanks around dots and commas, and a last condition that is empty. -/
theorem parse_render_parse_values :
    let expression := Expression.parse
      "SELECT t . a , LEFT WHERE x OR y JOIN u SELECT b WHERE".toList
    KeepApart expression.phrases ∧
      expression.render = "SELECT t.a,LEFT,b WHERE x AND y AND  JOIN u".toList ∧
      Expression.parse expression.render = expression := by
  have hkeep : KeepApart (Expression.parse
      "SELECT t . a , LEFT WHERE x OR y JOIN u SELECT b WHERE".toList).phrases := by
    decide +kernel
  exact ⟨hkeep, by decide +kernel, parse_render_parse _ hkeep⟩

end SqlClauses
