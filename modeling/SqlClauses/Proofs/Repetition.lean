import SqlClauses.Proofs.Condition
import SqlClauses.Proofs.Field
import SqlClauses.Proofs.Recording
import SqlClauses.Proofs.Rendering

/-!
# Keywords that come back

A keyword whose clauses are read as lists can be written again, or its list be written on: with a
connective for conditions and with a comma for fields. The tokens in front and behind are sorted
alike either way, and what was one content has become two, which leave the same value.

* `listOfTokens_repeated`, `listOfTokens_linked`: the phrases of the two ways to write it.
* `parse_repeated_of_parts`: they leave the same, if the content is read on both sides of the link
  on its own.
* `parse_repeated`: so do the connectives and the comma.
-/

namespace SqlClauses

open Text

/-- A word with a space on either side. -/
def Text.setOff (word : Text) : Text := ' ' :: (word ++ [' '])

theorem Text.tokens_append_setOff (front word back : Text) :
    tokens (front ++ setOff word ++ back) = tokens front ++ (tokens word ++ tokens back) := by
  have hspaces : front ++ setOff word ++ back = front ++ ' ' :: (word ++ ' ' :: back) := by
    simp [setOff]
  rw [hspaces, tokens_append_blank _ _ isBlank_space, tokens_append_blank _ _ isBlank_space]

/-! ## Phrases -/

/-- The tokens before the first keyword. -/
def looseTokens (tokens : List Text) : List Text := (Sorted.ofTokens tokens : Sorted Keyword).loose

theorem isAtom_of_mem_looseTokens (t : Text) : ∀ token ∈ looseTokens (tokens t), IsAtom token := by
  have hmem : looseTokens (tokens t) ∈ (Sorted.ofTokens (tokens t) : Sorted Keyword).parts := by
    simp [looseTokens, Sorted.parts]
  have hplain : Plain Keyword (looseTokens (tokens t)) :=
    Sorted.plain_of_mem_parts (Sorted.settled_ofTokens isToken_of_mem_tokens) _ hmem
  have hwithin : looseTokens (tokens t) <:+: tokens t := by
    have := Sorted.isInfix_of_mem_parts _ hmem
    rwa [Sorted.tokens_ofTokens isToken_of_mem_tokens] at this
  exact isAtom_of_plain hplain fun token htoken =>
    isToken_of_mem_tokens token (hwithin.subset htoken)

namespace Phrase

variable {front middle : List Text} {keyword : Keyword}

/-- A keyword opens a phrase with what stands before the next keyword. -/
theorem listOfTokens_append (h : Apart Keyword front (Mark.tokens keyword)) (back : List Text) :
    listOfTokens (front ++ (Mark.tokens keyword ++ back)) =
      listOfTokens front ++ ⟨keyword, unwords (looseTokens back)⟩ :: listOfTokens back := by
  simp [listOfTokens, looseTokens, Sorted.ofTokens_append_tokens h]

/-- The phrases where a keyword is written again. -/
theorem listOfTokens_repeated (hfront : Apart Keyword front (Mark.tokens keyword))
    (hmiddle : Plain Keyword middle) (hseam : Apart Keyword middle (Mark.tokens keyword))
    (back : List Text) :
    listOfTokens (front ++ (Mark.tokens keyword ++ (middle ++ (Mark.tokens keyword ++ back)))) =
      listOfTokens front ++ ⟨keyword, unwords middle⟩ ::
        ⟨keyword, unwords (looseTokens back)⟩ :: listOfTokens back := by
  have hsorted := Sorted.ofTokens_of_plain hmiddle
  have hloose : looseTokens (middle ++ (Mark.tokens keyword ++ back)) = middle := by
    rw [looseTokens, Sorted.ofTokens_append_tokens hseam, hsorted]
  have hphrases : listOfTokens middle = [] := by
    rw [listOfTokens, hsorted]
    rfl
  rw [listOfTokens_append hfront, hloose, listOfTokens_append hseam, hphrases]
  rfl

/-- The phrases where a link is written in its place. -/
theorem listOfTokens_linked (hfront : Apart Keyword front (Mark.tokens keyword))
    (hmiddle : Plain Keyword middle) {link : Text} (hlink : Inert Keyword link)
    (back : List Text) :
    listOfTokens (front ++ (Mark.tokens keyword ++ (middle ++ link :: back))) =
      listOfTokens front ++ ⟨keyword, unwords (middle ++ link :: looseTokens back)⟩ ::
        listOfTokens back := by
  have hsorted := ofTokens_append_inert hmiddle hlink back
  have hloose : looseTokens (middle ++ link :: back) = middle ++ link :: looseTokens back := by
    rw [looseTokens, hsorted]
    simp [Sorted.pushAll, looseTokens]
  have hphrases : listOfTokens (middle ++ link :: back) = listOfTokens back := by
    rw [listOfTokens, hsorted]
    rfl
  rw [listOfTokens_append hfront, hloose, hphrases]

end Phrase

/-! ## Queries -/

/-- A link can stand for a keyword that comes back if what it links is read on its own. -/
theorem parse_repeated_of_parts {p x y link : Text} {keyword : Keyword}
    (hp : Apart Keyword (tokens p) (Mark.tokens keyword)) (hx : Plain Keyword (tokens x))
    (hseam : Apart Keyword (tokens x) (Mark.tokens keyword)) (hatom : IsAtom link)
    (hlink : Inert Keyword link)
    (hparts : keyword.reading.Parts
      (unwords (tokens x ++ link :: looseTokens (tokens y))) (unwords (tokens x))
      (unwords (looseTokens (tokens y)))) :
    Expression.parse (p ++ setOff keyword.spelling ++ x ++ setOff keyword.spelling ++ y) =
      Expression.parse (p ++ setOff keyword.spelling ++ x ++ setOff link ++ y) := by
  have hrepeated :
      tokens (p ++ setOff keyword.spelling ++ x ++ setOff keyword.spelling ++ y) =
        tokens p ++ (Mark.tokens keyword ++ (tokens x ++ (Mark.tokens keyword ++ tokens y))) := by
    rw [tokens_append_setOff, tokens_append_setOff, List.append_assoc, List.append_assoc]
    rfl
  have hlinked : tokens (p ++ setOff keyword.spelling ++ x ++ setOff link ++ y) =
      tokens p ++ (Mark.tokens keyword ++ (tokens x ++ link :: tokens y)) := by
    rw [tokens_append_setOff, tokens_append_setOff, tokens_of_isAtom hatom, List.append_assoc,
      List.append_assoc]
    rfl
  rw [parse_eq_recordAll_listOfTokens, parse_eq_recordAll_listOfTokens, hrepeated, hlinked,
    Phrase.listOfTokens_repeated hp hx hseam, Phrase.listOfTokens_linked hp hx hlink]
  simp only [Expression.recordAll, List.foldl_append, List.foldl_cons,
    Expression.record_record _ hparts]

/-- To write a keyword again is to write its list on: conditions behind a connective, and fields or
the targets of a join behind a comma. A plain `JOIN` must not come behind a side. -/
theorem parse_repeated (p x y : Text) (hx : Keyword.nextHit? (normalize x) 0 = none) :
    (∀ connective : Connective,
      Expression.parse (p ++ " WHERE ".toList ++ x ++ " WHERE ".toList ++ y) =
        Expression.parse (p ++ " WHERE ".toList ++ x ++ setOff connective.spelling ++ y)) ∧
    ∀ keyword : Keyword, keyword = .select ∨ keyword.isJoin = true →
      (keyword = .join → ¬(lastToken? p).any isJoinSide = true ∧
        ¬(lastToken? x).any isJoinSide = true) →
      Expression.parse (p ++ setOff keyword.spelling ++ x ++ setOff keyword.spelling ++ y) =
        Expression.parse (p ++ setOff keyword.spelling ++ x ++ " , ".toList ++ y) := by
  have hplain : Plain Keyword (tokens x) := (nextHit?_normalize_eq_none_iff x).1 hx
  have hwhere : " WHERE ".toList = setOff Keyword.whereCond.spelling := by decide
  have hcomma : " , ".toList = setOff [','] := by decide
  rw [hwhere, hcomma]
  constructor
  · intro connective
    have hapart (t : Text) : Apart Keyword (tokens t) (Mark.tokens Keyword.whereCond) :=
      (apart_tokens_iff _ _).2 (by simp)
    exact parse_repeated_of_parts (hapart p) hplain (hapart x)
      (Condition.isAtom_spelling connective) (Condition.inert_spelling connective)
      (Condition.listOfText_unwords_append connective
        (isAtom_of_plain hplain isToken_of_mem_tokens) (isAtom_of_mem_looseTokens y))
  · intro keyword hkeyword hjoin
    have hparts : keyword.reading.Parts
        (unwords (tokens x ++ [','] :: looseTokens (tokens y))) (unwords (tokens x))
        (unwords (looseTokens (tokens y))) := by
      have hfields := Field.listOfText_unwords_append (tokens x) (looseTokens (tokens y))
      rcases hkeyword with rfl | hkeyword
      · exact hfields
      · rw [eq_of_beq hkeyword]
        exact hfields
    refine parse_repeated_of_parts ?_ hplain ?_ (by decide)
      (inert_of_isGlue rfl (List.mem_singleton_self ',')) hparts
    · exact (apart_tokens_iff _ _).2 fun h => (hjoin h.2).1 h.1
    · exact (apart_tokens_iff _ _).2 fun h => (hjoin h.2).2 h.1

/-- Between the keywords stands nothing, or a list with a comma and a connective. The last token in
front is no side, and neither is that of the list. -/
theorem parse_repeated_values :
    let p := "FROM s LEFT x".toList
    let x : Text := []
    let list := "a.\tb, c OR d".toList
    let y := "u.é, v LIMIT 2".toList
    Keyword.nextHit? (normalize x) 0 = none ∧ ¬(lastToken? p).any isJoinSide = true ∧
      ¬(lastToken? x).any isJoinSide = true ∧
      Expression.parse (p ++ " WHERE ".toList ++ x ++ " WHERE ".toList ++ y) =
        Expression.parse (p ++ " WHERE ".toList ++ x ++ setOff Connective.or.spelling ++ y) ∧
      Expression.parse (p ++ setOff Keyword.join.spelling ++ x ++
          setOff Keyword.join.spelling ++ y) =
        Expression.parse (p ++ setOff Keyword.join.spelling ++ x ++ " , ".toList ++ y) ∧
      Keyword.nextHit? (normalize list) 0 = none ∧ ¬(lastToken? list).any isJoinSide = true ∧
      Expression.parse (p ++ " WHERE ".toList ++ list ++ " WHERE ".toList ++ y) =
        Expression.parse (p ++ " WHERE ".toList ++ list ++ setOff Connective.and.spelling ++ y) ∧
      ∀ keyword ∈ [Keyword.select, .leftJoin, .join],
        Expression.parse (p ++ setOff keyword.spelling ++ list ++ setOff keyword.spelling ++ y) =
          Expression.parse (p ++ setOff keyword.spelling ++ list ++ " , ".toList ++ y) := by
  intro p x list y
  have hx : Keyword.nextHit? (normalize x) 0 = none := by decide
  have hlist : Keyword.nextHit? (normalize list) 0 = none := by decide +kernel
  have hp_side : ¬(lastToken? p).any isJoinSide = true := by decide
  have hx_side : ¬(lastToken? x).any isJoinSide = true := by decide
  have hlist_side : ¬(lastToken? list).any isJoinSide = true := by decide +kernel
  obtain ⟨hwhere, hlink⟩ := parse_repeated p x y hx
  obtain ⟨hlist_where, hlist_link⟩ := parse_repeated p list y hlist
  refine ⟨hx, hp_side, hx_side, hwhere .or, ?_, hlist, hlist_side, hlist_where .and, ?_⟩
  · exact hlink .join (.inr rfl) fun _ => ⟨hp_side, hx_side⟩
  · intro keyword hkeyword
    have hlists : keyword = .select ∨ keyword.isJoin = true := by
      simp only [List.mem_cons, List.not_mem_nil, or_false] at hkeyword
      rcases hkeyword with rfl | rfl | rfl
      · exact .inl rfl
      · exact .inr rfl
      · exact .inr rfl
    exact hlist_link keyword hlists fun _ => ⟨hp_side, hlist_side⟩

/-- Empty entries count on both sides of a link. -/
example : (Expression.parse "JOIN , JOIN u. é,v LIMIT 2".toList).entries =
    [(.join, .fields [.named [], .named [], .aliased ['u'] ['é'], .named ['v']]),
      (.limit, .text ['2'])] := by
  decide +kernel

end SqlClauses
