import SqlClauses.Proofs.Segmentation

/-!
# Clauses of a query and its tokens

The clauses of a query are those that its tokens say, read one by one from the left. White space
says nothing beyond where tokens end, so two queries with the same tokens mean the same.

* `normalized_listOfText`, `phrases_listOfText`: the clauses of a text that is tidy, or spaced like a
  normal one.
* `query_read_by_tokens`: the clauses of any query, and which white space is free.
-/

namespace SqlClauses

open Text

/-! ## The pieces of a cut -/

namespace Cut

variable {κ : Type}

/-- What follows a mark is a piece of the text. -/
theorem tail_isInfix [Mark κ] {cut : Cut κ} {piece : Piece κ} (h : piece ∈ cut.pieces) :
    piece.tail <:+: cut.text := by
  obtain ⟨before, behind, hpieces⟩ := List.append_of_mem h
  refine ⟨cut.lead ++ (before.flatMap fun p => Mark.spelling p.mark ++ p.tail) ++
    Mark.spelling piece.mark, behind.flatMap fun p => Mark.spelling p.mark ++ p.tail, ?_⟩
  simp [text, hpieces]

end Cut

theorem map_toPhrase_listOfText (text : Text) :
    (Clause.listOfText text).map Clause.toPhrase =
      (Cut.ofText text : Cut Keyword).pieces.map fun piece => ⟨piece.mark, trim piece.tail⟩ := by
  rw [Clause.listOfText, List.map_map]
  exact Cut.map_locate (fun keyword tail => (⟨keyword, trim tail⟩ : Phrase)) _ _

/-! ## Tokens without a keyword -/

/-- Both parentheses are keywords, so tokens without a keyword are atoms. -/
theorem isAtom_of_plain {tokens : List Text} (hplain : Plain Keyword tokens)
    (h : ∀ token ∈ tokens, IsToken token) : ∀ token ∈ tokens, IsAtom token := by
  intro token hmem
  rcases h token hmem with hatom | ⟨c, hc, rfl⟩
  · exact hatom
  · have hnone := hplain.1 [c] hmem
    rcases eq_or_eq_of_isParen hc with rfl | rfl
    · exact absurd hnone (by decide)
    · exact absurd hnone (by decide)

theorem tokens_eq_words_of_plain {t : Text} (h : Plain Keyword (tokens t)) :
    tokens t = words t :=
  tokens_eq_words (isParen_eq_false_of_isAtom (isAtom_of_plain h isToken_of_mem_tokens))

/-! ## Phrases -/

/-- A phrase with its content in normal form. -/
def Phrase.normalized (phrase : Phrase) : Phrase :=
  { phrase with content := normalize phrase.content }

/-- What follows a keyword of a tidy text has no keyword among its tokens. -/
theorem plain_tokens_tail {text : Text} (h : Tidy Keyword text) {piece : Piece Keyword}
    (hpiece : piece ∈ (Cut.ofText text : Cut Keyword).pieces) :
    Plain Keyword (tokens piece.tail) := by
  have hsettled : ((Cut.ofText text : Cut Keyword).sorted).Settled := by
    rw [sorted_ofText h]
    exact Sorted.settled_ofTokens isToken_of_mem_tokens
  exact Sorted.plain_of_mem_groups hsettled (piece.mark, tokens piece.tail)
    (List.mem_map.2 ⟨piece, hpiece, rfl⟩)

/-- The clauses of a tidy text are the phrases of its tokens, but for the white space in them. -/
theorem normalized_listOfText {text : Text} (h : Tidy Keyword text) :
    ((Clause.listOfText text).map Clause.toPhrase).map Phrase.normalized =
      Phrase.listOfTokens (tokens text) := by
  rw [map_toPhrase_listOfText, Phrase.listOfTokens, ← sorted_ofText h, Cut.sorted, List.map_map,
    List.map_map]
  refine List.map_congr_left fun piece hpiece => ?_
  have hcontent : normalize (trim piece.tail) = unwords (tokens piece.tail) := by
    rw [normalize_eq, words_trim, tokens_eq_words_of_plain (plain_tokens_tail h hpiece)]
  exact congrArg (Phrase.mk piece.mark) hcontent

/-- The clauses of a spaced text are the phrases of its tokens as they are. -/
theorem phrases_listOfText {text : Text} (h : Spaced text) :
    (Clause.listOfText text).map Clause.toPhrase = Phrase.listOfTokens (tokens text) := by
  rw [← normalized_listOfText (tidy_of_spaced h), map_toPhrase_listOfText, List.map_map]
  refine List.map_congr_left fun piece hpiece => ?_
  have hwithin : piece.tail <:+: text := by
    have := Cut.tail_isInfix hpiece
    rwa [Cut.text_ofText] at this
  have hcontent : normalize (trim piece.tail) = trim piece.tail :=
    (normalize_eq_self_iff _).2 (isNormal_trim (h.of_isInfix hwithin))
  exact congrArg (Phrase.mk piece.mark) hcontent.symm

/-- The clauses of a query are the phrases of its tokens. -/
theorem phrases_listOfQuery (sql : Text) :
    (Clause.listOfQuery sql).map Clause.toPhrase = Phrase.listOfTokens (tokens sql) := by
  rw [Clause.listOfQuery, phrases_listOfText (spaced_normalize sql), tokens_normalize]

theorem parse_eq_recordAll_listOfTokens (sql : Text) :
    Expression.parse sql = Expression.empty.recordAll (Phrase.listOfTokens (tokens sql)) := by
  rw [Expression.parse, phrases_listOfQuery]

theorem parse_eq_of_tokens_eq {a b : Text} (h : tokens a = tokens b) :
    Expression.parse a = Expression.parse b := by
  rw [parse_eq_recordAll_listOfTokens, parse_eq_recordAll_listOfTokens, h]

/-- A query is read by its tokens alone. Its clauses are the phrases of its tokens, and its
expression is one for all queries with these tokens. Any white space between two words will do, and
none is needed beside a parenthesis. -/
theorem query_read_by_tokens (sql : Text) :
    (Clause.listOfQuery sql).map Clause.toPhrase = Phrase.listOfTokens (tokens sql) ∧
    (∀ other, tokens other = tokens sql → Expression.parse other = Expression.parse sql) ∧
    (∀ front gap gap' back : Text, sql = front ++ gap ++ back →
      gap ≠ [] → (∀ c ∈ gap, isBlank c = true) → gap' ≠ [] → (∀ c ∈ gap', isBlank c = true) →
      Expression.parse (front ++ gap' ++ back) = Expression.parse sql) ∧
    (∀ (front gap back : Text) (c : Char), sql = front ++ c :: back →
      isParen c = true → (∀ d ∈ gap, isBlank d = true) →
      Expression.parse (front ++ gap ++ c :: back) = Expression.parse sql ∧
        Expression.parse (front ++ c :: (gap ++ back)) = Expression.parse sql) := by
  refine ⟨phrases_listOfQuery sql, fun other h => parse_eq_of_tokens_eq h, ?_, ?_⟩
  · rintro front gap gap' back rfl hne hgap hne' hgap'
    apply parse_eq_of_tokens_eq
    rw [tokens_append_gap hne hgap, tokens_append_gap hne' hgap']
  · rintro front gap back c rfl hc hgap
    constructor
    · apply parse_eq_of_tokens_eq
      rw [tokens_append_paren _ _ hc, tokens_append_paren _ _ hc, tokens_append_blanks hgap]
    · apply parse_eq_of_tokens_eq
      rw [tokens_append_paren _ _ hc, tokens_append_paren _ _ hc, tokens_blanks_append hgap]

/-- A line end and tabs between two words, and no space beside a parenthesis. -/
theorem query_read_by_tokens_values :
    Expression.parse "INSERT t\n\tVALUES (1, 2)".toList =
        Expression.parse "INSERT t VALUES (1, 2)".toList ∧
      Expression.parse "INSERT t VALUES \t(1, 2)".toList =
        Expression.parse "INSERT t VALUES (1, 2)".toList ∧
      tokens "INSERT t VALUES(1, 2)".toList = tokens "INSERT t VALUES (1, 2)".toList ∧
      Expression.parse "INSERT t VALUES(1, 2)".toList =
        Expression.parse "INSERT t VALUES (1, 2)".toList := by
  obtain ⟨-, hsame, hgap, hparen⟩ := query_read_by_tokens "INSERT t VALUES (1, 2)".toList
  have htokens :
      tokens "INSERT t VALUES(1, 2)".toList = tokens "INSERT t VALUES (1, 2)".toList := by
    decide
  refine ⟨?_, ?_, htokens, hsame _ htokens⟩
  · exact hgap "INSERT t".toList [' '] ['\n', '\t'] "VALUES (1, 2)".toList (by decide) (by decide)
      (List.all_eq_true.1 (by decide)) (by decide) (List.all_eq_true.1 (by decide))
  · exact (hparen "INSERT t VALUES ".toList ['\t'] "1, 2)".toList '(' (by decide) (by decide)
      (List.all_eq_true.1 (by decide))).1

end SqlClauses
