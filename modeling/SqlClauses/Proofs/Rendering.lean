import SqlClauses.Proofs.Query
import SqlClauses.Rendering

/-!
# Writing phrases: laws

Which phrases a query can have, and that they are read back from the query that is written with
them. A content has to be in normal form and without a keyword, and it must not end in a word that
would make a keyword of two words together with the next `JOIN`; nothing else is asked.

* `nextHit?_eq_none_iff`: a text without a keyword, told from its tokens.
* `isContent_iff`: the contents that clauses can have.
* `endsInJoinSide_iff`, `apart_tokens_iff`: which words draw a keyword to themselves.
* `phrases_renderList`: what is read from a query that phrases are written as.
* `phrases_of_query_iff`: exactly these phrases are those of some query.
-/

namespace SqlClauses

open Text

/-! ## Texts without a keyword -/

/-- No keyword is found in a text that is cut nowhere. -/
theorem nextHit?_zero_eq_none_iff (t : Text) :
    Keyword.nextHit? t 0 = none ↔ (Cut.ofText t : Cut Keyword).pieces = [] := by
  have hseek : Keyword.nextHit? t 0 = none ↔ (seek true t : Option (Found Keyword)) = none := by
    simp [Keyword.nextHit?, Hit.next?, splitFrom, opensAfter]
  rw [hseek, Cut.ofText]
  cases h : (seek true t : Option (Found Keyword)) with
  | none => simp [Cut.scan_of_seek_eq_none h]
  | some found => simp [Cut.scan_of_seek_eq_some h, Cut.pushMark]

/-- A spaced text has no keyword if there is none among its tokens. -/
theorem nextHit?_eq_none_iff {t : Text} (h : Spaced t) :
    Keyword.nextHit? t 0 = none ↔ Plain Keyword (tokens t) := by
  rw [nextHit?_zero_eq_none_iff, ← Sorted.groups_ofTokens_eq_nil_iff isToken_of_mem_tokens,
    ← sorted_ofText (tidy_of_spaced h), Cut.sorted, List.map_eq_nil_iff]

theorem nextHit?_normalize_eq_none_iff (t : Text) :
    Keyword.nextHit? (normalize t) 0 = none ↔ Plain Keyword (tokens t) := by
  rw [nextHit?_eq_none_iff (spaced_normalize t), tokens_normalize]

/-- A text that a clause of a query can have for content: normal, and without a keyword. -/
def IsContent (t : Text) : Prop := isNormal t = true ∧ Plain Keyword (tokens t)

theorem isContent_iff (t : Text) :
    IsContent t ↔ normalize t = t ∧ Keyword.nextHit? t 0 = none := by
  rw [IsContent, normalize_eq_self_iff]
  exact and_congr_right fun h => (nextHit?_eq_none_iff (spaced_of_isNormal h)).symm

theorem IsContent.spaced {t : Text} (h : IsContent t) : Spaced t := spaced_of_isNormal h.1

/-- A content is its tokens with single spaces between them. -/
theorem IsContent.unwords_tokens {t : Text} (h : IsContent t) : unwords (tokens t) = t := by
  rw [tokens_eq_words_of_plain h.2, unwords_words h.1]

/-! ## Words that draw a keyword to themselves -/

theorem isAtom_of_isJoinSide {side : Text} (h : isJoinSide side = true) : IsAtom side := by
  simp only [isJoinSide, Bool.or_eq_true, beq_iff_eq] at h
  rcases h with (rfl | rfl) | rfl <;> decide

/-- The last word between spaces is all of the text, or what follows a space of it. -/
theorem endsInJoinSide_iff (t : Text) :
    endsInJoinSide t = true ↔
      ∃ side, isJoinSide side = true ∧ (t = side ∨ ∃ front, t = front ++ ' ' :: side) := by
  rw [endsInJoinSide, Option.any_eq_true]
  constructor
  · rintro ⟨side, hlast, hside⟩
    obtain ⟨front, hpieces⟩ := List.getLast?_eq_some_iff.1 hlast
    have htext : unwords (front ++ [side]) = t := by
      rw [← hpieces]
      exact List.intercalate_splitOn ' '
    refine ⟨side, hside, ?_⟩
    cases front with
    | nil => exact .inl (by simpa using htext.symm)
    | cons first rest =>
      rw [unwords_append (by simp) (by simp), unwords_singleton] at htext
      exact .inr ⟨_, htext.symm⟩
  · rintro ⟨side, hside, h⟩
    have hspace : ' ' ∉ side := fun hmem => by
      have hbreak := (isAtom_of_isJoinSide hside).2 ' ' hmem
      simp [isBreak, isBlank_space] at hbreak
    refine ⟨side, ?_, hside⟩
    rcases h with rfl | ⟨front, rfl⟩
    · rw [List.splitOn_eq_singleton hspace]
      rfl
    · rw [List.splitOn_append_cons_self, List.splitOn_eq_singleton hspace, List.getLast?_concat]

/-- Such a word is the last token as well. -/
theorem lastToken?_of_endsInJoinSide {t : Text} (h : endsInJoinSide t = true) :
    (lastToken? t).any isJoinSide = true := by
  obtain ⟨side, hside, rfl | ⟨front, rfl⟩⟩ := (endsInJoinSide_iff t).1 h
  · simp [lastToken?, tokens_of_isAtom (isAtom_of_isJoinSide hside), hside]
  · simp [lastToken?, tokens_append_blank _ _ isBlank_space,
      tokens_of_isAtom (isAtom_of_isJoinSide hside), hside]

theorem endsInJoinSide_append_space (front : Text) {t : Text} (h : endsInJoinSide t = true) :
    endsInJoinSide (front ++ ' ' :: t) = true := by
  obtain ⟨side, hside, rfl | ⟨before, rfl⟩⟩ := (endsInJoinSide_iff t).1 h
  · exact (endsInJoinSide_iff _).2 ⟨_, hside, .inr ⟨front, rfl⟩⟩
  · exact (endsInJoinSide_iff _).2 ⟨_, hside, .inr ⟨front ++ ' ' :: before, by simp⟩⟩

theorem endsInJoinSide_unwords {ws : List Text} (h : ws.getLast?.any isJoinSide = true) :
    endsInJoinSide (unwords ws) = true := by
  obtain ⟨side, hlast, hside⟩ := (Option.any_eq_true ..).1 h
  obtain ⟨front, rfl⟩ := List.getLast?_eq_some_iff.1 hlast
  refine (endsInJoinSide_iff _).2 ⟨side, hside, ?_⟩
  cases front with
  | nil => exact .inl (unwords_singleton side)
  | cons first rest =>
    rw [unwords_append (by simp) (by simp), unwords_singleton]
    exact .inr ⟨_, rfl⟩

/-- In a content the last token is the last word between spaces. -/
theorem IsContent.endsInJoinSide {t : Text} (h : IsContent t)
    (hlast : (lastToken? t).any isJoinSide = true) : endsInJoinSide t = true := by
  rw [← h.unwords_tokens]
  exact endsInJoinSide_unwords hlast

/-- Only a side and `JOIN` make up a keyword where one phrase ends and the next begins. -/
theorem eq_join_of_suffix (mark keyword : Keyword) :
    ∀ next ∈ (Mark.tokens keyword).head?, ' ' :: next <:+ mark.spelling →
      keyword = .join ∧ ∃ side, isJoinSide side = true ∧ mark.spelling = side ++ ' ' :: next := by
  have hjoin : (Mark.tokens Keyword.join).head? = some "JOIN".toList := by decide
  intro next hnext hsuffix
  by_cases hkeyword : keyword = .join
  · subst hkeyword
    obtain rfl : "JOIN".toList = next := Option.some.inj (hjoin.symm.trans hnext)
    refine ⟨rfl, ?_⟩
    cases mark with
    | leftJoin => exact ⟨"LEFT".toList, by decide, rfl⟩
    | rightJoin => exact ⟨"RIGHT".toList, by decide, rfl⟩
    | innerJoin => exact ⟨"INNER".toList, by decide, rfl⟩
    | _ => exact absurd hsuffix (by decide)
  · have hnone : (Mark.tokens keyword).head?.all
        (fun next => !(' ' :: next).isSuffixOf mark.spelling) = true := by
      revert hkeyword
      cases keyword <;> cases mark <;> decide
    rw [Option.mem_def.1 hnext, Option.all_some, List.isSuffixOf_iff_suffix.2 hsuffix] at hnone
    contradiction

/-- A keyword can follow tokens as it is, unless it is `JOIN` and the last of them is a side. -/
theorem apart_tokens_iff (front : List Text) (keyword : Keyword) :
    Apart Keyword front (Mark.tokens keyword) ↔
      ¬(front.getLast?.any isJoinSide = true ∧ keyword = .join) := by
  constructor
  · rintro h ⟨hlast, rfl⟩
    obtain ⟨side, hlast, hside⟩ := (Option.any_eq_true ..).1 hlast
    have hnone := h side hlast "JOIN".toList (by decide)
    simp only [isJoinSide, Bool.or_eq_true, beq_iff_eq] at hside
    rcases hside with (rfl | rfl) | rfl
    · exact absurd hnone (by decide)
    · exact absurd hnone (by decide)
    · exact absurd hnone (by decide)
  · intro h last hlast next hnext
    refine ofSpelling?_eq_none_iff.2 fun mark hspelling => h ?_
    have hsuffix : ' ' :: next <:+ Keyword.spelling mark := ⟨last, hspelling.symm⟩
    obtain ⟨rfl, side, hside, hmark⟩ := eq_join_of_suffix mark keyword next hnext hsuffix
    obtain rfl : side = last := List.append_cancel_right (hmark.symm.trans hspelling)
    exact ⟨(Option.any_eq_true ..).2 ⟨side, hlast, hside⟩, rfl⟩

/-! ## Phrases as groups of tokens -/

namespace Phrase

/-- A phrase with its content as tokens. -/
def group (phrase : Phrase) : Keyword × List Text := (phrase.keyword, tokens phrase.content)

theorem tokens_render (phrase : Phrase) :
    tokens phrase.render = Mark.tokens phrase.keyword ++ tokens phrase.content :=
  tokens_append_blank _ _ isBlank_space

theorem tokens_renderList (phrases : List Phrase) :
    tokens (renderList phrases) = Sorted.tokens ⟨[], phrases.map group⟩ := by
  rw [renderList, tokens_unwords, Sorted.tokens, List.nil_append, List.flatMap_map,
    List.flatMap_map]
  exact List.flatMap_congr fun phrase _ => tokens_render phrase

/-- Phrases that keep apart are settled once their contents are written out. -/
theorem settledFrom_of_keepApart {phrase : Phrase} {phrases : List Phrase}
    (hplain : ∀ p ∈ phrase :: phrases, Plain Keyword (tokens p.content))
    (hside : ∀ p ∈ phrase :: phrases, (lastToken? p.content).any isJoinSide = true →
      endsInJoinSide p.content = true)
    (h : KeepApart (phrase :: phrases)) :
    Sorted.SettledFrom (tokens phrase.content) (phrases.map group) := by
  induction phrases generalizing phrase with
  | nil => exact hplain phrase (by simp)
  | cons next phrases ih =>
    obtain ⟨happart, hrest⟩ := h
    refine ⟨hplain phrase (by simp), ?_, ?_⟩
    · exact (apart_tokens_iff _ _).2 fun ⟨hlast, hjoin⟩ =>
        happart ⟨hside phrase (by simp) hlast, hjoin⟩
    · exact ih (fun p hp => hplain p (by simp [hp])) (fun p hp => hside p (by simp [hp])) hrest

/-- Settled phrases keep apart. -/
theorem keepApart_of_settledFrom {phrase : Phrase} {phrases : List Phrase}
    (h : Sorted.SettledFrom (tokens phrase.content) (phrases.map group)) :
    KeepApart (phrase :: phrases) := by
  induction phrases generalizing phrase with
  | nil => trivial
  | cons next phrases ih =>
    obtain ⟨-, happart, hrest⟩ := h
    exact ⟨fun ⟨hends, hjoin⟩ =>
      (apart_tokens_iff _ _).1 happart ⟨lastToken?_of_endsInJoinSide hends, hjoin⟩, ih hrest⟩

end Phrase

/-! ## Reading back -/

/-- Phrases that are written as a query are read back with the blanks of their contents put
right. -/
theorem phrases_renderList {phrases : List Phrase}
    (hplain : ∀ p ∈ phrases, Plain Keyword (tokens p.content))
    (hside : ∀ p ∈ phrases, (lastToken? p.content).any isJoinSide = true →
      endsInJoinSide p.content = true)
    (h : KeepApart phrases) :
    (Clause.listOfQuery (Phrase.renderList phrases)).map Clause.toPhrase =
      phrases.map fun p => ⟨p.keyword, unwords (tokens p.content)⟩ := by
  have hsettled : (⟨[], phrases.map Phrase.group⟩ : Sorted Keyword).Settled := by
    cases phrases with
    | nil => exact plain_nil
    | cons phrase phrases =>
      exact ⟨plain_nil, by simp [Apart], Phrase.settledFrom_of_keepApart hplain hside h⟩
  rw [phrases_listOfQuery, Phrase.tokens_renderList, Phrase.listOfTokens,
    Sorted.ofTokens_tokens hsettled, List.map_map]
  rfl

/-- The phrases of tokens have the tokens of the groups for contents. -/
theorem map_group_listOfTokens {ts : List Text} (h : ∀ token ∈ ts, IsToken token) :
    (Phrase.listOfTokens ts).map Phrase.group = (Sorted.ofTokens ts : Sorted Keyword).groups := by
  rw [← Sorted.tokens_ofTokens (κ := Keyword) h] at h
  rw [Phrase.listOfTokens, List.map_map]
  refine map_eq_self fun group hgroup => ?_
  have htokens := tokens_unwords_of_isToken (Sorted.isToken_of_mem_groups h group hgroup)
  simp [Phrase.group, htokens]

/-- What tokens are sorted under a keyword makes a content. -/
theorem isContent_of_mem_listOfTokens {ts : List Text} (h : ∀ token ∈ ts, IsToken token) :
    ∀ phrase ∈ Phrase.listOfTokens ts, IsContent phrase.content := by
  intro phrase hphrase
  have hsettled : (Sorted.ofTokens ts : Sorted Keyword).Settled := Sorted.settled_ofTokens h
  have hplain : Plain Keyword (tokens phrase.content) := by
    refine Sorted.plain_of_mem_groups hsettled phrase.group ?_
    rw [← map_group_listOfTokens h]
    exact List.mem_map_of_mem hphrase
  obtain ⟨group, hgroup, rfl⟩ := List.mem_map.1 hphrase
  rw [← Sorted.tokens_ofTokens (κ := Keyword) h] at h
  have hwords : ∀ word ∈ group.2, IsWord word := fun word hword =>
    (Sorted.isToken_of_mem_groups h group hgroup word hword).isWord
  exact ⟨isNormal_unwords hwords, hplain⟩

theorem keepApart_listOfTokens {ts : List Text} (h : ∀ token ∈ ts, IsToken token) :
    KeepApart (Phrase.listOfTokens ts) := by
  have hsettled : Sorted.SettledFrom _ (Sorted.ofTokens ts : Sorted Keyword).groups :=
    Sorted.settled_ofTokens h
  rw [← map_group_listOfTokens h] at hsettled
  cases hphrases : Phrase.listOfTokens ts with
  | nil => trivial
  | cons phrase phrases =>
    rw [hphrases] at hsettled
    exact Phrase.keepApart_of_settledFrom hsettled.2.2

/-- Exactly those phrases are the clauses of some query whose contents are normal texts without a
keyword and that keep apart, and they are the clauses of the query that they are written as. -/
theorem phrases_of_query_iff (phrases : List Phrase) :
    ((∃ sql, (Clause.listOfQuery sql).map Clause.toPhrase = phrases) ↔
      (∀ phrase ∈ phrases, normalize phrase.content = phrase.content ∧
        Keyword.nextHit? phrase.content 0 = none) ∧ KeepApart phrases) ∧
    ((∀ phrase ∈ phrases, normalize phrase.content = phrase.content ∧
        Keyword.nextHit? phrase.content 0 = none) → KeepApart phrases →
      (Clause.listOfQuery (Phrase.renderList phrases)).map Clause.toPhrase = phrases) := by
  simp only [← isContent_iff]
  have hback (hphrases : ∀ phrase ∈ phrases, IsContent phrase.content)
      (hkeep : KeepApart phrases) :
      (Clause.listOfQuery (Phrase.renderList phrases)).map Clause.toPhrase = phrases := by
    rw [phrases_renderList (fun p hp => (hphrases p hp).2)
      (fun p hp => (hphrases p hp).endsInJoinSide) hkeep]
    refine map_eq_self fun phrase hphrase => ?_
    rw [(hphrases phrase hphrase).unwords_tokens]
  refine ⟨⟨?_, fun ⟨hphrases, hkeep⟩ => ⟨_, hback hphrases hkeep⟩⟩, hback⟩
  rintro ⟨sql, rfl⟩
  rw [phrases_listOfQuery]
  exact ⟨isContent_of_mem_listOfTokens isToken_of_mem_tokens,
    keepApart_listOfTokens isToken_of_mem_tokens⟩

/-- A side that is followed by another keyword than `JOIN`, and contents that are empty. -/
theorem phrases_of_query_values :
    let phrases : List Phrase := [⟨.select, "a, b".toList⟩, ⟨.innerJoin, "t LEFT".toList⟩,
      ⟨.openParen, []⟩, ⟨.join, "été.u".toList⟩, ⟨.closeParen, []⟩]
    ((∀ phrase ∈ phrases, normalize phrase.content = phrase.content ∧
      Keyword.nextHit? phrase.content 0 = none) ∧ KeepApart phrases) ∧
    (Clause.listOfQuery (Phrase.renderList phrases)).map Clause.toPhrase = phrases := by
  intro phrases
  have hcontents : ∀ phrase ∈ phrases, normalize phrase.content = phrase.content ∧
      Keyword.nextHit? phrase.content 0 = none := by decide
  have hkeep : KeepApart phrases := by decide
  exact ⟨⟨hcontents, hkeep⟩, (phrases_of_query_iff phrases).2 hcontents hkeep⟩

end SqlClauses
