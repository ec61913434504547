import SqlClauses.Clause
import SqlClauses.Expression
import SqlClauses.Text.Words

/-!
# Writing a query

Phrases and expressions written out as a query. A query that is written so can be read again if no
content ends in a word that would draw a following `JOIN` to itself: `LEFT`, `RIGHT` and `INNER` are
such words.
-/

namespace SqlClauses

/-! ## Phrases -/

/-- A phrase as part of a query. -/
def Phrase.render (phrase : Phrase) : Text := phrase.keyword.spelling ++ ' ' :: phrase.content

/-- Phrases as a query. -/
def Phrase.renderList (phrases : List Phrase) : Text := Text.unwords (phrases.map Phrase.render)

/-- A word that makes a keyword of two words together with a following `JOIN`. -/
def isJoinSide (word : Text) : Bool :=
  word == "LEFT".toList || word == "RIGHT".toList || word == "INNER".toList

/-- A text whose last word, between spaces, would draw a following `JOIN` to itself. -/
def endsInJoinSide (text : Text) : Bool := (text.splitOn ' ').getLast?.any isJoinSide

/-- No content of a phrase draws the keyword of the next one to itself. -/
def KeepApart : List Phrase → Prop
  | first :: second :: rest =>
    ¬(endsInJoinSide first.content = true ∧ second.keyword = .join) ∧ KeepApart (second :: rest)
  | _ => True

instance KeepApart.decidable : (phrases : List Phrase) → Decidable (KeepApart phrases)
  | [] => isTrue trivial
  | [_] => isTrue trivial
  | first :: second :: rest =>
    have := KeepApart.decidable (second :: rest)
    inferInstanceAs (Decidable (¬(endsInJoinSide first.content = true ∧ second.keyword = .join) ∧
      KeepApart (second :: rest)))

/-! ## Expressions -/

/-- A value as the content of a phrase: fields with commas between them, and conditions with `AND`
between them. -/
def Value.render : Value → Text
  | text words => words
  | fields entries => [','].intercalate (entries.map Field.display)
  | conditions parts => " AND ".toList.intercalate parts

/-- What an expression says, as one phrase for each keyword. -/
def Expression.phrases (expression : Expression) : List Phrase :=
  expression.entries.map fun (keyword, value) => ⟨keyword, value.render⟩

/-- An expression as a query. -/
def Expression.render (expression : Expression) : Text := Phrase.renderList expression.phrases

end SqlClauses
