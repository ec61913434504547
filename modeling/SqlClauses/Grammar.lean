import SqlClauses.Clause
import SqlClauses.Text.Tokens

/-!
# Queries as tokens

A query read token by token. Two tokens that are together a keyword of two words open a phrase, and
so does one token that is a keyword. Any other token belongs to the phrase that was opened last, and
to none before the first.

The reading is defined over any marks, as is the cutting of a text, so that it serves conditions as
well, which have words between them in place of keywords.
-/

namespace SqlClauses

variable {κ : Type} [Mark κ]

/-- The mark with exactly this spelling. -/
def Mark.ofSpelling? (text : Text) : Option κ :=
  Mark.candidates.find? fun mark => Mark.spelling mark == text

/-- Tokens sorted under the marks that they follow. -/
structure Sorted (κ : Type) where
  /-- The tokens before the first mark. -/
  loose : List Text
  /-- The marks, each with the tokens behind it. -/
  groups : List (κ × List Text)
  deriving DecidableEq, Repr

namespace Sorted

/-- Puts a token in front. -/
def push (token : Text) (sorted : Sorted κ) : Sorted κ :=
  { sorted with loose := token :: sorted.loose }

/-- Puts a mark in front, which takes the loose tokens. -/
def pushMark (mark : κ) (sorted : Sorted κ) : Sorted κ :=
  ⟨[], (mark, sorted.loose) :: sorted.groups⟩

/-- Sorts tokens, reading from the left. -/
def ofTokens : List Text → Sorted κ
  | [] => ⟨[], []⟩
  | [token] =>
    match Mark.ofSpelling? token with
    | some mark => pushMark mark ⟨[], []⟩
    | none => ⟨[token], []⟩
  | first :: second :: rest =>
    match Mark.ofSpelling? (first ++ ' ' :: second) with
    | some mark => pushMark mark (ofTokens rest)
    | none =>
      match Mark.ofSpelling? first with
      | some mark => pushMark mark (ofTokens (second :: rest))
      | none => push first (ofTokens (second :: rest))

end Sorted

/-- The phrases of a list of tokens. -/
def Phrase.listOfTokens (tokens : List Text) : List Phrase :=
  (Sorted.ofTokens tokens).groups.map fun (keyword, words) => ⟨keyword, Text.unwords words⟩

end SqlClauses
