import SqlClauses.Cut
import SqlClauses.Text.Blank

/-!
# Conditions

The content of a condition clause is cut at the words that link conditions. Each condition is kept
as its text.
-/

namespace SqlClauses

/-- A word that links two conditions. -/
inductive Connective where
  /-- Both conditions have to hold. -/
  | and
  /-- One of the conditions has to hold. -/
  | or
  deriving DecidableEq, Repr

namespace Connective

/-- How a connective is written. -/
def spelling : Connective → Text
  | and => "AND".toList
  | or => "OR".toList

theorem spelling_ne_nil (connective : Connective) : connective.spelling ≠ [] := by
  cases connective <;> decide

/-- A text is cut at its connectives. -/
instance : Mark Connective where
  candidates := [and, or]
  spelling := spelling
  isWord := fun _ => true
  spelling_ne_nil := spelling_ne_nil

end Connective

/-- A condition is kept as its text. -/
abbrev Condition := Text

/-- The conditions between connectives, without the blanks at their ends. Empty ones are kept. -/
def Condition.listOfText (content : Text) : List Condition :=
  (Cut.ofText content : Cut Connective).gaps.map Text.trim

end SqlClauses
