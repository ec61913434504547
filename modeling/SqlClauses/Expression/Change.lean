import SqlClauses.Expression

/-!
# Changes of an expression

The ways to give a keyword a value, as data. `Change.value?` says what a keyword's value is after
any number of changes, without carrying them out.
-/

namespace SqlClauses

/-- A way to give a keyword a value. -/
inductive Change where
  /-- Sets a text. -/
  | setText (keyword : Keyword) (words : Text)
  /-- Adds fields. -/
  | addFields (keyword : Keyword) (fields : List Field)
  /-- Adds conditions. -/
  | addConditions (keyword : Keyword) (conditions : List Condition)
  deriving DecidableEq, Repr

namespace Change

/-- The keyword that is given a value. -/
def keyword : Change → Keyword
  | setText keyword _ | addFields keyword _ | addConditions keyword _ => keyword

/-- The fields that are added, if the change adds fields. -/
def fields? : Change → Option (List Field)
  | addFields _ fields => some fields
  | _ => none

/-- The conditions that are added, if the change adds conditions. -/
def conditions? : Change → Option (List Condition)
  | addConditions _ conditions => some conditions
  | _ => none

/-- Carries out a change. -/
def apply (expression : Expression) : Change → Expression
  | setText keyword words => expression.setText keyword words
  | addFields keyword fields => expression.addFields keyword fields
  | addConditions keyword conditions => expression.addConditions keyword conditions

/-- Carries out changes in order. -/
def applyAll (expression : Expression) (changes : List Change) : Expression :=
  changes.foldl apply expression

/-- The lists that the last changes add, from the last change back to the first that is of another
kind, in order. -/
def trailing {α : Type} (added? : Change → Option (List α)) (changes : List Change) : List α :=
  let last := (changes.reverse.takeWhile fun change => (added? change).isSome).reverse
  (last.filterMap added?).flatten

/-- What changes leave as the value of a keyword that had none. The last change for the keyword says
of which kind the value is; a list holds what the changes of that kind add that no other change for
the keyword follows. -/
def value? (keyword : Keyword) (changes : List Change) : Option Value :=
  let own := changes.filter fun change => change.keyword == keyword
  own.getLast?.map fun
    | setText _ words => .text words
    | addFields _ _ => .fields (trailing fields? own)
    | addConditions _ _ => .conditions (trailing conditions? own)

end Change

end SqlClauses
