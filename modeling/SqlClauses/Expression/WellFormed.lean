import SqlClauses.Expression
import SqlClauses.Text.Words

/-!
# Well-formed values

What can be relied on in a value that was read from a query. Its kind is the one that its keyword
prescribes, a list of it has an entry, and its texts are in normal form and without parentheses. A
text that is kept as it stands has no keyword, nor has a condition, which moreover is cut no
further.
-/

namespace SqlClauses

/-- A text in normal form without a parenthesis. -/
def Text.Bare (t : Text) : Prop := normalize t = t ∧ '(' ∉ t ∧ ')' ∉ t

instance (t : Text) : Decidable t.Bare :=
  inferInstanceAs (Decidable (Text.normalize t = t ∧ '(' ∉ t ∧ ')' ∉ t))

/-- The texts that a value is made of. -/
def Value.texts : Value → List Text
  | text words => [words]
  | fields entries => entries.flatMap Field.texts
  | conditions parts => parts

/-- A value as it can stand under a keyword whose content is read in this way. -/
def Value.WellFormed (reading : Reading) (value : Value) : Prop :=
  (∀ text ∈ value.texts, text.Bare) ∧
    match reading, value with
    | .verbatim, text words => Keyword.nextHit? words 0 = none
    | .fields, fields entries | .join, fields entries =>
      entries ≠ [] ∧ ∀ field ∈ entries, field.Canonical
    | .conditions, conditions parts =>
      parts ≠ [] ∧ ∀ part ∈ parts,
        Keyword.nextHit? part 0 = none ∧ Condition.listOfText part = [part]
    | _, _ => False

instance (reading : Reading) (value : Value) : Decidable (value.WellFormed reading) := by
  unfold Value.WellFormed
  cases reading <;> cases value <;> infer_instance

end SqlClauses
