import SqlClauses.Text.Blank

/-!
# Fields

A field is an entry of a column list or the target of a join: a name, or an alias and a name with a
dot between them. A token with more dots is no field; it is kept as it is and has a diagnostic.
-/

namespace SqlClauses

/-- An entry of a column list. -/
inductive Field where
  /-- A bare name. -/
  | named (name : Text)
  /-- A name with its qualifier. -/
  | aliased (qualifier name : Text)
  /-- A token with more than one dot. -/
  | malformed (token : Text)
  deriving DecidableEq, Repr

namespace Field

/-- Reads one token. -/
def ofToken (token : Text) : Field :=
  let token := Text.trim token
  match token.splitOn '.' with
  | [] | [_] => named token
  | [qualifier, name] => aliased (Text.trim qualifier) (Text.trim name)
  | _ => malformed token

/-- Reads the entries between commas. Empty entries are kept. -/
def listOfText (content : Text) : List Field := (content.splitOn ',').map ofToken

/-- Reads the targets of a join, by the rules of a column list. A condition behind the table stays
part of its entry. -/
def joinListOfText (content : Text) : List Field := listOfText content

/-- Whether the entry is no field. -/
def isMalformed : Field → Bool
  | malformed _ => true
  | _ => false

/-- How a field is written in a query. -/
def display : Field → Text
  | named name => name
  | aliased qualifier name => qualifier ++ '.' :: name
  | malformed token => token

/-- What is wrong with a token that has more than one dot. -/
def diagnostic (token : Text) : Text :=
  "invalid value (".toList ++ token ++
    "): a field may carry only one alias, e.g. `table`.`field`".toList

/-- What is wrong with an entry, if anything. -/
def diagnostic? : Field → Option Text
  | malformed token => some (diagnostic token)
  | _ => none

/-! ## Canonical fields -/

/-- The texts that a field is made of. -/
def texts : Field → List Text
  | named name => [name]
  | aliased qualifier name => [qualifier, name]
  | malformed token => [token]

/-- A field that is read back from its display: no text of it has blanks at its ends or a comma, a
malformed token has two dots or more, and the texts of the other fields have none. -/
def Canonical (field : Field) : Prop :=
  (∀ text ∈ field.texts, Text.trim text = text ∧ ',' ∉ text) ∧
    match field with
    | named name => '.' ∉ name
    | aliased qualifier name => '.' ∉ qualifier ∧ '.' ∉ name
    | malformed token => 2 ≤ token.count '.'

instance (field : Field) : Decidable field.Canonical := by
  unfold Canonical
  cases field <;> infer_instance

end Field

end SqlClauses
