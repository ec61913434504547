import SqlClauses.Clause
import SqlClauses.Condition
import SqlClauses.Field

/-!
# Expressions

An expression is what a query says, keyword by keyword. Each keyword has at most one value, and the
keywords stand in the order in which they were first given one. Giving a keyword a value again
changes it where it stands: a text is replaced, a list is added to a list of its kind.
-/

namespace SqlClauses

/-- What the clauses of one keyword say. -/
inductive Value where
  /-- A text as it stands. -/
  | text (words : Text)
  /-- A list of fields. -/
  | fields (entries : List Field)
  /-- A list of conditions. -/
  | conditions (parts : List Condition)
  deriving DecidableEq, Repr

namespace Value

/-- The text of a value that is one. -/
def text? : Value → Option Text
  | text words => some words
  | _ => none

/-- The entries of a list of fields. -/
def fields? : Value → Option (List Field)
  | fields entries => some entries
  | _ => none

/-- The entries of a list of conditions. -/
def conditions? : Value → Option (List Condition)
  | conditions parts => some parts
  | _ => none

end Value

/-- Adds a list behind an existing one. A missing list counts as an empty one. -/
def extend {α : Type} (existing : Option (List α)) (added : List α) : List α :=
  existing.getD [] ++ added

/-! ## Entries -/

/-- A keyword with its value. -/
abbrev Entry := Keyword × Value

namespace Entry

/-- Changes the value of a keyword where it stands, or adds one at the end. -/
def alter (keyword : Keyword) (change : Option Value → Value) :
    List Entry → List Entry
  | [] => [(keyword, change none)]
  | entry :: rest =>
    if entry.1 = keyword then (keyword, change (some entry.2)) :: rest
    else entry :: alter keyword change rest

/-- A keyword keeps its place; a new one goes to the end. -/
theorem keywords_alter (keyword : Keyword) (change : Option Value → Value)
    (entries : List Entry) :
    (alter keyword change entries).map Prod.fst =
      if keyword ∈ entries.map Prod.fst then entries.map Prod.fst
      else entries.map Prod.fst ++ [keyword] := by
  induction entries with
  | nil => rfl
  | cons entry rest ih =>
    by_cases h : entry.1 = keyword
    · simp [alter, h]
    · simp only [alter, h, if_false, List.map_cons, ih, List.mem_cons, Ne.symm h, false_or]
      split <;> rfl

theorem nodup_keywords_alter (keyword : Keyword) (change : Option Value → Value)
    {entries : List Entry} (h : (entries.map Prod.fst).Nodup) :
    ((alter keyword change entries).map Prod.fst).Nodup := by
  rw [keywords_alter]
  split
  · exact h
  · next hn =>
    rw [List.nodup_append]
    refine ⟨h, by simp, ?_⟩
    intro a ha b hb
    rw [List.mem_singleton] at hb
    rintro rfl
    exact hn (hb ▸ ha)

end Entry

/-! ## Expressions -/

/-- What a query says: its keywords in the order in which they first occur, with their values. -/
structure Expression where
  entries : List Entry
  /-- No keyword has two values. -/
  nodup : (entries.map Prod.fst).Nodup
  deriving DecidableEq

namespace Expression

/-- The expression that says nothing. -/
def empty : Expression := ⟨[], .nil⟩

/-- Changes the value of a keyword where it stands, or adds one at the end. -/
def alter (expression : Expression) (keyword : Keyword)
    (change : Option Value → Value) : Expression :=
  ⟨Entry.alter keyword change expression.entries,
    Entry.nodup_keywords_alter keyword change expression.nodup⟩

/-! ### Building -/

/-- Gives a keyword a text, in place of any value. -/
def setText (expression : Expression) (keyword : Keyword) (text : Text) : Expression :=
  expression.alter keyword fun _ => .text text

/-- Adds fields to those of a keyword. A value of another kind is replaced. -/
def addFields (expression : Expression) (keyword : Keyword) (fields : List Field) : Expression :=
  expression.alter keyword fun value => .fields (extend (value.bind Value.fields?) fields)

/-- Adds conditions to those of a keyword. A value of another kind is replaced. -/
def addConditions (expression : Expression) (keyword : Keyword) (conditions : List Condition) :
    Expression :=
  expression.alter keyword fun value =>
    .conditions (extend (value.bind Value.conditions?) conditions)

/-- Adds what a phrase says, its content read as its keyword prescribes. -/
def record (expression : Expression) (phrase : Phrase) : Expression :=
  match phrase.keyword.reading with
  | .fields => expression.addFields phrase.keyword (Field.listOfText phrase.content)
  | .conditions => expression.addConditions phrase.keyword (Condition.listOfText phrase.content)
  | .join => expression.addFields phrase.keyword (Field.joinListOfText phrase.content)
  | .verbatim => expression.setText phrase.keyword phrase.content

/-- Adds what phrases say, in order. -/
def recordAll (expression : Expression) (phrases : List Phrase) : Expression :=
  phrases.foldl record expression

/-! ### Looking -/

/-- The keywords that have a value, in the order in which they first got one. -/
def keywords (expression : Expression) : List Keyword := expression.entries.map Prod.fst

/-- The keys of the keywords. -/
def keys (expression : Expression) : List Text := expression.keywords.map Keyword.key

/-- The number of keywords that have a value. -/
def size (expression : Expression) : Nat := expression.entries.length

/-- Whether no keyword has a value. -/
def isEmpty (expression : Expression) : Bool := expression.entries.isEmpty

/-- The value of a keyword. -/
def get? (expression : Expression) (keyword : Keyword) : Option Value :=
  expression.entries.lookup keyword

/-- The value under a key. -/
def getKey? (expression : Expression) (key : Text) : Option Value :=
  (Keyword.ofKey? key).bind expression.get?

/-- Whether a keyword has a value. -/
def contains (expression : Expression) (keyword : Keyword) : Bool :=
  (expression.get? keyword).isSome

/-- The text of a keyword, if its value is one. -/
def text? (expression : Expression) (keyword : Keyword) : Option Text :=
  (expression.get? keyword).bind Value.text?

/-- The fields of a keyword, if its value is a list of them. -/
def fields? (expression : Expression) (keyword : Keyword) : Option (List Field) :=
  (expression.get? keyword).bind Value.fields?

/-- The conditions of a keyword, if its value is a list of them. -/
def conditions? (expression : Expression) (keyword : Keyword) : Option (List Condition) :=
  (expression.get? keyword).bind Value.conditions?

/-- The columns asked for. -/
def select? (expression : Expression) : Option (List Field) := expression.fields? .select

/-- The source of the rows. -/
def source? (expression : Expression) : Option Text := expression.text? .fromTable

/-- The conditions on the rows. -/
def filter? (expression : Expression) : Option (List Condition) := expression.conditions? .whereCond

/-- The order of the rows. -/
def order? (expression : Expression) : Option Text := expression.text? .orderBy

/-- The tables that a keyword joins; none for a keyword that joins nothing. -/
def joins? (expression : Expression) (keyword : Keyword) : Option (List Field) :=
  if keyword.isJoin then expression.fields? keyword else none

/-! ### Walking -/

/-- A place between two entries of an expression. -/
structure Cursor where
  /-- The entries that have still to be visited. -/
  pending : List Entry
  deriving DecidableEq, Repr

/-- The cursor before the first entry. -/
def cursor (expression : Expression) : Cursor := ⟨expression.entries⟩

namespace Cursor

/-- The number of entries that have still to be visited. -/
def remaining (cursor : Cursor) : Nat := cursor.pending.length

/-- The next entry, none behind the last one, and the cursor behind it. -/
def next (cursor : Cursor) : Option Entry × Cursor :=
  (cursor.pending.head?, ⟨cursor.pending.tail⟩)

end Cursor

end Expression

end SqlClauses
