import SqlClauses.Expression
import SqlClauses.Text.Words

/-!
# Reading a query

A query is brought into normal form, taken apart into clauses, and the clauses are recorded in an
expression. `Run` also keeps account of the steps; its expression is the one that `parse` finds.
-/

namespace SqlClauses

/-- The clauses of a query, brought into normal form. -/
def Clause.listOfQuery (sql : Text) : List Clause := listOfText (Text.normalize sql)

/-- What a query says. Nothing fails: what is no clause is dropped, and a malformed field is kept
as such. -/
def Expression.parse (sql : Text) : Expression :=
  empty.recordAll ((Clause.listOfQuery sql).map Clause.toPhrase)

/-! ## Events -/

/-- A step that is worth a record. -/
inductive Event where
  /-- A query is about to be read. -/
  | parsing (sql : Text)
  /-- A clause is about to be recorded. -/
  | recording (keyword : Keyword) (reading : Reading) (span : Span)
  /-- A query has been read, and this many keywords have a value. -/
  | parsed (keywords : Nat)
  /-- A file with a query is about to be read. -/
  | readingFile (path : Text)
  /-- A query has been taken apart into this many clauses. -/
  | segmented (clauses : Nat)
  deriving DecidableEq, Repr

/-- An expression that is being built, with the events so far. -/
structure Run where
  expression : Expression
  events : Array Event

namespace Run

/-- Adds an event. -/
def emit (run : Run) (event : Event) : Run := { run with events := run.events.push event }

/-- Records a clause. -/
def step (run : Run) (clause : Clause) : Run :=
  let run := run.emit (.recording clause.keyword clause.keyword.reading clause.span)
  { run with expression := run.expression.record clause.toPhrase }

/-- Reads a query. -/
def ofQuery (sql : Text) : Run :=
  let run := (Clause.listOfQuery sql).foldl step ⟨.empty, #[.parsing sql]⟩
  run.emit (.parsed run.expression.size)

@[simp] theorem expression_emit (run : Run) (event : Event) :
    (run.emit event).expression = run.expression := rfl

@[simp] theorem expression_step (run : Run) (clause : Clause) :
    (run.step clause).expression = run.expression.record clause.toPhrase := rfl

theorem expression_foldl_step (clauses : List Clause) (run : Run) :
    (clauses.foldl step run).expression =
      run.expression.recordAll (clauses.map Clause.toPhrase) := by
  induction clauses generalizing run with
  | nil => rfl
  | cons clause rest ih => exact ih (run.step clause)

/-- A run ends with the expression that `parse` finds. -/
theorem expression_ofQuery (sql : Text) : (ofQuery sql).expression = Expression.parse sql := by
  simp [ofQuery, Expression.parse, expression_foldl_step]

end Run

end SqlClauses
