import SqlClauses.Query
import SqlClauses.Text.Quoted

/-!
# Logging

The record of an event: how much it matters, what happened, and the values that go with it. A record
is written in one line, unless a plain value of it holds line ends.
-/

namespace SqlClauses

/-- How much a record matters. -/
inductive Level where
  /-- A single step. -/
  | trace
  /-- The course of the work. -/
  | debug
  /-- A result. -/
  | info
  deriving DecidableEq, Ord, Repr

/-- The name of a level. -/
def Level.name : Level → Text
  | trace => "TRACE".toList
  | debug => "DEBUG".toList
  | info => "INFO".toList

/-- A value in a record. -/
inductive Detail where
  /-- A number. -/
  | number (n : Nat)
  /-- A text that is written between quotes. -/
  | quoted (text : Text)
  /-- A text that is written as it is. -/
  | plain (text : Text)
  deriving DecidableEq, Repr

/-- How a value is written in a line. -/
def Detail.display : Detail → Text
  | number n => Nat.toDigits 10 n
  | quoted text => Text.quoted text
  | plain text => text

/-- The record of an event. -/
structure Record where
  level : Level
  message : Text
  /-- Values with their names, in order. -/
  details : List (Text × Detail)
  deriving DecidableEq, Repr

namespace Record

/-- The record of an event. -/
def ofEvent : Event → Record
  | .parsing sql => ⟨.debug, "parsing query".toList, [("sql".toList, .quoted sql)]⟩
  | .recording keyword reading span =>
    ⟨.trace, "dispatching clause".toList,
      [("keyword".toList, .quoted keyword.spelling), ("handler".toList, .quoted reading.name),
        ("start".toList, .number span.start), ("end".toList, .number span.stop)]⟩
  | .parsed keywords => ⟨.debug, "parsed query".toList, [("clauses".toList, .number keywords)]⟩
  | .readingFile path => ⟨.debug, "reading query file".toList, [("path".toList, .plain path)]⟩
  | .segmented clauses => ⟨.info, "segmented query".toList, [("clauses".toList, .number clauses)]⟩

/-- A record as it is written in a log: the level to the right of a column of five, the message, and
the values with their names. -/
def line (record : Record) : Text :=
  List.replicate (5 - record.level.name.length) ' ' ++ record.level.name ++ ' ' :: record.message ++
    record.details.flatMap fun (name, detail) => ' ' :: name ++ '=' :: detail.display

/-- Whether a record matters at least as much as `least`. -/
def reaches (least : Level) (record : Record) : Bool := (compare least record.level).isLE

end Record

/-- The log of the events that matter at least as much as `least`: their records, each with a line
end behind it. -/
def logText (least : Level) (events : List Event) : Text :=
  ((events.map Record.ofEvent).filter (Record.reaches least)).flatMap fun record =>
    record.line ++ ['\n']

end SqlClauses
