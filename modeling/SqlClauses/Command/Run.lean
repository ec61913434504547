import SqlClauses.Command.Invocation
import SqlClauses.Encoding
import SqlClauses.Log

/-!
# Carrying out a call

What a call prints and logs, over any way of reading a file and standard input.
-/

namespace SqlClauses.Command

/-- Why the bytes of a query cannot be had, or are no text. -/
inductive ReadFault where
  /-- There is no such file. -/
  | notFound
  /-- The path names a directory. -/
  | isDirectory
  /-- The bytes are no UTF-8. -/
  | notUtf8
  /-- Anything else, in the words of the system. -/
  | other (message : Text)
  deriving DecidableEq, Repr

/-- The words for a fault. -/
def ReadFault.message : ReadFault → Text
  | notFound => "No such file or directory (os error 2)".toList
  | isDirectory => "Is a directory (os error 21)".toList
  | notUtf8 => "stream did not contain valid UTF-8".toList
  | other message => message

/-- Why a call fails. -/
inductive Failure where
  /-- The file with the query cannot be read. -/
  | file (path : Text) (fault : ReadFault)
  /-- Standard input cannot be read. -/
  | input (fault : ReadFault)
  /-- No query is given, and standard input is a terminal. -/
  | noQuery
  deriving DecidableEq, Repr

/-- The words for a failure. -/
def Failure.message : Failure → Text
  | file path fault =>
    "Failed to read query file '".toList ++ path ++ "': ".toList ++ fault.message
  | input fault => "Failed to read query from stdin: ".toList ++ fault.message
  | noQuery => "No query given: pass SQL text, use --file, or pipe it on stdin".toList

/-- What a call can reach: files, and standard input unless it is a terminal. -/
structure Surroundings (m : Type → Type) where
  readFile : Text → m (Except ReadFault ByteArray)
  readInput : m (Option (Except ReadFault ByteArray))

/-- The text of some bytes. -/
def decode (bytes : ByteArray) : Except ReadFault Text :=
  match String.fromUTF8? bytes with
  | some text => .ok text.toList
  | none => .error .notUtf8

/-- What is left of a call: the events of the work, and what it prints unless it fails. -/
structure Report where
  events : List Event
  result : Except Failure Text

variable {m : Type → Type} [Monad m]

/-- The text of the query. -/
def readSource (surroundings : Surroundings m) : Source → m (Except Failure Text)
  | .text sql => return .ok sql
  | .file path => return ((← surroundings.readFile path).bind decode).mapError (.file path)
  | .input => do
    match ← surroundings.readInput with
    | none => return .error .noQuery
    | some bytes => return (bytes.bind decode).mapError .input

/-- The events of finding the query. -/
def sourceEvents : Source → List Event
  | .file path => [.readingFile path]
  | _ => []

/-- A value as a call prints it, with a line end behind it. -/
def render (pretty : Bool) (value : Json) : Text :=
  (if pretty then value.pretty else value.compact) ++ ['\n']

/-- Reads a query and prints what `answer` makes of it. The events of finding the query come before
those of the work. -/
def answerQuery (surroundings : Surroundings m) (pretty : Bool) (source : Source)
    (answer : Text → Json × List Event) : m Report := do
  match ← readSource surroundings source with
  | .error failure => return ⟨sourceEvents source, .error failure⟩
  | .ok sql =>
    let (value, events) := answer sql
    return ⟨sourceEvents source ++ events, .ok (render pretty value)⟩

/-- The expression of a query, with the events of reading it. -/
def parseAnswer (sql : Text) : Json × List Event :=
  let run := Run.ofQuery sql
  (run.expression.toJson, run.events.toList)

/-- The clauses of a query, with the event of having found them. -/
def segmentAnswer (sql : Text) : Json × List Event :=
  let clauses := Clause.listOfQuery sql
  (.arr (clauses.map Clause.toJson), [.segmented clauses.length])

/-- Carries out a call. -/
def Invocation.run (surroundings : Surroundings m) (call : Invocation) : m Report :=
  match call.request with
  | .parse source => answerQuery surroundings call.pretty source parseAnswer
  | .segment source => answerQuery surroundings call.pretty source segmentAnswer
  | .keywords =>
    return ⟨[], .ok (render call.pretty (.arr (Keyword.byLength.map Keyword.toJson)))⟩

/-- What a call logs. -/
def Invocation.log (call : Invocation) (report : Report) : Text :=
  logText (if call.verbose then .debug else .info) report.events

/-- What is printed when the version is asked for. -/
def versionLine : Text := "sql-expr 0.1.0\n".toList

/-! ## What comes out -/

/-- What comes out of a call. -/
inductive Outcome where
  /-- It prints and logs. -/
  | success (output log : Text)
  /-- It fails, and prints nothing but logs. -/
  | failure (failure : Failure) (log : Text)
  /-- It makes no sense. -/
  | badUsage

namespace Outcome

/-- The exit code of a call. -/
def exitCode : Outcome → UInt32
  | success .. => 0
  | failure .. => 1
  | badUsage => 2

/-- What a call prints on standard output. -/
def output : Outcome → Text
  | success output _ => output
  | _ => []

/-- What a call prints on standard error: what it logs, and why it prints nothing else. -/
def messages : Outcome → Text
  | success _ log => log
  | .failure reason log => log ++ "Error: ".toList ++ reason.message ++ ['\n']
  | badUsage =>
    "usage: sql-expr [-v] [-p] parse|segment [SQL] [-f FILE]\n".toList ++
      "       sql-expr [-v] [-p] breakpoints\n".toList

end Outcome

/-- What comes out of a call, by what is left of it. -/
def Invocation.finish (call : Invocation) (report : Report) : Outcome :=
  match report.result with
  | .ok output => .success output (call.log report)
  | .error failure => .failure failure (call.log report)

/-- Carries out a call given by its arguments and the setting for pretty output. -/
def outcome (surroundings : Surroundings m) (arguments : List Text) (setting : Option Text) :
    m Outcome := do
  match Invocation.ofArguments arguments setting with
  | .error .badUsage => return .badUsage
  | .error .version => return .success versionLine []
  | .ok call => return call.finish (← call.run surroundings)

end SqlClauses.Command
