import SqlClauses.Text.Basic

/-!
# The command line

How the arguments of a call are read. The first argument that is no flag names the action, and what
follows it belongs to the action. Flags may stand on both sides of the action, but only once on
each. There are no help texts, so that a call for help is refused like anything unknown.
-/

namespace SqlClauses.Command

/-! ## Single arguments -/

/-- An argument, told apart by its hyphens. -/
inductive Argument where
  /-- Two hyphens alone: all that follows is plain. -/
  | escape
  /-- Two hyphens, a name, and perhaps a value behind an equals sign. -/
  | long (name : Text) (value : Option Text)
  /-- A hyphen and letters. -/
  | short (letters : Text)
  /-- Anything else, a hyphen alone included. -/
  | plain (text : Text)
  deriving DecidableEq, Repr

/-- Splits a long argument at its first equals sign. -/
def Argument.ofLong (text : Text) : Argument :=
  match text.dropWhile (· != '=') with
  | [] => .long text none
  | _ :: value => .long (text.takeWhile (· != '=')) (some value)

/-- Tells an argument apart. -/
def Argument.ofText : Text → Argument
  | ['-', '-'] => .escape
  | '-' :: '-' :: rest => .ofLong rest
  | '-' :: letter :: rest => .short (letter :: rest)
  | text => .plain text

/-! ## What a call asks for -/

/-- What a call can do. -/
inductive Action where
  /-- Print the expression of a query. -/
  | parse
  /-- Print the clauses of a query. -/
  | segment
  /-- Print the table of keywords. -/
  | keywords
  deriving DecidableEq, Repr

/-- The action of a name. -/
def Action.ofName? (name : Text) : Option Action :=
  if name = "parse".toList then some .parse
  else if name = "segment".toList then some .segment
  else if name = "breakpoints".toList then some .keywords
  else none

/-- Whether an action works on a query. -/
def Action.takesQuery : Action → Bool
  | keywords => false
  | _ => true

/-- Where the query comes from. -/
inductive Source where
  /-- It is given as an argument. -/
  | text (sql : Text)
  /-- It is in a file. -/
  | file (path : Text)
  /-- It comes on standard input. -/
  | input
  deriving DecidableEq, Repr

/-- What a call asks for. -/
inductive Request where
  /-- The expression of a query. -/
  | parse (source : Source)
  /-- The clauses of a query. -/
  | segment (source : Source)
  /-- The table of keywords. -/
  | keywords
  deriving DecidableEq, Repr

/-- What an action asks for. The table of keywords needs no query. -/
def Action.request (source : Source) : Action → Request
  | parse => .parse source
  | segment => .segment source
  | keywords => .keywords

/-- A call that can be carried out. -/
structure Invocation where
  request : Request
  /-- Whether the course of the work is logged. -/
  verbose : Bool
  /-- Whether the result is spread over lines. -/
  pretty : Bool
  deriving DecidableEq, Repr

/-- Why a call is not carried out. -/
inductive Refusal where
  /-- The arguments make no sense. -/
  | badUsage
  /-- The version was asked for. -/
  | version
  deriving DecidableEq, Repr

/-! ## Flags -/

/-- The flags given on one side of the action. -/
structure Flags where
  verbose : Bool
  pretty : Bool
  deriving DecidableEq, Repr

namespace Flags

/-- No flag. -/
def none : Flags := ⟨false, false⟩

/-- Sets the flag for verbose output, which must not be set already. -/
def setVerbose (flags : Flags) : Except Refusal Flags :=
  if flags.verbose then .error .badUsage else .ok { flags with verbose := true }

/-- Sets the flag for pretty output, which must not be set already. -/
def setPretty (flags : Flags) : Except Refusal Flags :=
  if flags.pretty then .error .badUsage else .ok { flags with pretty := true }

/-- Sets the flag of a letter. -/
def setLetter (flags : Flags) (letter : Char) : Except Refusal Flags :=
  if letter = 'v' then flags.setVerbose
  else if letter = 'p' then flags.setPretty
  else .error .badUsage

/-- Sets the flag of a name, which takes no value. -/
def setName (flags : Flags) (name : Text) (value : Option Text) : Except Refusal Flags :=
  if value.isSome then .error .badUsage
  else if name = "verbose".toList then flags.setVerbose
  else if name = "pretty".toList then flags.setPretty
  else .error .badUsage

/-- Whether output is pretty, by the flags on both sides of the action and the setting of the
environment. The setting has to read `true` or `false`, unless the flag stands on both sides. -/
def decidePretty (before behind : Flags) (setting : Option Text) : Except Refusal Bool :=
  if before.pretty && behind.pretty then .ok true
  else
    match setting with
    | Option.none => .ok (before.pretty || behind.pretty)
    | some text =>
      if text = "true".toList then .ok true
      else if text = "false".toList then .ok (before.pretty || behind.pretty)
      else .error .badUsage

end Flags

/-! ## Behind the action -/

/-- What the arguments behind the action say. -/
structure Options where
  flags : Flags
  sql : Option Text
  file : Option Text
  deriving DecidableEq, Repr

namespace Options

/-- What no arguments say. -/
def none : Options := ⟨.none, Option.none, Option.none⟩

/-- Gives the text of the query, at most once. -/
def setSql (action : Action) (options : Options) (sql : Text) : Except Refusal Options :=
  if action.takesQuery && options.sql.isNone then .ok { options with sql := some sql }
  else .error .badUsage

/-- Gives the file of the query, at most once and with a name. -/
def setFile (action : Action) (options : Options) (path : Text) : Except Refusal Options :=
  if action.takesQuery && options.file.isNone && !path.isEmpty then
    .ok { options with file := some path }
  else .error .badUsage

/-- Reads a group of letters. The letter of the file takes the rest of the group for its value, less
an equals sign in front. The result tells whether the value is still to come. -/
def readLetters (action : Action) (options : Options) : Text → Except Refusal (Options × Bool)
  | [] => .ok (options, false)
  | letter :: rest =>
    if letter = 'f' then
      match rest with
      | [] => if action.takesQuery then .ok (options, true) else .error .badUsage
      | '=' :: path => do return (← options.setFile action path, false)
      | path => do return (← options.setFile action path, false)
    else do
      let flags ← options.flags.setLetter letter
      readLetters action { options with flags := flags } rest

/-- Reads a long argument. The result tells whether its value is still to come. -/
def readLong (action : Action) (options : Options) (name : Text) (value : Option Text) :
    Except Refusal (Options × Bool) :=
  if name = "file".toList && action.takesQuery then
    match value with
    | some path => do return (← options.setFile action path, false)
    | Option.none => .ok (options, true)
  else do
    let flags ← options.flags.setName name value
    return ({ options with flags := flags }, false)

/-- Reads the arguments behind the action. `expectsFile` tells that the next one has to name the
file. -/
def read (action : Action) (expectsFile : Bool) (options : Options) :
    List Text → Except Refusal Options
  | [] => if expectsFile then .error .badUsage else .ok options
  | argument :: rest =>
    match expectsFile, Argument.ofText argument with
    | true, .plain path => do read action false (← options.setFile action path) rest
    | true, _ => .error .badUsage
    | false, .escape => rest.foldlM (setSql action) options
    | false, .long name value => do
      let (options, expectsFile) ← options.readLong action name value
      read action expectsFile options rest
    | false, .short letters => do
      let (options, expectsFile) ← options.readLetters action letters
      read action expectsFile options rest
    | false, .plain sql => do read action false (← options.setSql action sql) rest

/-- Where the query comes from. A text and a file together make no sense. -/
def source (options : Options) : Except Refusal Source :=
  match options.sql, options.file with
  | some _, some _ => .error .badUsage
  | some sql, Option.none => .ok (.text sql)
  | Option.none, some path => .ok (.file path)
  | Option.none, Option.none => .ok .input

end Options

/-! ## The whole line -/

namespace Invocation

/-- The call of an action with its arguments. -/
def ofAction (before : Flags) (action : Action) (arguments : List Text) (setting : Option Text) :
    Except Refusal Invocation := do
  let options ← Options.read action false .none arguments
  let source ← options.source
  let pretty ← before.decidePretty options.flags setting
  return ⟨action.request source, before.verbose || options.flags.verbose, pretty⟩

/-- Reads a group of letters before the action, where the version can be asked for. -/
def readLetters (flags : Flags) : Text → Except Refusal Flags
  | [] => .ok flags
  | letter :: rest =>
    if letter = 'V' then .error .version
    else do readLetters (← flags.setLetter letter) rest

/-- Reads the arguments from before the action on. -/
def readFrom (flags : Flags) (setting : Option Text) : List Text → Except Refusal Invocation
  | [] => .error .badUsage
  | argument :: rest =>
    match Argument.ofText argument with
    | .escape => .error .badUsage
    | .long name value =>
      if name = "version".toList && value.isNone then .error .version
      else do readFrom (← flags.setName name value) setting rest
    | .short letters => do readFrom (← readLetters flags letters) setting rest
    | .plain name =>
      match Action.ofName? name with
      | some action => ofAction flags action rest setting
      | none => .error .badUsage

/-- Reads the arguments of a call; `setting` is what the environment says on pretty output. -/
def ofArguments (arguments : List Text) (setting : Option Text) : Except Refusal Invocation :=
  readFrom .none setting arguments

end Invocation

end SqlClauses.Command
