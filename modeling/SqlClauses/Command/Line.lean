import SqlClauses.Command.Invocation

/-!
# Command lines

A command line by its parts: flags, an action, and what is given to the action. `Line.words` writes
it out as the arguments of a call, where each part has several written forms. `Line.Valid` tells
which lines make sense, and it says so of the parts alone, with no regard to how arguments are read.
-/

namespace SqlClauses.Command

/-! ## Flags -/

/-- A flag. -/
inductive Flag where
  /-- The course of the work is logged. -/
  | verbose
  /-- The result is spread over lines. -/
  | pretty
  deriving DecidableEq, Repr

namespace Flag

/-- The letter of a flag. -/
def letter : Flag → Char
  | verbose => 'v'
  | pretty => 'p'

/-- The name of a flag. -/
def name : Flag → Text
  | verbose => "verbose".toList
  | pretty => "pretty".toList

end Flag

/-- An argument that sets flags. -/
inductive Switch where
  /-- One flag, by its name. -/
  | named (flag : Flag)
  /-- One flag or more, by their letters. -/
  | letters (first : Flag) (others : List Flag)
  deriving Repr

namespace Switch

/-- The flags that are set. -/
def flags : Switch → List Flag
  | named flag => [flag]
  | letters first others => first :: others

/-- The argument. -/
def word : Switch → Text
  | named flag => '-' :: '-' :: flag.name
  | letters first others => '-' :: (first :: others).map Flag.letter

end Switch

/-! ## What is given to an action -/

/-- A text that stands for itself as an argument: it begins with no hyphen, or is one. -/
def IsPlain (text : Text) : Prop := text.head? ≠ some '-' ∨ text = ['-']

instance (text : Text) : Decidable (IsPlain text) := by
  unfold IsPlain
  infer_instance

/-- A flag that is set, or a source that is named. -/
inductive Directive where
  /-- A flag. -/
  | flag (flag : Flag)
  /-- The text of the query. -/
  | sql (text : Text)
  /-- The file of the query. -/
  | file (path : Text)
  deriving DecidableEq, Repr

namespace Directive

/-- The flag of a directive. -/
def flag? : Directive → Option Flag
  | flag f => some f
  | _ => none

/-- The text of a directive. -/
def sql? : Directive → Option Text
  | sql text => some text
  | _ => none

/-- The file of a directive. -/
def file? : Directive → Option Text
  | file path => some path
  | _ => none

end Directive

/-- A value that is joined to a letter, less an equals sign in front. -/
def dropEquals : Text → Text
  | '=' :: value => value
  | value => value

/-- One argument behind the action, or an option with its value. -/
inductive Item where
  /-- An argument that sets flags. -/
  | switch (given : Switch)
  /-- The text of the query. -/
  | sql (text : Text) (plain : IsPlain text)
  /-- The name of the option and the file, with an equals sign between them. -/
  | fileJoined (path : Text)
  /-- The name of the option, and the file as an argument of its own. -/
  | fileApart (path : Text) (plain : IsPlain path)
  /-- The letter of the option, perhaps behind those of flags, and the file in the same argument. -/
  | letterJoined (flags : List Flag) (value : Text) (nonempty : value ≠ [])
  /-- The letter of the option, and the file as an argument of its own. -/
  | letterApart (flags : List Flag) (path : Text) (plain : IsPlain path)

namespace Item

/-- The arguments. -/
def words : Item → List Text
  | switch given => [given.word]
  | sql text _ => [text]
  | fileJoined path => ["--file=".toList ++ path]
  | fileApart path _ => ["--file".toList, path]
  | letterJoined flags value _ => ['-' :: (flags.map Flag.letter ++ 'f' :: value)]
  | letterApart flags path _ => ['-' :: (flags.map Flag.letter ++ ['f']), path]

/-- What the arguments say. -/
def directives : Item → List Directive
  | switch given => given.flags.map .flag
  | sql text _ => [.sql text]
  | fileJoined path | fileApart path _ => [.file path]
  | letterJoined flags value _ => flags.map .flag ++ [.file (dropEquals value)]
  | letterApart flags path _ => flags.map .flag ++ [.file path]

end Item

/-! ## Lines -/

/-- The name of an action. -/
def Action.name : Action → Text
  | parse => "parse".toList
  | segment => "segment".toList
  | keywords => "breakpoints".toList

/-- A command line. -/
structure Line where
  /-- The arguments before the action. -/
  switches : List Switch
  action : Action
  /-- The arguments behind the action. -/
  items : List Item
  /-- The texts behind two hyphens, if these are there. -/
  escaped : Option (List Text)

namespace Line

/-- The arguments of a line. -/
def words (line : Line) : List Text :=
  line.switches.map Switch.word ++ line.action.name ::
    (line.items.flatMap Item.words ++ line.escaped.elim [] (['-', '-'] :: ·))

/-- What is given to the action. -/
def directives (line : Line) : List Directive :=
  line.items.flatMap Item.directives ++ (line.escaped.getD []).map .sql

/-- The flags before the action. -/
def before (line : Line) : List Flag := line.switches.flatMap Switch.flags

/-- The flags behind the action. -/
def behind (line : Line) : List Flag := line.directives.filterMap Directive.flag?

/-- The texts that are given as the query. -/
def sqls (line : Line) : List Text := line.directives.filterMap Directive.sql?

/-- The files that are named. -/
def files (line : Line) : List Text := line.directives.filterMap Directive.file?

/-- Where the query of a line comes from. -/
def source (line : Line) : Source :=
  match line.sqls, line.files with
  | sql :: _, _ => .text sql
  | [], path :: _ => .file path
  | [], [] => .input

/-- A line makes sense: no flag is set twice on one side of the action, there is one source at most
and only if the action works on a query, no file has an empty name, and the environment says `true`
or `false` or nothing on pretty output, unless that flag stands on both sides. -/
structure Valid (line : Line) (setting : Option Text) : Prop where
  before_nodup : line.before.Nodup
  behind_nodup : line.behind.Nodup
  one_source : line.sqls.length + line.files.length ≤ 1
  takes_source : line.action.takesQuery = true ∨ line.sqls = [] ∧ line.files = []
  file_ne_nil : ∀ path ∈ line.files, path ≠ []
  setting_known : setting = none ∨ setting = some "true".toList ∨ setting = some "false".toList ∨
    .pretty ∈ line.before ∧ .pretty ∈ line.behind

instance (line : Line) (setting : Option Text) : Decidable (line.Valid setting) :=
  decidable_of_iff
    (line.before.Nodup ∧ line.behind.Nodup ∧ line.sqls.length + line.files.length ≤ 1 ∧
      (line.action.takesQuery = true ∨ line.sqls = [] ∧ line.files = []) ∧
      (∀ path ∈ line.files, path ≠ []) ∧
      (setting = none ∨ setting = some "true".toList ∨ setting = some "false".toList ∨
        .pretty ∈ line.before ∧ .pretty ∈ line.behind))
    ⟨fun ⟨a, b, c, d, e, f⟩ => ⟨a, b, c, d, e, f⟩, fun ⟨a, b, c, d, e, f⟩ => ⟨a, b, c, d, e, f⟩⟩

/-- What a line that makes sense asks for. -/
def invocation (line : Line) (setting : Option Text) : Invocation :=
  ⟨line.action.request line.source, .verbose ∈ line.before ++ line.behind,
    .pretty ∈ line.before ++ line.behind ∨ setting = some "true".toList⟩

end Line

end SqlClauses.Command
