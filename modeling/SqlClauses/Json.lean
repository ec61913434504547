import SqlClauses.Text.Basic

/-!
# JSON

Values as trees, and their two written forms. `compact` puts no blank between tokens; `pretty`
gives each item and each member a line of its own, indented by two spaces a level, and leaves an
empty array or object closed.
-/

namespace SqlClauses

/-- A JSON value. -/
inductive Json where
  /-- A string. -/
  | str (text : Text)
  /-- A natural number. -/
  | num (n : Nat)
  /-- An array. -/
  | arr (items : List Json)
  /-- An object, its members in order. -/
  | obj (members : List (Text × Json))

namespace Json

/-! ## Strings and numbers -/

/-- A digit of the hexadecimal system, in lower case. -/
def hexDigit (n : Nat) : Char := "0123456789abcdef".toList.getD n '0'

/-- How a character is written inside a string. -/
def escape (c : Char) : Text :=
  if c == '"' then "\\\"".toList
  else if c == '\\' then "\\\\".toList
  else if c == '\x08' then "\\b".toList
  else if c == '\x0c' then "\\f".toList
  else if c == '\n' then "\\n".toList
  else if c == '\r' then "\\r".toList
  else if c == '\t' then "\\t".toList
  else if c.toNat < 0x20 then
    "\\u00".toList ++ [hexDigit (c.toNat / 16), hexDigit (c.toNat % 16)]
  else [c]

/-- A string between its quotes. -/
def quoted (text : Text) : Text := '"' :: text.flatMap escape ++ ['"']

/-- A number in decimal. -/
def decimal (n : Nat) : Text := Nat.toDigits 10 n

/-! ## Compact form -/

mutual

/-- A value with no blank between its tokens. -/
def compact : Json → Text
  | str text => quoted text
  | num n => decimal n
  | arr items => '[' :: compactItems items ++ [']']
  | obj members => '\x7b' :: compactMembers members ++ ['\x7d']

/-- Items with a comma between neighbours. -/
def compactItems : List Json → Text
  | [] => []
  | [item] => compact item
  | item :: rest => compact item ++ ',' :: compactItems rest

/-- Members with a comma between neighbours. -/
def compactMembers : List (Text × Json) → Text
  | [] => []
  | [(name, value)] => quoted name ++ ':' :: compact value
  | (name, value) :: rest => quoted name ++ ':' :: compact value ++ ',' :: compactMembers rest

end

/-! ## Pretty form -/

/-- A new line at a level of indentation. -/
def newline (level : Nat) : Text := '\n' :: List.replicate (2 * level) ' '

mutual

/-- A value spread over lines, its first line standing at `level`. -/
def prettyAt (level : Nat) : Json → Text
  | str text => quoted text
  | num n => decimal n
  | arr [] => "[]".toList
  | arr items => '[' :: prettyItems (level + 1) items ++ newline level ++ [']']
  | obj [] => "\x7b\x7d".toList
  | obj members => '\x7b' :: prettyMembers (level + 1) members ++ newline level ++ ['\x7d']

/-- Items, each on a line of its own. -/
def prettyItems (level : Nat) : List Json → Text
  | [] => []
  | [item] => newline level ++ prettyAt level item
  | item :: rest => newline level ++ prettyAt level item ++ ',' :: prettyItems level rest

/-- Members, each on a line of its own. -/
def prettyMembers (level : Nat) : List (Text × Json) → Text
  | [] => []
  | [(name, value)] => newline level ++ quoted name ++ ": ".toList ++ prettyAt level value
  | (name, value) :: rest =>
    newline level ++ quoted name ++ ": ".toList ++ prettyAt level value ++
      ',' :: prettyMembers level rest

end

/-- A value spread over lines. -/
def pretty (value : Json) : Text := prettyAt 0 value

end Json

end SqlClauses
