import SqlClauses.Text.Hidden

/-!
# Quoted texts

A text between double quotes for a line of a log. A quote, a backslash, a tab, a line end and the
null character are written with a backslash, and any other hidden character by its number.
-/

namespace SqlClauses.Text

/-- How a character is written between quotes. -/
def escape (c : Char) : Text :=
  if c == '\x00' then "\\0".toList
  else if c == '\t' then "\\t".toList
  else if c == '\r' then "\\r".toList
  else if c == '\n' then "\\n".toList
  else if c == '\\' then "\\\\".toList
  else if c == '"' then "\\\"".toList
  else if isHidden c then "\\u\x7b".toList ++ Nat.toDigits 16 c.toNat ++ ['\x7d']
  else [c]

/-- A text between quotes. -/
def quoted (t : Text) : Text := '"' :: t.flatMap escape ++ ['"']

end SqlClauses.Text
