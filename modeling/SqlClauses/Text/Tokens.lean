import SqlClauses.Text.Words

/-!
# Tokens

The tokens of a text are its words, where each parenthesis is a word of its own.
-/

namespace SqlClauses.Text

/-- A parenthesis, of either kind. -/
def isParen (c : Char) : Bool := c == '(' || c == ')'

/-- A text with a space put on both sides of each parenthesis. -/
def setParensOff (t : Text) : Text := t.flatMap fun c => if isParen c then [' ', c, ' '] else [c]

/-- The words of a text, each parenthesis a word of its own. -/
def tokens (t : Text) : List Text := words (setParensOff t)

/-- The last token of a text. -/
def lastToken? (t : Text) : Option Text := (tokens t).getLast?

end SqlClauses.Text
