import SqlClauses.Text.Blank

/-!
# Words and normal texts

The words of a text are its maximal runs of characters that are not blank. `normalize` writes the
words with one space between neighbours. A text that is written so already is recognised by
`isNormal`, in one pass and without building the words, and is then left as it is;
`normalizeShared` also tells whether it was.
-/

namespace SqlClauses.Text

/-- The maximal runs of characters that are not blank. -/
def words (t : Text) : List Text := (t.splitOnP isBlank).filter (fun word => !word.isEmpty)

/-- Texts joined by one space each. -/
def unwords (parts : List Text) : Text := [' '].intercalate parts

/-- Every blank of the text is a space that stands between two characters that are not blank;
`afterBlank` tells that the text is read from its front or from behind a blank. -/
def isNormalFrom (afterBlank : Bool) : Text → Bool
  | [] => !afterBlank
  | c :: rest =>
    if isBlank c then !afterBlank && c == ' ' && isNormalFrom true rest
    else isNormalFrom false rest

/-- A text that is its words joined by single spaces. -/
def isNormal (t : Text) : Bool := t.isEmpty || isNormalFrom true t

/-- The words of a text joined by single spaces; a normal text is returned as it is. -/
def normalize (t : Text) : Text := if isNormal t then t else unwords (words t)

/-! ## Borrowed texts -/

/-- A text that is handed back: the one that was given, or a new one. -/
inductive Shared where
  /-- The text that was given, as it is. -/
  | borrowed (t : Text)
  /-- A text that was made anew. -/
  | owned (t : Text)
  deriving DecidableEq, Repr

namespace Shared

/-- The text that is handed back. -/
def text : Shared → Text
  | borrowed t | owned t => t

/-- Whether it is the one that was given. -/
def isBorrowed : Shared → Bool
  | borrowed _ => true
  | owned _ => false

end Shared

/-- The words of a text joined by single spaces, as a new text only if the text is not normal. -/
def normalizeShared (t : Text) : Shared :=
  if isNormal t then .borrowed t else .owned (unwords (words t))

/-- It is the same text whether it is new or not. -/
theorem text_normalizeShared (t : Text) : (normalizeShared t).text = normalize t := by
  unfold normalizeShared normalize
  split <;> rfl

end SqlClauses.Text
