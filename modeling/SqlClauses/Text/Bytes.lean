import SqlClauses.Text.Basic

/-!
# Bytes

A text as the bytes of its UTF-8 form.
-/

namespace SqlClauses.Text

/-- The bytes of a text in UTF-8. -/
def bytes (t : Text) : List UInt8 := t.flatMap String.utf8EncodeChar

@[simp] theorem bytes_nil : bytes [] = [] := rfl

@[simp] theorem bytes_cons (c : Char) (rest : Text) :
    bytes (c :: rest) = String.utf8EncodeChar c ++ bytes rest := by
  simp [bytes]

@[simp] theorem bytes_append (s t : Text) : bytes (s ++ t) = bytes s ++ bytes t := by
  simp [bytes]

/-- The byte length counts the bytes. -/
theorem length_bytes (t : Text) : (bytes t).length = byteLength t := by
  induction t with
  | nil => rfl
  | cons c rest ih => simp [ih, String.length_utf8EncodeChar]

end SqlClauses.Text
