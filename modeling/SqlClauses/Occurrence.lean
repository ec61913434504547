import SqlClauses.Cut
import SqlClauses.Text.Bytes

/-!
# Where a mark stands

A mark stands at a byte of a text when the bytes from there on begin with its spelling and, if it is
a word, boundaries or the ends of the text enclose it. This says of the bytes alone, with no regard
to how a text is searched, which places a search has to find.
-/

namespace SqlClauses

/-- The bytes that end a token. -/
def isBoundaryByte (b : UInt8) : Bool :=
  b == 0x20 || b == 0x09 || b == 0x0A || b == 0x0C || b == 0x0D || b == 0x28 || b == 0x29

variable {κ : Type} [Mark κ]

/-- The bytes of a text from `start` on begin with the spelling of a mark, and a word has the end
of the text or a boundary on both sides. -/
def StandsAt (text : Text) (start : Nat) (mark : κ) : Prop :=
  let spelled := Text.bytes (Mark.spelling mark)
  spelled <+: (Text.bytes text).drop start ∧
    (Mark.isWord mark = true →
      ((Text.bytes text).take start).getLast?.all isBoundaryByte = true ∧
      ((Text.bytes text).drop (start + spelled.length)).head?.all isBoundaryByte = true)

instance (text : Text) (start : Nat) (mark : κ) : Decidable (StandsAt text start mark) := by
  unfold StandsAt
  infer_instance

/-- Some mark stands at a byte of a text. -/
def Marked (κ : Type) [Mark κ] (text : Text) (start : Nat) : Prop :=
  ∃ mark : κ, StandsAt text start mark

end SqlClauses
