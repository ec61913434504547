import SqlClauses.Text.Basic

/-!
# Blanks

Blanks are the characters with the Unicode property White_Space. `trim` takes them off both ends
of a text.
-/

namespace SqlClauses.Text

/-- The code points with the Unicode property White_Space, as inclusive ranges. -/
def blankRanges : List (Nat × Nat) :=
  [(0x09, 0x0D), (0x20, 0x20), (0x85, 0x85), (0xA0, 0xA0), (0x1680, 0x1680), (0x2000, 0x200A),
    (0x2028, 0x2029), (0x202F, 0x202F), (0x205F, 0x205F), (0x3000, 0x3000)]

/-- A character of white space. -/
def isBlank (c : Char) : Bool :=
  blankRanges.any fun (low, high) => low ≤ c.toNat && c.toNat ≤ high

/-- A text without the blanks at its front. -/
def trimFront (t : Text) : Text := t.dropWhile isBlank

/-- A text without the blanks at its back. -/
def trimBack (t : Text) : Text := (t.reverse.dropWhile isBlank).reverse

/-- A text without the blanks at both ends. -/
def trim (t : Text) : Text := trimBack (trimFront t)

end SqlClauses.Text
