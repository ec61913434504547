/-!
# Texts

A text is its list of characters, so that every rule of the library is a recursion over a list.
Positions in a text are counted in bytes of UTF-8: `byteLength` measures a text, `splitAtByte?`
cuts it at a position that stands between two characters, and `splitFrom` at the first such
position at or after any offset.

* `byteLength_append`: lengths add up.
* `splitAtByte?_append`: the end of a front part is a place to cut, and cuts it off.
* `splitFrom_append`: what `splitFrom` cuts is the text.
-/

namespace SqlClauses

/-- A text is its list of characters. -/
abbrev Text := List Char

namespace Text

/-! ## Length in bytes -/

/-- The number of bytes that a text takes in UTF-8. -/
def byteLength : Text → Nat
  | [] => 0
  | c :: rest => c.utf8Size + byteLength rest

@[simp] theorem byteLength_nil : byteLength [] = 0 := rfl

@[simp] theorem byteLength_cons (c : Char) (rest : Text) :
    byteLength (c :: rest) = c.utf8Size + byteLength rest := rfl

@[simp] theorem byteLength_append (s t : Text) :
    byteLength (s ++ t) = byteLength s + byteLength t := by
  induction s with
  | nil => simp
  | cons c rest ih => simp [ih, Nat.add_assoc]

theorem byteLength_eq_zero_iff (t : Text) : byteLength t = 0 ↔ t = [] := by
  cases t with
  | nil => simp
  | cons c rest =>
    have hpos := Char.utf8Size_pos c
    simp
    omega

/-! ## Cutting at a byte offset -/

/-- The part before byte `n` and the part from it; none when `n` lies beyond the end or inside a
character. -/
def splitAtByte? : Text → Nat → Option (Text × Text)
  | t, 0 => some ([], t)
  | [], _ + 1 => none
  | c :: rest, n + 1 =>
    if c.utf8Size ≤ n + 1 then
      (splitAtByte? rest (n + 1 - c.utf8Size)).map fun (front, back) => (c :: front, back)
    else none

/-- The part before the first character that starts at byte `n` or later, and the part from it. -/
def splitFrom : Nat → Text → Text × Text
  | 0, t => ([], t)
  | _ + 1, [] => ([], [])
  | n + 1, c :: rest =>
    let (front, back) := splitFrom (n + 1 - c.utf8Size) rest
    (c :: front, back)

@[simp] theorem splitAtByte?_zero (t : Text) : splitAtByte? t 0 = some ([], t) := by
  cases t <;> rfl

theorem splitAtByte?_append (s t : Text) : splitAtByte? (s ++ t) (byteLength s) = some (s, t) := by
  induction s with
  | nil => simp
  | cons c rest ih =>
    obtain ⟨n, hn⟩ := Nat.exists_eq_add_of_lt (Char.utf8Size_pos c)
    have h : byteLength (c :: rest) = n + byteLength rest + 1 := by simp; omega
    rw [h, List.cons_append, splitAtByte?, if_pos (by omega),
      show n + byteLength rest + 1 - c.utf8Size = byteLength rest by omega, ih]
    rfl

theorem splitFrom_append (n : Nat) (t : Text) : (splitFrom n t).1 ++ (splitFrom n t).2 = t := by
  fun_induction splitFrom n t with
  | case1 => rfl
  | case2 => rfl
  | case3 n c rest front back h ih => simpa [h] using ih

end Text

end SqlClauses
