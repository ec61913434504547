import Mathlib.Data.List.Infix
import SqlClauses.Span
import SqlClauses.Text.Bytes

/-!
# Bytes and byte offsets: laws

The bytes of a text tell where its characters start, since the first byte of a character is none of
those that may follow inside one. So a text that is looked for by its bytes is found between two
characters, and where it is found the characters themselves agree.

* `bytes_prefix_iff`: the bytes of one text begin those of another if the one begins the other.
* `exists_split_of_bytes_prefix`: where the bytes of a text are found, a character starts.
* `splitFrom_prefix`, `le_byteLength_splitFrom`: what the cut at an offset leaves in front.
* `slice?_append`: the middle one of three texts, cut out by its offsets.
-/

namespace SqlClauses

namespace Text

/-! ## Characters as bytes -/

/-- The bytes of a first character are told apart from those behind it. -/
theorem utf8EncodeChar_append_inj {c d : Char} {s t : List UInt8}
    (h : String.utf8EncodeChar c ++ s = String.utf8EncodeChar d ++ t) : c = d ∧ s = t := by
  have hdecode := congrArg (fun bytes : List UInt8 => bytes.toByteArray.utf8DecodeChar? 0) h
  simp only [List.toByteArray_append, ByteArray.utf8DecodeChar?_utf8EncodeChar_append,
    Option.some.injEq] at hdecode
  subst hdecode
  exact ⟨rfl, List.append_cancel_left h⟩

/-- A character of ASCII is its own byte, and no byte of another character is in that range. -/
theorem toNat_of_mem_utf8EncodeChar {c : Char} {b : UInt8} (h : b ∈ String.utf8EncodeChar c) :
    b.toNat = c.toNat ∨ 128 ≤ b.toNat ∧ 128 ≤ c.toNat := by
  have hc : c.val.toNat = c.toNat := rfl
  have hlt : c.toNat < 1114112 := by
    rcases c.valid with h | h
    · show c.val.toNat < _
      omega
    · show c.val.toNat < _
      omega
  unfold String.utf8EncodeChar at h
  rw [hc] at h
  dsimp only at h
  split at h
  · left
    obtain rfl := List.mem_singleton.1 h
    rw [UInt8.toNat_ofNat']
    omega
  · refine .inr ⟨?_, by omega⟩
    split at h
    · simp only [List.mem_cons, List.not_mem_nil, or_false] at h
      rcases h with rfl | rfl <;> rw [UInt8.toNat_ofNat'] <;> omega
    · split at h
      · simp only [List.mem_cons, List.not_mem_nil, or_false] at h
        rcases h with rfl | rfl | rfl <;> rw [UInt8.toNat_ofNat'] <;> omega
      · simp only [List.mem_cons, List.not_mem_nil, or_false] at h
        rcases h with rfl | rfl | rfl | rfl <;> rw [UInt8.toNat_ofNat'] <;> omega

/-- The bytes of one text begin those of another if the one begins the other. -/
theorem bytes_prefix_iff {s t : Text} : bytes s <+: bytes t ↔ s <+: t := by
  constructor
  · intro h
    induction s generalizing t with
    | nil => exact List.nil_prefix
    | cons c s ih =>
      obtain ⟨behind, hbehind⟩ := h
      cases t with
      | nil => simp [String.utf8EncodeChar_ne_nil] at hbehind
      | cons d t =>
        rw [bytes_cons, bytes_cons, List.append_assoc] at hbehind
        obtain ⟨rfl, hrest⟩ := utf8EncodeChar_append_inj hbehind
        exact List.prefix_cons_inj c |>.2 (ih ⟨behind, hrest⟩)
  · rintro ⟨behind, rfl⟩
    rw [bytes_append]
    exact List.prefix_append _ _

theorem take_bytes_append (s t : Text) : (bytes (s ++ t)).take (byteLength s) = bytes s := by
  rw [bytes_append, ← length_bytes, List.take_left]

theorem drop_bytes_append (s t : Text) : (bytes (s ++ t)).drop (byteLength s) = bytes t := by
  rw [bytes_append, ← length_bytes, List.drop_left]

/-- A byte that can begin a character does begin one. -/
theorem exists_split_of_firstByte {t : Text} {n : Nat} {b : UInt8}
    (hb : b ∈ ((bytes t).drop n).head?) (hfirst : b.IsUTF8FirstByte) :
    ∃ s u, t = s ++ u ∧ byteLength s = n := by
  induction t generalizing n with
  | nil => simp at hb
  | cons c t ih =>
    by_cases hn : c.utf8Size ≤ n
    · have hdrop : (bytes (c :: t)).drop n = (bytes t).drop (n - c.utf8Size) := by
        rw [bytes_cons, List.drop_append, String.length_utf8EncodeChar,
          List.drop_eq_nil_of_le (by rwa [String.length_utf8EncodeChar]), List.nil_append]
      rw [hdrop] at hb
      obtain ⟨s, u, rfl, hs⟩ := ih hb
      refine ⟨c :: s, u, rfl, ?_⟩
      rw [byteLength_cons]
      omega
    · -- the byte is one of the first character, and so its first one
      have hlt : n < (String.utf8EncodeChar c).length := by
        rw [String.length_utf8EncodeChar]
        omega
      have hget : (String.utf8EncodeChar c)[n] = b := by
        rw [bytes_cons, List.head?_drop, List.getElem?_append_left hlt,
          List.getElem?_eq_getElem hlt] at hb
        exact Option.some.inj hb
      rw [← hget] at hfirst
      obtain rfl := UInt8.isUTF8FirstByte_getElem_utf8EncodeChar.1 hfirst
      exact ⟨[], c :: t, rfl, rfl⟩

/-- Where the bytes of a text are found, a character starts, and the text stands there. -/
theorem exists_split_of_bytes_prefix {s t : Text} {n : Nat} (hs : s ≠ [])
    (h : bytes s <+: (bytes t).drop n) :
    ∃ front back, t = front ++ (s ++ back) ∧ byteLength front = n := by
  obtain ⟨c, rest, rfl⟩ := List.exists_cons_of_ne_nil hs
  have hne : String.utf8EncodeChar c ≠ [] := String.utf8EncodeChar_ne_nil
  obtain ⟨b, more, hb⟩ := List.exists_cons_of_ne_nil hne
  have hfirst : b.IsUTF8FirstByte := by
    have hzero := UInt8.isUTF8FirstByte_getElem_zero_utf8EncodeChar (c := c)
    simpa only [hb, List.getElem_cons_zero] using hzero
  have hhead : b ∈ ((bytes t).drop n).head? := by
    obtain ⟨behind, hbehind⟩ := h
    rw [← hbehind, bytes_cons, hb]
    rfl
  obtain ⟨front, back, rfl, rfl⟩ := exists_split_of_firstByte hhead hfirst
  rw [drop_bytes_append, bytes_prefix_iff] at h
  obtain ⟨behind, rfl⟩ := h
  exact ⟨front, behind, rfl, rfl⟩

/-! ## Offsets between characters -/

theorem byteLength_pos {t : Text} (h : t ≠ []) : 0 < byteLength t :=
  Nat.pos_of_ne_zero fun hzero => h ((byteLength_eq_zero_iff t).1 hzero)

/-- A cut of a text does not lie inside one of its characters. -/
theorem cut_beside_char {before rest front back : Text} {c : Char}
    (h : before ++ c :: rest = front ++ back) :
    byteLength front ≤ byteLength before ∨ byteLength before + c.utf8Size ≤ byteLength front := by
  rcases List.append_eq_append_iff.1 h with ⟨more, rfl, hrest⟩ | ⟨more, rfl, -⟩
  · cases more with
    | nil => simp
    | cons d more =>
      rw [List.cons_append, List.cons.injEq] at hrest
      obtain ⟨rfl, -⟩ := hrest
      right
      rw [byteLength_append, byteLength_cons]
      omega
  · left
    rw [byteLength_append]
    omega

/-! ## The cut at an offset -/

theorem splitFrom_zero (t : Text) : splitFrom 0 t = ([], t) := by
  cases t <;> rfl

theorem le_byteLength_splitFrom (n : Nat) (t : Text) :
    n ≤ byteLength (splitFrom n t).1 ∨ (splitFrom n t).2 = [] := by
  fun_induction splitFrom n t with
  | case1 => exact .inl (Nat.zero_le _)
  | case2 => exact .inr rfl
  | case3 n c rest front back h ih =>
    rw [h] at ih
    rcases ih with ih | ih
    · left
      show n + 1 ≤ byteLength (c :: front)
      rw [byteLength_cons]
      dsimp only at ih
      omega
    · exact .inr ih

/-- No place at the offset or behind it is passed over. -/
theorem splitFrom_prefix {n : Nat} {s t : Text} (h : n ≤ byteLength s) :
    (splitFrom n (s ++ t)).1 <+: s := by
  induction s generalizing n with
  | nil =>
    obtain rfl : n = 0 := Nat.le_zero.1 h
    rw [List.nil_append, splitFrom_zero]
  | cons c s ih =>
    cases n with
    | zero => exact List.nil_prefix
    | succ n =>
      rw [byteLength_cons] at h
      exact List.prefix_cons_inj c |>.2 (ih (by omega))

/-- The end of a front part is a place to cut. -/
theorem splitFrom_byteLength (s t : Text) : splitFrom (byteLength s) (s ++ t) = (s, t) := by
  induction s with
  | nil => exact splitFrom_zero t
  | cons c s ih =>
    have hc := Char.utf8Size_pos c
    obtain ⟨n, hn⟩ : ∃ n, byteLength (c :: s) = n + 1 :=
      ⟨byteLength (c :: s) - 1, by rw [byteLength_cons]; omega⟩
    have hrest : n + 1 - c.utf8Size = byteLength s := by
      rw [byteLength_cons] at hn
      omega
    rw [hn, List.cons_append, splitFrom, hrest, ih]

/-- Two cuts of one text that leave as many bytes in front are the same cut. -/
theorem append_inj_of_byteLength_eq {s t u v : Text} (h : s ++ u = t ++ v)
    (hlength : byteLength s = byteLength t) : s = t ∧ u = v := by
  have hcut := splitFrom_byteLength s u
  rw [h, hlength, splitFrom_byteLength] at hcut
  exact ⟨(congrArg Prod.fst hcut).symm, (congrArg Prod.snd hcut).symm⟩

end Text

/-! ## Slices -/

namespace Span

open Text

/-- The middle one of three texts stands between the offsets of its ends. -/
theorem slice?_append (before inside behind : Text) :
    slice? ⟨byteLength before, byteLength before + byteLength inside⟩
      (before ++ (inside ++ behind)) = some inside := by
  have hlength : length? ⟨byteLength before, byteLength before + byteLength inside⟩ =
      some (byteLength inside) := by
    rw [length?, if_pos (Nat.le_add_right _ _)]
    simp
  unfold slice?
  rw [hlength]
  simp only [Option.bind_eq_bind, Option.bind_some, splitAtByte?_append]
  rfl

end Span

end SqlClauses
