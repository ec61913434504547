import Mathlib.Data.List.Infix
import SqlClauses.Text.Basic

/-!
# Pieces between separators: laws

What a text is cut into at one character, and what pieces make up with that character between them.
The library has it that the two are inverse to each other; here is what the pieces look like.

* `cut_induction`: a text is cut until nothing is left to cut it at.
* `not_mem_of_mem_splitOn`, `length_splitOn`: no piece has the separator, and how many there are.
* `intercalate_append`: two lists of pieces are written one behind the other.
-/

namespace SqlClauses.Text

theorem map_eq_self {α : Type} {f : α → α} {items : List α} (h : ∀ item ∈ items, f item = item) :
    items.map f = items := by
  conv_rhs => rw [← List.map_id items]
  exact List.map_congr_left h

/-- A text has none of the characters at which it might be cut, or it is cut at one of them into two
shorter texts. -/
theorem cut_induction (p : Char → Bool) {motive : Text → Prop}
    (plain : ∀ t, (∀ c ∈ t, p c = false) → motive t)
    (cut : ∀ s c t, p c = true → motive s → motive t → motive (s ++ c :: t)) (t : Text) :
    motive t := by
  induction hn : t.length using Nat.strong_induction_on generalizing t with
  | _ n ih =>
    by_cases hcut : ∃ c ∈ t, p c = true
    · obtain ⟨c, hmem, hc⟩ := hcut
      obtain ⟨front, back, rfl⟩ := List.append_of_mem hmem
      rw [List.length_append, List.length_cons] at hn
      exact cut front c back hc (ih front.length (by omega) front rfl)
        (ih back.length (by omega) back rfl)
    · exact plain t fun c hc => Bool.eq_false_iff.2 fun hp => hcut ⟨c, hc, hp⟩

/-- Pieces behind other pieces are written behind one more separator. -/
theorem intercalate_append (c : Char) {front back : List Text} (hfront : front ≠ [])
    (hback : back ≠ []) :
    [c].intercalate (front ++ back) = [c].intercalate front ++ c :: [c].intercalate back := by
  induction front with
  | nil => exact absurd rfl hfront
  | cons piece front ih =>
    cases front with
    | nil => rw [List.singleton_append, List.intercalate_cons_of_ne_nil hback]; simp
    | cons next front =>
      rw [List.cons_append, List.intercalate_cons_of_ne_nil (by simp), ih (by simp),
        List.intercalate_cons_cons]
      simp

theorem not_mem_of_mem_splitOn {c : Char} {t : Text} : ∀ piece ∈ t.splitOn c, c ∉ piece := by
  induction t using cut_induction (· == c) with
  | plain t ht =>
    have hmem : c ∉ t := fun hc => by simpa using ht c hc
    rw [List.splitOn_eq_singleton hmem, List.forall_mem_singleton]
    exact hmem
  | cut s d t hd hs ht =>
    obtain rfl := beq_iff_eq.1 hd
    rw [List.splitOn_append_cons_self]
    exact fun piece hpiece => (List.mem_append.1 hpiece).elim (hs piece) (ht piece)

/-- Every piece is a part of the text. -/
theorem isInfix_of_mem_splitOn {c : Char} {t : Text} : ∀ piece ∈ t.splitOn c, piece <:+: t := by
  induction t using cut_induction (· == c) with
  | plain t ht =>
    have hmem : c ∉ t := fun hc => by simpa using ht c hc
    rw [List.splitOn_eq_singleton hmem, List.forall_mem_singleton]
  | cut s d t hd hs ht =>
    obtain rfl := beq_iff_eq.1 hd
    rw [List.splitOn_append_cons_self]
    intro piece hpiece
    rcases List.mem_append.1 hpiece with hpiece | hpiece
    · exact (hs piece hpiece).trans (List.prefix_append ..).isInfix
    · exact (ht piece hpiece).trans ⟨s ++ [d], [], by simp⟩

/-- There is one piece more than there are separators. -/
theorem length_splitOn (c : Char) (t : Text) : (t.splitOn c).length = t.count c + 1 := by
  induction t using cut_induction (· == c) with
  | plain t ht =>
    have hmem : c ∉ t := fun hc => by simpa using ht c hc
    rw [List.splitOn_eq_singleton hmem, List.count_eq_zero.2 hmem]
    rfl
  | cut s d t hd hs ht =>
    obtain rfl := beq_iff_eq.1 hd
    rw [List.splitOn_append_cons_self, List.length_append, hs, ht, List.count_append,
      List.count_cons_self]
    omega

end SqlClauses.Text
