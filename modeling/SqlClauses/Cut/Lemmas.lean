import SqlClauses.Cut

/-!
# Laws of cutting

* `text_ofText`, `text_ofTextFrom`: the pieces of a cut make up the text.
* `map_locate`, `length_gaps`: sections and gaps of a cut against its pieces.
* `scan_of_seek_eq_none`, `scan_of_seek_eq_some`: the first mark of a cut is the one that `seek`
  finds, and what follows it is cut on its own.
-/

namespace SqlClauses

variable {κ : Type} [Mark κ]

/-! ## Marks that fit -/

theorem prefix_of_fits {opens : Bool} {text : Text} {mark : κ} (h : fits opens text mark = true) :
    Mark.spelling mark <+: text := by
  simp only [fits, Bool.and_eq_true] at h
  exact List.isPrefixOf_iff_prefix.1 h.1

theorem fits_of_markAt? {opens : Bool} {text : Text} {mark : κ}
    (h : markAt? opens text = some mark) : fits opens text mark = true :=
  List.find?_some h

namespace Cut

/-! ## Nothing is lost -/

@[simp] theorem text_push (c : Char) (cut : Cut κ) : (cut.push c).text = c :: cut.text := rfl

@[simp] theorem text_pushMark (mark : κ) (cut : Cut κ) :
    (cut.pushMark mark).text = Mark.spelling mark ++ cut.text := by
  simp [pushMark, text]

theorem text_scan (opens : Bool) (skip : Nat) (t : Text) :
    (scan opens skip t : Cut κ).text = t.drop skip := by
  induction t generalizing opens skip with
  | nil => simp [scan, text]
  | cons c rest ih =>
    cases skip with
    | succ skip => rw [scan, ih, List.drop_succ_cons]
    | zero =>
      rw [scan]
      split
      · next mark h =>
        obtain ⟨behind, hb⟩ := prefix_of_fits (fits_of_markAt? h)
        obtain ⟨d, spelled, hs⟩ := List.exists_cons_of_ne_nil (Mark.spelling_ne_nil mark)
        rw [hs, List.cons_append, List.cons.injEq] at hb
        rw [text_pushMark, ih, hs, List.length_cons, Nat.add_sub_cancel, ← hb.2, List.drop_left,
          hb.1]
        rfl
      · rw [text_push, ih, List.drop_zero, List.drop_zero]

/-- The pieces of a cut make up the text. -/
theorem text_ofText (t : Text) : (ofText t : Cut κ).text = t := text_scan true 0 t

theorem text_ofTextFrom (start : Nat) (t : Text) : (ofTextFrom start t : Cut κ).text = t := by
  have h : (scan _ 0 (Text.splitFrom start t).2 : Cut κ).text = _ :=
    text_scan (opensAfter (Text.splitFrom start t).1) 0 _
  simp only [ofTextFrom, text, List.drop_zero] at h ⊢
  rw [List.append_assoc, h, Text.splitFrom_append]

/-! ## Sections -/

/-- Locating pieces changes neither their marks nor the texts behind them. -/
theorem map_locate {α : Type} (f : κ → Text → α) (start : Nat) (pieces : List (Piece κ)) :
    (locate start pieces).map (fun part => f part.mark part.tail) =
      pieces.map fun piece => f piece.mark piece.tail := by
  induction pieces generalizing start with
  | nil => rfl
  | cons piece pieces ih =>
    rw [locate, List.map_cons, ih, List.map_cons]

/-- A cut has one gap more than it has marks. -/
theorem length_gaps (cut : Cut κ) : cut.gaps.length = cut.hits.length + 1 := by
  have hlocate := congrArg List.length
    (map_locate (fun _ tail => tail) (Text.byteLength cut.lead) cut.pieces)
  simp only [List.length_map] at hlocate
  simp [gaps, hits, sections, hlocate]

/-! ## The first hit -/

/-- Skipped characters matter only by the last of them. -/
theorem scan_append (opens : Bool) (skipped t : Text) :
    (scan opens skipped.length (skipped ++ t) : Cut κ) =
      scan ((skipped.getLast?.map isBoundary).getD opens) 0 t := by
  induction skipped generalizing opens with
  | nil => rfl
  | cons c rest ih =>
    rw [List.length_cons, List.cons_append, scan, ih]
    cases rest with
    | nil => rfl
    | cons d rest => rw [List.getLast?_cons_cons, List.getLast?_cons]; rfl

theorem scan_of_seek_eq_none {opens : Bool} {t : Text}
    (h : (seek opens t : Option (Found κ)) = none) : scan opens 0 t = (⟨t, []⟩ : Cut κ) := by
  induction t generalizing opens with
  | nil => rfl
  | cons c rest ih =>
    rw [seek] at h
    rw [scan]
    split at h
    · contradiction
    · rw [ih (Option.map_eq_none_iff.1 h)]; rfl

/-- The first mark of a cut is the one that `seek` finds, and the rest is cut on its own. -/
theorem scan_of_seek_eq_some {opens : Bool} {t : Text} {found : Found κ}
    (h : seek opens t = some found) :
    scan opens 0 t =
      ⟨found.lead, (pushMark found.mark
        (scan (opensAfter (Mark.spelling found.mark)) 0 found.rest)).pieces⟩ := by
  induction t generalizing opens found with
  | nil => contradiction
  | cons c rest ih =>
    rw [seek] at h
    rw [scan]
    split at h
    · next mark hm =>
      obtain rfl := Option.some.inj h
      obtain ⟨behind, hb⟩ := prefix_of_fits (fits_of_markAt? hm)
      obtain ⟨d, spelled, hs⟩ := List.exists_cons_of_ne_nil (Mark.spelling_ne_nil mark)
      have hd : (c :: rest).drop (Mark.spelling mark).length = behind := by
        rw [← hb, List.drop_left]
      rw [hs, List.length_cons] at hd
      rw [hs, List.cons_append, List.cons.injEq] at hb
      obtain ⟨rfl, rfl⟩ := hb
      have hlast : ((spelled.getLast?.map isBoundary).getD (isBoundary d)) =
          opensAfter (d :: spelled) := by
        cases spelled with
        | nil => rfl
        | cons e spelled => rw [opensAfter, List.getLast?_cons_cons, List.getLast?_cons]; rfl
      simp only [hs, hd, List.length_cons, Nat.add_sub_cancel, scan_append, hlast]
      rfl
    · obtain ⟨later, hl, rfl⟩ := Option.map_eq_some_iff.1 h
      rw [ih hl]
      rfl

end Cut

end SqlClauses
