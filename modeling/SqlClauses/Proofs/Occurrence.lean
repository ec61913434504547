import Mathlib.Data.List.Induction
import SqlClauses.Occurrence
import SqlClauses.Proofs.Marks
import SqlClauses.Proofs.Text.Bytes
import SqlClauses.Scanner

/-!
# The first mark of a text

A search goes over the characters of a text, while it is said of the bytes alone where a mark
stands. The two agree: a mark stands at a byte just when it fits between the characters there, and
so the search stops at the first byte where one stands.

* `standsAt_append_iff`: what stands at the seam of two texts is what fits there.
* `not_marked_of_seek_eq_none`, `seek_eq_some`: a search over the characters, said of the bytes.
* `next?_eq_some_iff`, `next?_eq_none_iff`: the first mark from any offset on.
* `next?_eq_of_not_marked`: the search may start later where it passes no mark.
* `markAt?_reordered`: the order in which marks are tried does not matter.
* `nextHit?_by_occurrence`: all of this for keywords.
-/

namespace SqlClauses

open Text

/-! ## Boundaries as bytes -/

/-- The numbers of the boundaries, which are the same for characters and bytes. -/
def boundaryCodes : List Nat := [32, 9, 10, 12, 13, 40, 41]

theorem isBoundary_iff (c : Char) : isBoundary c = true ↔ c.toNat ∈ boundaryCodes := by
  simp [isBoundary, boundaryCodes, ← Char.toNat_inj, or_assoc]

theorem isBoundaryByte_iff (b : UInt8) : isBoundaryByte b = true ↔ b.toNat ∈ boundaryCodes := by
  simp [isBoundaryByte, boundaryCodes, ← UInt8.toNat_inj, or_assoc]

/-- The byte of a boundary is one, and no byte of another character is. -/
theorem isBoundaryByte_of_mem {c : Char} {b : UInt8} (h : b ∈ String.utf8EncodeChar c) :
    isBoundaryByte b = isBoundary c := by
  rw [Bool.eq_iff_iff, isBoundary_iff, isBoundaryByte_iff]
  rcases toNat_of_mem_utf8EncodeChar h with heq | ⟨hb, hc⟩
  · rw [heq]
  · have hlt : ∀ n ∈ boundaryCodes, n < 128 := by decide
    constructor
    · intro hmem
      exact absurd (hlt _ hmem) (Nat.not_lt.2 hb)
    · intro hmem
      exact absurd (hlt _ hmem) (Nat.not_lt.2 hc)

theorem head?_bytes_all (t : Text) :
    (bytes t).head?.all isBoundaryByte = closesBefore t := by
  cases t with
  | nil => rfl
  | cons c t =>
    obtain ⟨b, more, hb⟩ := List.exists_cons_of_ne_nil (String.utf8EncodeChar_ne_nil (c := c))
    have hmem : b ∈ String.utf8EncodeChar c := by simp [hb]
    rw [bytes_cons, hb]
    exact isBoundaryByte_of_mem hmem

theorem getLast?_bytes_all (t : Text) :
    (bytes t).getLast?.all isBoundaryByte = opensAfter t := by
  cases t using List.reverseRecOn with
  | nil => rfl
  | append_singleton t c =>
    have hne : String.utf8EncodeChar c ≠ [] := String.utf8EncodeChar_ne_nil
    have hbytes : bytes [c] = String.utf8EncodeChar c := by simp
    rw [bytes_append, hbytes, List.getLast?_append_of_ne_nil _ hne,
      List.getLast?_eq_some_getLast hne, opensAfter, List.getLast?_concat]
    exact isBoundaryByte_of_mem (List.getLast_mem hne)

theorem opensAfter_concat (t : Text) (c : Char) : opensAfter (t ++ [c]) = isBoundary c := by
  rw [opensAfter, List.getLast?_concat]
  rfl

theorem opensAfter_append (s : Text) {t : Text} (h : t ≠ []) :
    opensAfter (s ++ t) = opensAfter t := by
  rw [opensAfter, List.getLast?_append_of_ne_nil s h]
  rfl

variable {κ : Type} [Mark κ]

/-! ## Where a mark stands -/

/-- A mark stands between two characters, with its spelling behind. -/
theorem StandsAt.exists_split {text : Text} {start : Nat} {mark : κ}
    (h : StandsAt text start mark) :
    ∃ before rest, text = before ++ (Mark.spelling mark ++ rest) ∧ byteLength before = start :=
  exists_split_of_bytes_prefix (Mark.spelling_ne_nil mark) h.1

/-- A mark stands at the seam of two texts if it fits there. -/
theorem standsAt_append_iff {before behind : Text} {mark : κ} :
    StandsAt (before ++ behind) (byteLength before) mark ↔
      fits (opensAfter before) behind mark = true := by
  unfold StandsAt
  dsimp only
  rw [drop_bytes_append, take_bytes_append, bytes_prefix_iff, getLast?_bytes_all, fits_iff,
    length_bytes]
  constructor
  · rintro ⟨⟨rest, rfl⟩, hword⟩
    rw [← List.append_assoc, ← byteLength_append, drop_bytes_append, head?_bytes_all] at hword
    exact ⟨rest, rfl, hword⟩
  · rintro ⟨rest, rfl, hword⟩
    rw [← List.append_assoc, ← byteLength_append, drop_bytes_append, head?_bytes_all]
    exact ⟨List.prefix_append _ _, hword⟩

theorem StandsAt.stop_le {text : Text} {start : Nat} {mark : κ} (h : StandsAt text start mark) :
    start + byteLength (Mark.spelling mark) ≤ byteLength text := by
  obtain ⟨before, rest, rfl, rfl⟩ := h.exists_split
  simp only [byteLength_append]
  omega

/-- A mark stands nowhere at the end of a text or beyond it. -/
theorem Marked.lt_byteLength {text : Text} {start : Nat} (h : Marked κ text start) :
    start < byteLength text := by
  obtain ⟨mark, hmark⟩ := h
  exact Nat.lt_of_lt_of_le (Nat.lt_add_of_pos_right (byteLength_pos (Mark.spelling_ne_nil mark)))
    hmark.stop_le

theorem spanAt_start_lt_stop (start : Nat) (mark : κ) :
    (spanAt start mark).start < (spanAt start mark).stop :=
  Nat.lt_add_of_pos_right (byteLength_pos (Mark.spelling_ne_nil mark))

/-- Inside a character stands nothing. -/
theorem not_marked_inside {before rest : Text} {c : Char} {s : Nat} (hlow : byteLength before < s)
    (hhigh : s < byteLength before + c.utf8Size) : ¬ Marked κ (before ++ c :: rest) s := by
  rintro ⟨mark, h⟩
  obtain ⟨front, behind, hsplit, rfl⟩ := h.exists_split
  rcases cut_beside_char hsplit with hle | hle <;> omega

/-- A hit is the first place at `start` or behind it where a mark stands. -/
structure Hit.FirstFrom (text : Text) (start : Nat) (hit : Hit κ) : Prop where
  start_le : start ≤ hit.span.start
  stands : StandsAt text hit.span.start hit.mark
  span_eq : hit.span = spanAt hit.span.start hit.mark
  not_marked : ∀ s, start ≤ s → s < hit.span.start → ¬ Marked κ text s

namespace Hit.FirstFrom

variable {text : Text} {start : Nat} {hit : Hit κ}

theorem stop_eq (h : hit.FirstFrom text start) :
    hit.span.stop = hit.span.start + byteLength (Mark.spelling hit.mark) :=
  congrArg Span.stop h.span_eq

theorem start_lt_stop (h : hit.FirstFrom text start) : hit.span.start < hit.span.stop := by
  rw [h.span_eq]
  exact spanAt_start_lt_stop hit.span.start hit.mark

theorem stop_le (h : hit.FirstFrom text start) : hit.span.stop ≤ byteLength text := by
  rw [h.stop_eq]
  exact h.stands.stop_le

end Hit.FirstFrom

variable [TokenMark κ]

/-- At one place stands one mark at most. -/
theorem eq_of_standsAt {text : Text} {start : Nat} {a b : κ} (ha : StandsAt text start a)
    (hb : StandsAt text start b) : a = b := by
  rcases List.prefix_or_prefix_of_prefix ha.1 hb.1 with h | h
  · exact TokenMark.eq_of_prefix (bytes_prefix_iff.1 h)
  · exact (TokenMark.eq_of_prefix (bytes_prefix_iff.1 h)).symm

theorem not_marked_append_iff {before behind : Text} :
    ¬ Marked κ (before ++ behind) (byteLength before) ↔
      (markAt? (opensAfter before) behind : Option κ) = none := by
  simp only [Marked, not_exists, standsAt_append_iff, markAt?_eq_none_iff, Bool.not_eq_true]

/-- Where nothing fits, the search may go on behind the next character. -/
theorem not_marked_cons {before behind : Text} {c : Char} {s : Nat}
    (hnone : (markAt? (opensAfter before) (c :: behind) : Option κ) = none)
    (hs : byteLength before ≤ s)
    (hrest : byteLength (before ++ [c]) ≤ s → ¬ Marked κ (before ++ [c] ++ behind) s) :
    ¬ Marked κ (before ++ c :: behind) s := by
  have hlength : byteLength (before ++ [c]) = byteLength before + c.utf8Size := by simp
  by_cases hhere : s = byteLength before
  · rw [hhere]
    exact not_marked_append_iff.2 hnone
  · by_cases hinside : s < byteLength before + c.utf8Size
    · exact not_marked_inside (by omega) hinside
    · have hlater := hrest (by omega)
      rwa [List.append_assoc] at hlater

/-! ## The search -/

/-- A search without result has passed no mark. -/
theorem not_marked_of_seek_eq_none {before behind : Text}
    (h : (seek (opensAfter before) behind : Option (Found κ)) = none) {s : Nat}
    (hs : byteLength before ≤ s) : ¬ Marked κ (before ++ behind) s := by
  induction behind generalizing before with
  | nil =>
    intro hmarked
    have hlt := hmarked.lt_byteLength
    rw [List.append_nil] at hlt
    omega
  | cons c behind ih =>
    rw [seek] at h
    split at h
    · contradiction
    · next hnone =>
      rw [← opensAfter_concat before, Option.map_eq_none_iff] at h
      exact not_marked_cons hnone hs (ih h)

/-- A search stops at the first mark. -/
theorem seek_eq_some {before behind : Text} {found : Found κ}
    (h : seek (opensAfter before) behind = some found) :
    behind = found.lead ++ (Mark.spelling found.mark ++ found.rest) ∧
      StandsAt (before ++ behind) (byteLength (before ++ found.lead)) found.mark ∧
      ∀ s, byteLength before ≤ s → s < byteLength (before ++ found.lead) →
        ¬ Marked κ (before ++ behind) s := by
  induction behind generalizing before found with
  | nil => contradiction
  | cons c behind ih =>
    rw [seek] at h
    split at h
    · next mark hmark =>
      obtain rfl := Option.some.inj h
      have hfits := fits_of_markAt? hmark
      obtain ⟨rest, hrest⟩ := prefix_of_fits hfits
      rw [List.append_nil]
      refine ⟨?_, standsAt_append_iff.2 hfits, ?_⟩
      · rw [← hrest]
        simp
      · intro s hle hlt
        omega
    · next hnone =>
      obtain ⟨later, hlater, rfl⟩ := Option.map_eq_some_iff.1 h
      rw [← opensAfter_concat before] at hlater
      obtain ⟨hbehind, hstands, hfirst⟩ := ih hlater
      rw [List.append_assoc, List.append_assoc] at hstands
      refine ⟨?_, hstands, ?_⟩
      · rw [hbehind]
        rfl
      · intro s hle hlt
        refine not_marked_cons hnone hle fun hnext => hfirst s hnext ?_
        rw [List.append_assoc]
        exact hlt

/-! ## The first mark from an offset on -/

theorem Hit.FirstFrom.unique {text : Text} {start : Nat} {a b : Hit κ}
    (ha : a.FirstFrom text start) (hb : b.FirstFrom text start) : a = b := by
  have hle {a b : Hit κ} (ha : a.FirstFrom text start) (hb : b.FirstFrom text start) :
      a.span.start ≤ b.span.start := by
    by_contra hlt
    exact ha.not_marked _ hb.start_le (by omega) ⟨b.mark, hb.stands⟩
  have hstart : a.span.start = b.span.start := Nat.le_antisymm (hle ha hb) (hle hb ha)
  have hmark : a.mark = b.mark := eq_of_standsAt (hstart ▸ ha.stands) hb.stands
  have hspan : a.span = b.span := by rw [ha.span_eq, hb.span_eq, hstart, hmark]
  cases a
  cases b
  dsimp only at hmark hspan
  rw [hmark, hspan]

omit [TokenMark κ] in
/-- Nothing at `start` or behind it lies in front of where the search begins. -/
theorem le_of_marked {text : Text} {start s : Nat} (hs : start ≤ s) (h : Marked κ text s) :
    byteLength (splitFrom start text).1 ≤ s := by
  obtain ⟨mark, hmark⟩ := h
  obtain ⟨before, rest, rfl, rfl⟩ := hmark.exists_split
  obtain ⟨more, hmore⟩ := splitFrom_prefix (t := Mark.spelling mark ++ rest) hs
  have hlength := congrArg byteLength hmore
  rw [byteLength_append] at hlength
  omega

theorem Hit.not_marked_of_next?_eq_none {text : Text} {start : Nat}
    (h : (Hit.next? text start : Option (Hit κ)) = none) {s : Nat} (hs : start ≤ s) :
    ¬ Marked κ text s := by
  intro hmarked
  have hseek := Option.map_eq_none_iff.1 h
  have hnone := not_marked_of_seek_eq_none hseek (le_of_marked hs hmarked)
  rw [splitFrom_append] at hnone
  exact hnone hmarked

theorem Hit.firstFrom_of_next?_eq_some {text : Text} {start : Nat} {hit : Hit κ}
    (h : Hit.next? text start = some hit) : hit.FirstFrom text start := by
  obtain ⟨found, hseek, rfl⟩ := Option.map_eq_some_iff.1 h
  obtain ⟨hbehind, hstands, hfirst⟩ := seek_eq_some hseek
  rw [splitFrom_append, byteLength_append] at hstands hfirst
  refine ⟨?_, hstands, rfl, ?_⟩
  · rcases le_byteLength_splitFrom start text with hle | hnil
    · exact Nat.le_add_right_of_le hle
    · rw [hnil] at hbehind
      have hspelling := (List.append_eq_nil_iff.1 (List.append_eq_nil_iff.1 hbehind.symm).2).1
      exact absurd hspelling (Mark.spelling_ne_nil found.mark)
  · intro s hle hlt hmarked
    exact hfirst s (le_of_marked hle hmarked) hlt hmarked

/-- The search finds the first mark, and nothing else. -/
theorem Hit.next?_eq_some_iff {text : Text} {start : Nat} {hit : Hit κ} :
    Hit.next? text start = some hit ↔ hit.FirstFrom text start := by
  refine ⟨firstFrom_of_next?_eq_some, ?_⟩
  intro hfirst
  cases hnext : (Hit.next? text start : Option (Hit κ)) with
  | none =>
    have hnone := not_marked_of_next?_eq_none hnext hfirst.start_le
    exact absurd ⟨hit.mark, hfirst.stands⟩ hnone
  | some other => rw [(firstFrom_of_next?_eq_some hnext).unique hfirst]

/-- It finds nothing only where no mark is left. -/
theorem Hit.next?_eq_none_iff {text : Text} {start : Nat} :
    (Hit.next? text start : Option (Hit κ)) = none ↔ ∀ s, start ≤ s → ¬ Marked κ text s := by
  constructor
  · intro h s hs
    exact not_marked_of_next?_eq_none h hs
  · intro h
    cases hnext : (Hit.next? text start : Option (Hit κ)) with
    | none => rfl
    | some hit =>
      have hfirst := firstFrom_of_next?_eq_some hnext
      exact absurd ⟨hit.mark, hfirst.stands⟩ (h _ hfirst.start_le)

/-- A search ends where a mark stands. -/
theorem StandsAt.next?_eq {text : Text} {start : Nat} {mark : κ} (h : StandsAt text start mark) :
    Hit.next? text start = some ⟨mark, spanAt start mark⟩ := by
  refine Hit.next?_eq_some_iff.2 ⟨Nat.le_refl start, h, rfl, ?_⟩
  intro s hle hlt
  exact absurd hlt (Nat.not_lt.2 hle)

/-- Where no mark stands between two offsets, it does not matter from which one the search starts. -/
theorem Hit.next?_eq_of_not_marked {text : Text} {start later : Nat} (hle : start ≤ later)
    (h : ∀ s, start ≤ s → s < later → ¬ Marked κ text s) :
    (Hit.next? text start : Option (Hit κ)) = Hit.next? text later := by
  cases hnext : (Hit.next? text later : Option (Hit κ)) with
  | none =>
    apply Hit.next?_eq_none_iff.2
    intro s hs
    by_cases hlater : s < later
    · exact h s hs hlater
    · exact Hit.next?_eq_none_iff.1 hnext s (Nat.le_of_not_lt hlater)
  | some hit =>
    obtain ⟨hstart, hstands, hspan, hfirst⟩ := Hit.next?_eq_some_iff.1 hnext
    refine Hit.next?_eq_some_iff.2 ⟨Nat.le_trans hle hstart, hstands, hspan, ?_⟩
    intro s hs hlt
    by_cases hlater : s < later
    · exact h s hs hlater
    · exact hfirst s (Nat.le_of_not_lt hlater) hlt

/-! ## The order of the candidates -/

omit [TokenMark κ] in
variable (κ) in
/-- The same marks, tried in the order of another table. -/
@[reducible] def Mark.reordered (table : List κ) : Mark κ :=
  { (inferInstance : Mark κ) with candidates := table }

/-- If no two elements of a list pass a test, the order of the list does not matter. -/
theorem find?_eq_of_perm {α : Type} {p : α → Bool} {xs ys : List α} (h : xs.Perm ys)
    (hunique : ∀ a b, p a = true → p b = true → a = b) : xs.find? p = ys.find? p := by
  cases hx : xs.find? p with
  | none =>
    symm
    rw [List.find?_eq_none] at hx ⊢
    intro y hy
    exact hx y (h.mem_iff.2 hy)
  | some x =>
    have hmem : x ∈ ys := h.mem_iff.1 (List.mem_of_find?_eq_some hx)
    have hsome : (ys.find? p).isSome = true := List.find?_isSome.2 ⟨x, hmem, List.find?_some hx⟩
    obtain ⟨y, hy⟩ := Option.isSome_iff_exists.1 hsome
    rw [hy, hunique x y (List.find?_some hx) (List.find?_some hy)]

theorem markAt?_reordered {table : List κ} (h : table.Perm Mark.candidates) (opens : Bool)
    (text : Text) : @markAt? κ (Mark.reordered κ table) opens text = markAt? opens text := by
  have hunique : ∀ a b : κ, fits opens text a = true → fits opens text b = true → a = b :=
    fun _ _ ha hb => eq_of_fits ha hb
  exact find?_eq_of_perm h hunique

theorem seek_reordered {table : List κ} (h : table.Perm Mark.candidates) (opens : Bool)
    (text : Text) : @seek κ (Mark.reordered κ table) opens text = seek opens text := by
  induction text generalizing opens with
  | nil => rfl
  | cons c text ih =>
    unfold seek
    rw [markAt?_reordered h, ih]
    rfl

theorem scan_reordered {table : List κ} (h : table.Perm Mark.candidates) (opens : Bool)
    (skip : Nat) (text : Text) :
    @Cut.scan κ (Mark.reordered κ table) opens skip text = Cut.scan opens skip text := by
  induction text generalizing opens skip with
  | nil => rfl
  | cons c text ih =>
    cases skip with
    | succ skip => exact ih _ _
    | zero =>
      unfold Cut.scan
      rw [markAt?_reordered h, ih]
      cases (markAt? opens (c :: text) : Option κ) with
      | none => rfl
      | some mark => exact congrArg (Cut.pushMark mark) (ih _ _)

theorem next?_reordered {table : List κ} (h : table.Perm Mark.candidates) (text : Text)
    (start : Nat) : @Hit.next? κ (Mark.reordered κ table) text start = Hit.next? text start := by
  unfold Hit.next?
  exact congrArg (Option.map _) (seek_reordered h _ _)

theorem hits_reordered {table : List κ} (h : table.Perm Mark.candidates) (text : Text) :
    @Cut.hits κ (Mark.reordered κ table) (@Cut.ofText κ (Mark.reordered κ table) text) =
      (Cut.ofText text).hits := by
  have hcut : @Cut.ofText κ (Mark.reordered κ table) text = Cut.ofText text :=
    scan_reordered h true 0 text
  have hlocate (start : Nat) (pieces : List (Piece κ)) :
      @Cut.locate κ (Mark.reordered κ table) start pieces = Cut.locate start pieces := by
    induction pieces generalizing start with
    | nil => rfl
    | cons piece pieces ih => exact congrArg (List.cons _) (ih _)
  rw [hcut]
  exact congrArg (List.map Section.toHit) (hlocate _ _)

/-! ## Keywords -/

/-- The next keyword is the one that stands at the first byte, from the start on, where any does,
and there is none only if no keyword stands anywhere from there on. Two keywords never stand at one
byte, so it does not matter in which order they are tried. -/
theorem nextHit?_by_occurrence (text : Text) (start : Nat) :
    (∀ hit, Keyword.nextHit? text start = some hit ↔
      start ≤ hit.span.start ∧ StandsAt text hit.span.start hit.mark ∧
        hit.span.stop = hit.span.start + byteLength hit.mark.spelling ∧
        (∀ s, start ≤ s → s < hit.span.start → ¬ Marked Keyword text s) ∧
        ∀ keyword : Keyword, StandsAt text hit.span.start keyword →
          byteLength keyword.spelling ≤ byteLength hit.mark.spelling) ∧
    (Keyword.nextHit? text start = none ↔ ∀ s, start ≤ s → ¬ Marked Keyword text s) ∧
    (∀ (s : Nat) (first second : Keyword),
      StandsAt text s first → StandsAt text s second → first = second) ∧
    ∀ table : List Keyword, table.Perm Keyword.byLength →
      letI := Mark.reordered Keyword table
      Hit.next? text start = Keyword.nextHit? text start ∧
        (Cut.ofText text).hits = Keyword.hits text := by
  refine ⟨fun hit => ?_, Hit.next?_eq_none_iff, fun s first second => eq_of_standsAt, ?_⟩
  · constructor
    · intro h
      have hfirst := Hit.next?_eq_some_iff.1 h
      refine ⟨hfirst.start_le, hfirst.stands, hfirst.stop_eq, hfirst.not_marked, ?_⟩
      intro keyword hkeyword
      rw [eq_of_standsAt hkeyword hfirst.stands]
    · rintro ⟨hstart, hstands, hstop, hfirst, -⟩
      refine Hit.next?_eq_some_iff.2 ⟨hstart, hstands, ?_, hfirst⟩
      rw [spanAt]
      show hit.span = ⟨hit.span.start, hit.span.start + byteLength hit.mark.spelling⟩
      rw [← hstop]
  · intro table htable
    exact ⟨next?_reordered htable text start, hits_reordered htable text⟩

/-- A search from inside a word passes a character of two bytes and stops at the keyword of two
words that is closed by a parenthesis, not at the word that ends it; none is left behind the
parenthesis. -/
theorem nextHit?_by_occurrence_values :
    let text := "FROM é\tLEFT JOIN(b".toList
    StandsAt text 8 Keyword.leftJoin ∧ (∀ s, 1 ≤ s → s < 8 → ¬ Marked Keyword text s) ∧
      (∀ keyword : Keyword, StandsAt text 8 keyword → keyword = .leftJoin) ∧
      (∀ s, 18 ≤ s → ¬ Marked Keyword text s) ∧
      @Hit.next? Keyword (Mark.reordered Keyword Keyword.byLength.reverse) text 1 =
        some ⟨.leftJoin, ⟨8, 17⟩⟩ := by
  intro text
  have hhit : Keyword.nextHit? text 1 = some ⟨.leftJoin, ⟨8, 17⟩⟩ := by decide +kernel
  obtain ⟨hsome, -, hunique, htable⟩ := nextHit?_by_occurrence text 1
  obtain ⟨-, hstands, -, hfirst, -⟩ := (hsome _).1 hhit
  refine ⟨hstands, hfirst, fun keyword h => hunique 8 _ _ h hstands, ?_, ?_⟩
  · exact (nextHit?_by_occurrence text 18).2.1.1 (by decide +kernel)
  · exact (htable _ (List.reverse_perm _)).1.trans hhit

end SqlClauses
