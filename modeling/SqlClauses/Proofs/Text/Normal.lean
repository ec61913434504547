import Mathlib.Data.List.TakeWhile
import SqlClauses.Proofs.Text.Words

/-!
# Normal texts: laws

A normal text has single spaces for blanks, and none at its ends. The two halves are kept apart here
because a piece cut out of a normal text keeps the first one, and gets the second one back when it
is trimmed.

* `isNormal_iff`: the one-pass check finds exactly the texts of this form.
* `unwords_words`: a normal text is its words with single spaces between them.
* `normalize_eq`: whichever way `normalize` takes, this is what it returns.
* `trim_eq_unwords`: the same holds of a piece of a normal text, once it is trimmed.
-/

namespace SqlClauses.Text

/-- A text whose blanks are spaces, no two of them side by side. -/
def Spaced (t : Text) : Prop :=
  (∀ c ∈ t, isBlank c = true → c = ' ') ∧
    t.IsChain fun c d => ¬(isBlank c = true ∧ isBlank d = true)

/-- A text without a blank at either end. -/
def Trimmed (t : Text) : Prop :=
  (∀ c ∈ t.head?, isBlank c = false) ∧ ∀ c ∈ t.getLast?, isBlank c = false

theorem Trimmed.append_cons {s t : Text} {c : Char} (hs : Trimmed s) (ht : Trimmed t)
    (hc : isBlank c = false) : Trimmed (s ++ c :: t) := by
  constructor
  · intro d hd
    cases s with
    | nil =>
      obtain rfl : c = d := by simpa using hd
      exact hc
    | cons e s => exact hs.1 d (by simpa using hd)
  · intro d hd
    rw [List.getLast?_append_of_ne_nil s (by simp)] at hd
    cases t with
    | nil =>
      obtain rfl : c = d := by simpa using hd
      exact hc
    | cons e t => exact ht.2 d (by simpa using hd)

/-! ## Spaced texts -/

theorem Spaced.of_isInfix {s t : Text} (h : Spaced t) (hst : s <:+: t) : Spaced s :=
  ⟨fun c hc => h.1 c (hst.subset hc), List.IsChain.infix h.2 hst⟩

/-- A visible character keeps the blanks on both sides apart. -/
theorem Spaced.append_cons {s t : Text} {c : Char} (hs : Spaced s) (ht : Spaced t)
    (hc : isBlank c = false) : Spaced (s ++ c :: t) := by
  constructor
  · intro d hd hblank
    rcases List.mem_append.1 hd with hd | hd
    · exact hs.1 d hd hblank
    · rcases List.mem_cons.1 hd with rfl | hd
      · simp [hc] at hblank
      · exact ht.1 d hd hblank
  · refine hs.2.append (ht.2.cons fun d _ => ?_) fun d _ e he => ?_
    · simp [hc]
    · obtain rfl : c = e := by simpa using he
      simp [hc]

theorem spaced_cons_of_not_blank {t : Text} {c : Char} (hc : isBlank c = false) :
    Spaced (c :: t) ↔ Spaced t :=
  ⟨fun h => h.of_isInfix (List.suffix_cons c t).isInfix,
    fun h => Spaced.append_cons ⟨by simp, .nil⟩ h hc⟩

theorem spaced_cons_of_blank {t : Text} {c : Char} (hc : isBlank c = true) :
    Spaced (c :: t) ↔ c = ' ' ∧ Spaced t ∧ ∀ d ∈ t.head?, isBlank d = false := by
  constructor
  · intro h
    refine ⟨h.1 c (by simp) hc, h.of_isInfix (List.suffix_cons c t).isInfix, fun d hd => ?_⟩
    have := (List.isChain_cons.1 h.2).1 d hd
    simpa [hc] using this
  · rintro ⟨rfl, ht, hhead⟩
    refine ⟨fun d hd hblank => ?_, ht.2.cons fun d hd => by simp [hhead d hd]⟩
    rcases List.mem_cons.1 hd with rfl | hd
    · rfl
    · exact ht.1 d hd hblank

/-! ## The one-pass check -/

/-- What the check has still to see of a text, behind a blank or behind a visible character. -/
theorem isNormalFrom_iff (afterBlank : Bool) (t : Text) :
    isNormalFrom afterBlank t = true ↔
      Spaced t ∧ (∀ c ∈ t.getLast?, isBlank c = false) ∧
        (afterBlank = true → t ≠ [] ∧ ∀ c ∈ t.head?, isBlank c = false) := by
  induction t generalizing afterBlank with
  | nil => cases afterBlank <;> simp [isNormalFrom, Spaced]
  | cons c t ih =>
    cases hc : isBlank c with
    | false =>
      rw [isNormalFrom, hc, if_neg (by simp), ih, spaced_cons_of_not_blank hc]
      cases t <;> simp [hc]
    | true =>
      rw [isNormalFrom, hc, if_pos rfl, Bool.and_eq_true, Bool.and_eq_true, ih,
        spaced_cons_of_blank hc]
      cases t with
      | nil => simp [hc]
      | cons d t => grind

/-- The check finds the texts whose blanks are single spaces, none of them at an end. -/
theorem isNormal_iff (t : Text) : isNormal t = true ↔ Spaced t ∧ Trimmed t := by
  cases t with
  | nil => simp [isNormal, Spaced, Trimmed]
  | cons c t =>
    simp only [isNormal, List.isEmpty_cons, Bool.false_or, isNormalFrom_iff, Trimmed]
    simp [and_comm]

theorem spaced_of_isNormal {t : Text} (h : isNormal t = true) : Spaced t := ((isNormal_iff t).1 h).1

/-! ## Trimming -/

/-- Trimming takes blanks off both ends, and nothing else. -/
theorem exists_eq_append_trim (t : Text) :
    ∃ front back : Text, t = front ++ trim t ++ back ∧
      (∀ c ∈ front, isBlank c = true) ∧ ∀ c ∈ back, isBlank c = true := by
  refine ⟨t.takeWhile isBlank, ((trimFront t).reverse.takeWhile isBlank).reverse, ?_, ?_, ?_⟩
  · have hback : trim t ++ ((trimFront t).reverse.takeWhile isBlank).reverse = trimFront t := by
      rw [trim, trimBack, ← List.reverse_append, List.takeWhile_append_dropWhile,
        List.reverse_reverse]
    rw [List.append_assoc, hback, trimFront, List.takeWhile_append_dropWhile]
  · exact fun c hc => List.all_eq_true.1 List.all_takeWhile c hc
  · exact fun c hc => List.all_eq_true.1 List.all_takeWhile c (List.mem_reverse.1 hc)

theorem not_mem_of_blanks {c : Char} (hc : isBlank c = false) {gap : Text}
    (hgap : ∀ d ∈ gap, isBlank d = true) : c ∉ gap :=
  fun hmem => absurd (hgap c hmem) (by simp [hc])

/-- A visible character is trimmed off nowhere. -/
theorem count_trim {c : Char} (hc : isBlank c = false) (t : Text) :
    (trim t).count c = t.count c := by
  obtain ⟨front, back, h, hfront, hback⟩ := exists_eq_append_trim t
  have hzero := List.count_eq_zero.2 (not_mem_of_blanks hc hfront)
  have hzero' := List.count_eq_zero.2 (not_mem_of_blanks hc hback)
  conv_rhs => rw [h, List.count_append, List.count_append, hzero, hzero']
  omega

theorem isInfix_trim (t : Text) : trim t <:+: t := by
  obtain ⟨front, back, h, -⟩ := exists_eq_append_trim t
  exact ⟨front, back, h.symm⟩

theorem not_blank_head?_dropWhile (t : Text) :
    ∀ c ∈ (t.dropWhile isBlank).head?, isBlank c = false := by
  intro c hc
  have h := List.head?_dropWhile_not isBlank t
  rw [Option.mem_def.1 hc] at h
  simpa using h

theorem trimmed_trim (t : Text) : Trimmed (trim t) := by
  constructor
  · intro c hc
    have hbegins : trim t <+: trimFront t := by
      rw [trim, trimBack, ← List.reverse_suffix, List.reverse_reverse]
      exact List.dropWhile_suffix isBlank
    obtain ⟨back, hback⟩ := hbegins
    refine not_blank_head?_dropWhile t c ?_
    rw [← trimFront, ← hback, List.head?_append, Option.mem_def.1 hc]
    rfl
  · intro c hc
    rw [trim, trimBack, List.getLast?_reverse] at hc
    exact not_blank_head?_dropWhile _ c hc

theorem dropWhile_isBlank_eq_self {t : Text} (h : ∀ c ∈ t.head?, isBlank c = false) :
    t.dropWhile isBlank = t := by
  cases t with
  | nil => rfl
  | cons c t =>
    have hc : isBlank c = false := h c rfl
    exact List.dropWhile_cons_of_neg (by simp [hc])

theorem trim_of_trimmed {t : Text} (h : Trimmed t) : trim t = t := by
  have hback : t.reverse.dropWhile isBlank = t.reverse :=
    dropWhile_isBlank_eq_self (by simpa using h.2)
  rw [trim, trimFront, dropWhile_isBlank_eq_self h.1, trimBack, hback, List.reverse_reverse]

theorem trim_eq_self_iff (t : Text) : trim t = t ↔ Trimmed t :=
  ⟨fun h => h ▸ trimmed_trim t, trim_of_trimmed⟩

/-- Blanks in front of a text are trimmed off. -/
theorem trim_blanks_append {gap : Text} (hgap : ∀ c ∈ gap, isBlank c = true) (t : Text) :
    trim (gap ++ t) = trim t := by
  rw [trim, trimFront, List.dropWhile_append_of_pos hgap]
  rfl

theorem trimBack_append_blanks {gap : Text} (hgap : ∀ c ∈ gap, isBlank c = true) (t : Text) :
    trimBack (t ++ gap) = trimBack t := by
  have hreverse : ∀ c ∈ gap.reverse, isBlank c = true := fun c hc => hgap c (List.mem_reverse.1 hc)
  rw [trimBack, List.reverse_append, List.dropWhile_append_of_pos hreverse]
  rfl

/-- So are blanks behind it. -/
theorem trim_append_blanks {gap : Text} (hgap : ∀ c ∈ gap, isBlank c = true) (t : Text) :
    trim (t ++ gap) = trim t := by
  rw [trim, trimFront, List.dropWhile_append]
  split
  · next hempty =>
    rw [List.dropWhile_eq_nil_iff.2 hgap, trim, trimFront, List.isEmpty_iff.1 hempty]
  · exact trimBack_append_blanks hgap _

@[simp] theorem words_trim (t : Text) : words (trim t) = words t := by
  obtain ⟨front, back, h, hfront, hback⟩ := exists_eq_append_trim t
  conv_rhs => rw [h]
  rw [words_append_blanks hback, words_blanks_append hfront]

/-! ## Words make up a normal text -/

theorem splitOnP_isBlank_of_spaced {t : Text} (h : ∀ c ∈ t, isBlank c = true → c = ' ') :
    t.splitOnP isBlank = t.splitOn ' ' := by
  induction t with
  | nil => rfl
  | cons c t ih =>
    have hc : isBlank c = (c == ' ') := by
      by_cases hspace : c = ' '
      · simp [hspace, isBlank_space]
      · have hblank : isBlank c = false := Bool.eq_false_iff.2 fun hb => hspace (h c (by simp) hb)
        simp [hspace, hblank]
    rw [List.splitOnP_cons_eq_if_modifyHead, List.splitOn_cons_eq_if_modifyHead, hc,
      ih fun d hd => h d (by simp [hd])]

/-- Between the spaces of a normal text there is always something, but for the piece that is still
open at its front. -/
theorem ne_nil_of_mem_splitOn {afterBlank : Bool} {t : Text}
    (h : isNormalFrom afterBlank t = true) :
    (∀ piece ∈ (t.splitOn ' ').tail, piece ≠ []) ∧
      (afterBlank = true → ∀ piece ∈ t.splitOn ' ', piece ≠ []) := by
  induction t generalizing afterBlank with
  | nil => cases afterBlank <;> simp_all [isNormalFrom]
  | cons c t ih =>
    rw [isNormalFrom] at h
    rw [List.splitOn_cons_eq_if_modifyHead]
    cases hc : isBlank c with
    | true =>
      simp only [hc, if_true, Bool.and_eq_true, Bool.not_eq_true', beq_iff_eq] at h
      obtain ⟨⟨hfront, rfl⟩, hrest⟩ := h
      simpa [hfront] using (ih hrest).2 rfl
    | false =>
      have hspace : (c == ' ') = false := by
        rw [beq_eq_false_iff_ne]
        rintro rfl
        simp [isBlank_space] at hc
      rw [hc, if_neg (by simp)] at h
      have htail := (ih h).1
      cases hpieces : t.splitOn ' ' with
      | nil => simp [hspace]
      | cons first others => simp_all

/-- A normal text is its words with single spaces between them. -/
theorem unwords_words {t : Text} (h : isNormal t = true) : unwords (words t) = t := by
  have hblank := ((isNormal_iff t).1 h).1.1
  cases t with
  | nil => rfl
  | cons c t =>
    have hne : ∀ piece ∈ (c :: t).splitOn ' ', piece ≠ [] := by
      rw [isNormal, List.isEmpty_cons, Bool.false_or] at h
      exact (ne_nil_of_mem_splitOn h).2 rfl
    rw [words, splitOnP_isBlank_of_spaced hblank, List.filter_eq_self.2 fun piece hp => by
      simpa using hne piece hp]
    exact List.intercalate_splitOn ' '

theorem isNormalFrom_append {w : Text} (hw : IsWord w) (afterBlank : Bool) (t : Text) :
    isNormalFrom afterBlank (w ++ t) = isNormalFrom false t := by
  obtain ⟨hne, hblank⟩ := hw
  induction w generalizing afterBlank with
  | nil => exact absurd rfl hne
  | cons c w ih =>
    rw [List.cons_append, isNormalFrom, hblank c (by simp), if_neg (by simp)]
    cases w with
    | nil => rfl
    | cons d w => exact ih false (by simp) fun e he => hblank e (by simp [he])

/-- Words with single spaces between them make a normal text. -/
theorem isNormal_unwords {ws : List Text} (h : ∀ w ∈ ws, IsWord w) :
    isNormal (unwords ws) = true := by
  suffices hfrom : ws ≠ [] → isNormalFrom true (unwords ws) = true by
    cases ws with
    | nil => rfl
    | cons w ws => simp [isNormal, hfrom]
  intro hne
  induction ws with
  | nil => exact absurd rfl hne
  | cons w ws ih =>
    cases ws with
    | nil =>
      rw [unwords_singleton, ← List.append_nil w, isNormalFrom_append (h w (by simp))]
      rfl
    | cons v ws =>
      rw [unwords_cons_cons, isNormalFrom_append (h w (by simp)), isNormalFrom, isBlank_space,
        ih (fun u hu => h u (by simp [hu])) (by simp)]
      rfl

/-- What normal form is, by either way through `normalize`. -/
theorem normalize_eq (t : Text) : normalize t = unwords (words t) := by
  rw [normalize]
  split
  · next h => exact (unwords_words h).symm
  · rfl

theorem isNormal_normalize (t : Text) : isNormal (normalize t) = true := by
  rw [normalize_eq]
  exact isNormal_unwords isWord_of_mem_words

theorem spaced_normalize (t : Text) : Spaced (normalize t) :=
  spaced_of_isNormal (isNormal_normalize t)

theorem normalize_eq_self_iff (t : Text) : normalize t = t ↔ isNormal t = true := by
  constructor
  · intro h
    rw [← h]
    exact isNormal_normalize t
  · intro h
    rw [normalize, if_pos h]

@[simp] theorem words_normalize (t : Text) : words (normalize t) = words t := by
  rw [normalize_eq]
  exact words_unwords isWord_of_mem_words

/-- A space cuts the normal form of a text, if there is something on either side. -/
theorem normalize_append_space {s t : Text} (hs : normalize s ≠ []) (ht : normalize t ≠ []) :
    normalize (s ++ ' ' :: t) = normalize s ++ ' ' :: normalize t := by
  have hne {u : Text} (hu : normalize u ≠ []) : words u ≠ [] := fun h => hu (by
    rw [normalize_eq, h, unwords_nil])
  simp only [normalize_eq, words_append_cons _ _ isBlank_space]
  exact unwords_append (hne hs) (hne ht)

theorem normalize_append_space_of_nil {s : Text} (h : normalize s = []) (t : Text) :
    normalize (s ++ ' ' :: t) = normalize t := by
  have hwords : words s = [] := by rw [← words_normalize, h, words_nil]
  rw [normalize_eq, words_append_cons _ _ isBlank_space, hwords, List.nil_append, normalize_eq]

/-- A piece of a normal text is normal once it is trimmed. -/
theorem isNormal_trim {t : Text} (h : Spaced t) : isNormal (trim t) = true :=
  (isNormal_iff _).2 ⟨h.of_isInfix (isInfix_trim t), trimmed_trim t⟩

/-- Normal texts with a visible character between them make a normal text. -/
theorem isNormal_append_cons {s t : Text} {c : Char} (hs : isNormal s = true)
    (ht : isNormal t = true) (hc : isBlank c = false) : isNormal (s ++ c :: t) = true := by
  rw [isNormal_iff] at hs ht ⊢
  exact ⟨hs.1.append_cons ht.1 hc, hs.2.append_cons ht.2 hc⟩

theorem isNormal_intercalate {c : Char} (hc : isBlank c = false) {pieces : List Text}
    (h : ∀ piece ∈ pieces, isNormal piece = true) : isNormal ([c].intercalate pieces) = true := by
  induction pieces with
  | nil => rfl
  | cons piece pieces ih =>
    cases pieces with
    | nil => simpa using h piece (by simp)
    | cons next pieces =>
      rw [List.intercalate_cons_cons, List.append_assoc, List.singleton_append]
      exact isNormal_append_cons (h piece (by simp)) (ih fun p hp => h p (by simp [hp])) hc

theorem trim_eq_unwords {t : Text} (h : Spaced t) : trim t = unwords (words t) := by
  rw [← words_trim, unwords_words (isNormal_trim h)]

end SqlClauses.Text
