import SqlClauses.Proofs.Rendering

/-!
# Texts one behind the other

A text that is put behind another is cut as it is on its own, unless a mark begins in the one and
ends in the other. With a space between them this takes a mark of two words, and what it takes can
be told from the tokens that meet. So the clauses of a query that follows another one are those of
the two, where the second has been moved.

* `scan_append_of_seam`: a text is cut like its two parts where no mark reaches over the seam.
* `seam_of_apart`: none does if the tokens that meet at a space make up no mark.
* `listFrom_append`: the clauses of the two parts.
* `parse_append`: the same of two queries, and what they say together.
-/

namespace SqlClauses

open Text

variable {κ : Type}

/-! ## Cuts one behind the other -/

namespace Cut

/-- A cut behind another one. What stands before its first mark goes to the last gap in front. -/
def append (front back : Cut κ) : Cut κ :=
  pushAll front.lead
    (front.pieces.foldr (fun piece cut => pushMark piece.mark (pushAll piece.tail cut)) back)

theorem append_push (c : Char) (front back : Cut κ) :
    append (push c front) back = push c (append front back) := rfl

theorem append_pushMark (mark : κ) (front back : Cut κ) :
    append (pushMark mark front) back = pushMark mark (append front back) := rfl

theorem append_cons (lead : Text) (piece : Piece κ) (pieces : List (Piece κ)) (back : Cut κ) :
    append ⟨lead, piece :: pieces⟩ back =
      ⟨lead, (pushMark piece.mark (append ⟨piece.tail, pieces⟩ back)).pieces⟩ := by
  simp [append, pushAll, pushMark]

/-- What stands before the first mark, up to the blanks between the texts. -/
theorem trim_lead_append (front : Cut κ) {back : Cut κ}
    (hback : ∀ c ∈ back.lead, isBlank c = true) :
    trim (append front back).lead = trim front.lead := by
  obtain ⟨lead, pieces⟩ := front
  cases pieces with
  | nil => exact trim_append_blanks hback lead
  | cons piece pieces => rw [append_cons]

end Cut

variable [Mark κ]

/-! ## The seam -/

/-- Whether a token can start behind a text, where `opens` tells the same of its front. -/
def opensBehind (opens : Bool) (before : Text) : Bool := (before.getLast?.map isBoundary).getD opens

theorem opensBehind_cons (opens : Bool) (c : Char) (t : Text) :
    opensBehind opens (c :: t) = opensBehind (isBoundary c) t := by
  cases t with
  | nil => rfl
  | cons d t =>
    rw [opensBehind, opensBehind, List.getLast?_cons_cons, List.getLast?_cons]
    rfl

/-- A text can stop where another one begins, and no mark that begins in the first goes on in the
second. -/
structure Seam (κ : Type) [Mark κ] (opens : Bool) (front back : Text) : Prop where
  closes : closesBefore back = true
  within : ∀ (before part : Text) (mark : κ), front = before ++ part → part ≠ [] →
    fits (opensBehind opens before) (part ++ back) mark = true →
      (Mark.spelling mark).length ≤ part.length

theorem Seam.of_cons {opens : Bool} {c : Char} {front back : Text}
    (h : Seam κ opens (c :: front) back) : Seam κ (isBoundary c) front back where
  closes := h.closes
  within before part mark hfront hne hfits := by
    refine h.within (c :: before) part mark (by rw [hfront]; rfl) hne ?_
    rwa [opensBehind_cons]

theorem closesBefore_append {s t : Text} (ht : closesBefore t = true) :
    closesBefore (s ++ t) = closesBefore s := by
  cases s with
  | nil => exact ht
  | cons c s => rfl

/-- A mark that does not reach over the seam fits in the whole text just as in its first part. -/
theorem fits_append_iff {opens : Bool} {part back : Text} (hback : closesBefore back = true)
    (mark : κ) :
    fits opens part mark = true ↔
      fits opens (part ++ back) mark = true ∧ (Mark.spelling mark).length ≤ part.length := by
  constructor
  · intro h
    obtain ⟨rest, rfl, hword⟩ := fits_iff.1 h
    refine ⟨fits_iff.2 ⟨rest ++ back, List.append_assoc .., ?_⟩, by simp⟩
    rwa [closesBefore_append hback]
  · rintro ⟨h, hlength⟩
    obtain ⟨rest, htext, hword⟩ := fits_iff.1 h
    obtain ⟨extra, rfl⟩ : Mark.spelling mark <+: part :=
      List.prefix_of_prefix_length_le ⟨rest, htext.symm⟩ (List.prefix_append part back) hlength
    rw [List.append_assoc, List.append_cancel_left_eq] at htext
    rw [← htext, closesBefore_append hback] at hword
    exact fits_iff.2 ⟨extra, rfl, hword⟩

theorem Seam.markAt?_append {opens : Bool} {front back : Text} (h : Seam κ opens front back)
    (hne : front ≠ []) : (markAt? opens (front ++ back) : Option κ) = markAt? opens front := by
  have hfits : fits (κ := κ) opens (front ++ back) = fits opens front := by
    funext mark
    refine Bool.eq_iff_iff.2 (Iff.trans ?_ (fits_append_iff h.closes mark).symm)
    exact (and_iff_left_of_imp fun hfits => h.within [] front mark rfl hne hfits).symm
  rw [markAt?, hfits, markAt?]

/-- Where no mark reaches over the seam, a text is cut like its two parts. -/
theorem Cut.scan_append_of_seam {opens : Bool} {skip : Nat} {front back : Text}
    (h : Seam κ opens front back) (hskip : skip ≤ front.length) :
    (scan opens skip (front ++ back) : Cut κ) =
      append (scan opens skip front) (scan (opensBehind opens front) 0 back) := by
  induction front generalizing opens skip with
  | nil =>
    obtain rfl : skip = 0 := by simpa using hskip
    rfl
  | cons c front ih =>
    rw [opensBehind_cons]
    cases skip with
    | succ skip =>
      rw [List.cons_append, scan, scan]
      exact ih h.of_cons (by simpa using hskip)
    | zero =>
      have hmark := h.markAt?_append (by simp)
      rw [List.cons_append] at hmark ⊢
      rw [scan, scan, hmark]
      cases hat : (markAt? opens (c :: front) : Option κ) with
      | none =>
        simp only [append_push]
        rw [ih h.of_cons (by omega)]
      | some mark =>
        have hlength := (prefix_of_fits (fits_of_markAt? hat)).length_le
        simp only [append_pushMark]
        rw [ih h.of_cons (by simpa using hlength)]

/-! ## A space between the texts -/

variable [TokenMark κ]

theorem isBreak_getLast?_of_opensBehind {t : Text} (h : opensBehind true t = true) :
    t.getLast?.all isBreak = true := by
  cases hlast : t.getLast? with
  | none => rfl
  | some c => exact isBreak_of_isBoundary (by simpa [opensBehind, hlast] using h)

/-- At a space only a mark of two words could reach over the seam, and that is told from the tokens
that meet there. -/
theorem seam_of_apart {front back : Text} (h : Apart κ (tokens front) (tokens back)) :
    Seam κ true front (' ' :: back) where
  closes := rfl
  within before part mark hfront hne hfits := by
    by_contra hlength
    obtain ⟨rest, htext, hword⟩ := fits_iff.1 hfits
    -- The spelling is the part up to the seam, the space, and the beginning of the text behind.
    obtain ⟨extra, hspelling⟩ : part <+: Mark.spelling mark :=
      List.prefix_of_prefix_length_le (List.prefix_append part _) ⟨rest, htext.symm⟩ (by omega)
    rw [← hspelling, List.append_assoc, List.append_cancel_left_eq] at htext
    obtain ⟨c, next, rfl⟩ : ∃ c next, extra = c :: next :=
      List.exists_cons_of_ne_nil fun hnil => hlength (by simp [← hspelling, hnil])
    rw [List.cons_append, List.cons.injEq] at htext
    obtain ⟨rfl, rfl⟩ := htext
    obtain ⟨hmark, hpart, hnext⟩ := isAtom_of_spelling_eq hspelling.symm
    obtain ⟨hopens, hcloses⟩ := hword hmark
    have hlast : part ∈ (tokens front).getLast? := by
      rw [hfront, tokens_append_of_getLast? _ _ (isBreak_getLast?_of_opensBehind hopens),
        tokens_of_isAtom hpart, List.getLast?_concat]
      rfl
    have hhead : next ∈ (tokens (next ++ rest)).head? := by
      rw [tokens_atom_append hnext (isBreak_head?_of_closesBefore hcloses)]
      rfl
    exact ofSpelling?_eq_none_iff.1 (h part hlast next hhead) mark hspelling.symm

theorem Cut.ofText_append_space {front back : Text} (h : Apart κ (tokens front) (tokens back)) :
    (ofText (front ++ ' ' :: back) : Cut κ) = append (ofText front) (push ' ' (ofText back)) := by
  have hspace : (scan (opensBehind true front) 0 (' ' :: back) : Cut κ) = push ' ' (ofText back) :=
    scan_of_markAt?_eq_none (markAt?_blank _ isBlank_space back)
  rw [ofText, scan_append_of_seam (seam_of_apart h) (Nat.zero_le _), hspace]
  rfl

/-! ## Clauses -/

namespace Clause

/-- The clauses of a cut, when its text starts at byte `start`. -/
def listFrom (start : Nat) (cut : Cut Keyword) : List Clause :=
  (Cut.locate (start + byteLength cut.lead) cut.pieces).map ofSection

theorem listOfText_eq_listFrom (text : Text) : listOfText text = listFrom 0 (Cut.ofText text) := by
  rw [listFrom, Nat.zero_add]
  rfl

theorem listFrom_cons (start : Nat) (lead : Text) (piece : Piece Keyword)
    (pieces : List (Piece Keyword)) :
    listFrom start ⟨lead, piece :: pieces⟩ =
      ⟨⟨piece.mark, trim piece.tail⟩, spanAt (start + byteLength lead) piece.mark⟩ ::
        listFrom (spanAt (start + byteLength lead) piece.mark).stop ⟨piece.tail, pieces⟩ := rfl

theorem listFrom_pushAll (start : Nat) (t : Text) (cut : Cut Keyword) :
    listFrom start (cut.pushAll t) = listFrom (start + byteLength t) cut := by
  simp [listFrom, Cut.pushAll, Nat.add_assoc]

/-- A text that starts further behind has its clauses further behind. -/
theorem listFrom_add (start distance : Nat) (cut : Cut Keyword) :
    listFrom (start + distance) cut = (listFrom start cut).map (shift distance) := by
  obtain ⟨lead, pieces⟩ := cut
  induction pieces generalizing start lead with
  | nil => rfl
  | cons piece pieces ih =>
    have hstart : start + distance + byteLength lead = start + byteLength lead + distance := by
      omega
    have hstop : (spanAt (start + byteLength lead + distance) piece.mark).stop =
        (spanAt (start + byteLength lead) piece.mark).stop + distance := by
      simp only [spanAt]
      omega
    rw [listFrom_cons, listFrom_cons, hstart, hstop, ih, List.map_cons, shift, ← hstop]
    rfl

/-- The clauses of one cut behind another, between which there is nothing but blanks. -/
theorem listFrom_append (start : Nat) (front : Cut Keyword) {back : Cut Keyword}
    (hback : ∀ c ∈ back.lead, isBlank c = true) :
    listFrom start (front.append back) =
      listFrom start front ++ listFrom (start + byteLength front.text) back := by
  obtain ⟨lead, pieces⟩ := front
  induction pieces generalizing start lead with
  | nil =>
    have hlead : Cut.append ⟨lead, []⟩ back = back.pushAll lead := rfl
    rw [hlead, listFrom_pushAll]
    simp [Cut.text, listFrom, Cut.locate]
  | cons piece pieces ih =>
    have htext : byteLength (Cut.text ⟨lead, piece :: pieces⟩) = byteLength lead +
        byteLength (Mark.spelling piece.mark) + byteLength (Cut.text ⟨piece.tail, pieces⟩) := by
      simp [Cut.text, Nat.add_assoc]
    have hstop : start + byteLength (Cut.text ⟨lead, piece :: pieces⟩) =
        (spanAt (start + byteLength lead) piece.mark).stop +
          byteLength (Cut.text ⟨piece.tail, pieces⟩) := by
      simp only [htext, spanAt]
      omega
    rw [Cut.append_cons, Cut.pushMark, listFrom_cons, Cut.trim_lead_append _ hback, ih,
      listFrom_cons, hstop]
    rfl

end Clause

/-! ## Queries -/

/-- A text that starts with a keyword is cut there first. -/
theorem exists_ofText_eq {t : Text} {hit : Hit Keyword} (h : Keyword.nextHit? t 0 = some hit)
    (hstart : hit.span.start = 0) :
    ∃ tail pieces, (Cut.ofText t : Cut Keyword) = ⟨[], ⟨hit.mark, tail⟩ :: pieces⟩ := by
  obtain ⟨found, hfound, rfl⟩ := Option.map_eq_some_iff.1 h
  have hlead : found.lead = [] := by
    simpa [spanAt, splitFrom, byteLength_eq_zero_iff] using hstart
  have hseek : seek true t = some found := by simpa [splitFrom, opensAfter] using hfound
  rw [Cut.ofText, Cut.scan_of_seek_eq_some hseek, hlead]
  exact ⟨_, _, rfl⟩

/-- Its first token is that of the keyword. -/
theorem head?_tokens_of_ofText {t tail : Text} {keyword : Keyword} {pieces : List (Piece Keyword)}
    (ht : Spaced t) (h : (Cut.ofText t : Cut Keyword) = ⟨[], ⟨keyword, tail⟩ :: pieces⟩) :
    (tokens t).head? = (Mark.tokens keyword).head? := by
  have htokens := Sorted.tokens_ofTokens (κ := Keyword) (isToken_of_mem_tokens (t := t))
  obtain ⟨token, rest, hkeyword⟩ := List.exists_cons_of_ne_nil (Sorted.tokens_ne_nil keyword)
  rw [← htokens, ← sorted_ofText (tidy_of_spaced ht), h]
  simp [Cut.sorted, Sorted.tokens, hkeyword]

theorem listOfText_append_space {front back : Text}
    (h : Apart Keyword (tokens front) (tokens back))
    (hlead : (Cut.ofText back : Cut Keyword).lead = []) :
    Clause.listOfText (front ++ ' ' :: back) = Clause.listOfText front ++
      (Clause.listOfText back).map (Clause.shift (byteLength front + 1)) := by
  have hback : ∀ c ∈ ((Cut.ofText back : Cut Keyword).push ' ').lead, isBlank c = true := by
    simp [Cut.push, hlead, isBlank_space]
  have hspace : Clause.listFrom (byteLength front) ((Cut.ofText back).push ' ') =
      Clause.listFrom (0 + (byteLength front + 1)) (Cut.ofText back) := by
    rw [Nat.zero_add]
    exact Clause.listFrom_pushAll _ [' '] _
  rw [Clause.listOfText_eq_listFrom, Cut.ofText_append_space h, Clause.listFrom_append _ _ hback,
    Cut.text_ofText, Nat.zero_add, hspace, Clause.listFrom_add, ← Clause.listOfText_eq_listFrom,
    ← Clause.listOfText_eq_listFrom]

/-- A query that starts with a keyword has its own clauses behind those of another query. -/
theorem listOfQuery_append_space {a b : Text} {hit : Hit Keyword}
    (hb : Keyword.nextHit? (normalize b) 0 = some hit) (hstart : hit.span.start = 0)
    (hjoin : ¬(hit.mark = .join ∧ (lastToken? a).any isJoinSide = true)) :
    Clause.listOfQuery (a ++ ' ' :: b) = Clause.listOfQuery a ++
      (Clause.listOfQuery b).map
        (Clause.shift (if normalize a = [] then 0 else byteLength (normalize a) + 1)) := by
  obtain ⟨tail, pieces, hcut⟩ := exists_ofText_eq hb hstart
  simp only [Clause.listOfQuery]
  split
  · next hempty =>
    have hshift : Clause.shift 0 = id := rfl
    rw [normalize_append_space_of_nil hempty, hempty, hshift, List.map_id]
    rfl
  · next hne =>
    have hb_ne : normalize b ≠ [] := by
      intro hnil
      rw [hnil] at hcut
      simp [Cut.ofText, Cut.scan] at hcut
    have happart : Apart Keyword (tokens (normalize a)) (tokens (normalize b)) := by
      rw [tokens_normalize, Apart, head?_tokens_of_ofText (spaced_normalize b) hcut]
      exact (apart_tokens_iff _ _).2 fun hside => hjoin hside.symm
    rw [normalize_append_space hne hb_ne]
    exact listOfText_append_space happart (by rw [hcut])

/-- Behind another query, a query that starts with a keyword says what it says on its own, unless
that keyword is `JOIN` and the other query ends in a side. Its clauses stand further behind by what
is in front of them, and they are recorded in what has been recorded already. -/
theorem parse_append (a b : Text) (hit : Hit Keyword)
    (hb : Keyword.nextHit? (normalize b) 0 = some hit) (hstart : hit.span.start = 0)
    (hjoin : ¬(hit.mark = .join ∧ (lastToken? a).any isJoinSide = true)) :
    Clause.listOfQuery (a ++ ' ' :: b) = Clause.listOfQuery a ++
        (Clause.listOfQuery b).map
          (Clause.shift (if normalize a = [] then 0 else byteLength (normalize a) + 1)) ∧
      Expression.parse (a ++ ' ' :: b) =
        (Expression.parse a).recordAll ((Clause.listOfQuery b).map Clause.toPhrase) := by
  have hclauses := listOfQuery_append_space hb hstart hjoin
  refine ⟨hclauses, ?_⟩
  rw [Expression.parse, hclauses, List.map_append, Expression.recordAll, List.foldl_append,
    List.map_map]
  rfl

/-- A side that is followed by another keyword than `JOIN`, behind blanks that normal form takes
out. -/
theorem parse_append_values :
    let a := "SELECT é\t FROM t LEFT".toList
    let b := " WHERE x=1 JOIN u".toList
    Keyword.nextHit? (normalize b) 0 = some ⟨.whereCond, ⟨0, 5⟩⟩ ∧
      (lastToken? a).any isJoinSide = true ∧
      Clause.listOfQuery (a ++ ' ' :: b) =
        Clause.listOfQuery a ++ (Clause.listOfQuery b).map (Clause.shift 22) ∧
      Expression.parse (a ++ ' ' :: b) =
        (Expression.parse a).recordAll ((Clause.listOfQuery b).map Clause.toPhrase) := by
  intro a b
  have hb : Keyword.nextHit? (normalize b) 0 = some ⟨.whereCond, ⟨0, 5⟩⟩ := by decide +kernel
  have hshift : (if normalize a = [] then 0 else byteLength (normalize a) + 1) = 22 := by
    decide +kernel
  obtain ⟨hclauses, hparse⟩ := parse_append a b _ hb rfl (by simp)
  rw [hshift] at hclauses
  exact ⟨hb, by decide +kernel, hclauses, hparse⟩

end SqlClauses
