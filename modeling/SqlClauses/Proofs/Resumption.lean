import SqlClauses.Proofs.Scanning

/-!
# Reading on from another offset

Two scanners on one text find the same marks from where both have arrived, unless the later one is
set down inside a mark that the earlier one finds. What stands inside a mark can only be its second
word, and among keywords this is the `JOIN` of `LEFT JOIN`, `RIGHT JOIN` and `INNER JOIN`.

* `StandsAt.inside`: what stands inside another mark is where its second word is.
* `Keyword.standsAt_inside_iff`: the only keyword inside another one.
* `Cut.hits_behind`, `Cut.hits_of_outside`, `Cut.hits_of_inside`: what is found from a later offset.
* `Scanner.next_position`, `Scanner.remaining_after`: one call, and a run of calls.
* `scanner_resynchronises`: all of this for scanners.
-/

namespace SqlClauses

open Text

variable {κ : Type} [Mark κ]

/-- A mark stands between two texts, and a word between two boundaries. -/
theorem StandsAt.exists_token {text : Text} {start : Nat} {mark : κ}
    (h : StandsAt text start mark) :
    ∃ before rest, text = before ++ (Mark.spelling mark ++ rest) ∧ byteLength before = start ∧
      (Mark.isWord mark = true → opensAfter before = true ∧ closesBefore rest = true) := by
  obtain ⟨before, rest, rfl, rfl⟩ := h.exists_split
  obtain ⟨rest', hrest, hword⟩ := fits_iff.1 (standsAt_append_iff.1 h)
  rw [← List.append_cancel_left hrest] at hword
  exact ⟨before, rest, rfl, rfl, hword⟩

variable [TokenMark κ]

/-! ## Inside a mark -/

/-- Inside an atom nothing fits. -/
theorem fits_inside_atom {front back : Text} (hfront : front ≠ []) (hback : back ≠ [])
    (hatom : IsAtom (front ++ back)) (rest : Text) (mark : κ) :
    fits (opensAfter front) (back ++ rest) mark = false := by
  obtain ⟨before, c, rfl⟩ := (List.eq_nil_or_concat' front).resolve_left hfront
  obtain ⟨d, behind, rfl⟩ := List.exists_cons_of_ne_nil hback
  have hc : isBreak c = false := hatom.2 c (by simp)
  have hd : isBreak d = false := hatom.2 d (by simp)
  rw [opensAfter_concat, isBoundary_of_isBreak_eq_false hc]
  exact markAt?_eq_none_iff.1 (markAt?_inside hd _) mark

/-- What fits inside a mark fits behind a space of it. -/
theorem second_of_fits_inside {outer inner : κ} {front back rest : Text} (hfront : front ≠ [])
    (hback : back ≠ []) (hspelling : Mark.spelling outer = front ++ back)
    (hcloses : Mark.isWord outer = true → closesBefore rest = true)
    (hfits : fits (opensAfter front) (back ++ rest) inner = true) :
    ∃ first, front = first ++ [' '] ∧ back <+: Mark.spelling inner := by
  have hinside {front' back' : Text} (hfront' : front' ≠ []) (hback' : back' ≠ [])
      (hatom : IsAtom (front' ++ back')) (rest' : Text) (hopens : opensAfter front = opensAfter front')
      (hrest : back ++ rest = back' ++ rest') : False := by
    rw [hopens, hrest, fits_inside_atom hfront' hback' hatom] at hfits
    contradiction
  have hblank (rest' : Text) (hrest : back ++ rest = ' ' :: rest') : False := by
    have hnone := markAt?_eq_none_iff.1 (markAt?_blank (opensAfter front) isBlank_space rest') inner
    rw [hrest, hnone] at hfits
    contradiction
  cases TokenMark.spelled outer with
  | paren c hword hc hparen =>
    have hlength := congrArg List.length (hparen.symm.trans hspelling)
    have hfront_pos := List.length_pos_of_ne_nil hfront
    have hback_pos := List.length_pos_of_ne_nil hback
    rw [List.length_singleton, List.length_append] at hlength
    omega
  | single hword hatom =>
    rw [hspelling] at hatom
    exact (hinside hfront hback hatom rest rfl rfl).elim
  | double first second hword hfirst hsecond hdouble =>
    -- the place is in the first word, at the space, in front of the second word or inside it
    rcases List.append_eq_append_iff.1 (hdouble.symm.trans hspelling) with
      ⟨more, rfl, hmore⟩ | ⟨more, rfl, rfl⟩
    · cases more with
      | nil =>
        rw [List.nil_append] at hmore
        exact (hblank (second ++ rest) (by rw [← hmore]; rfl)).elim
      | cons c more =>
        rw [List.cons_append, List.cons.injEq] at hmore
        obtain ⟨rfl, rfl⟩ := hmore
        by_cases hmore : more = []
        · subst hmore
          refine ⟨first, rfl, ?_⟩
          rw [opensAfter_concat] at hfits
          rcases (fits_atom_iff hsecond (hcloses hword)).1 hfits with heq | ⟨v, _, _, _, heq⟩
          · exact heq ▸ List.prefix_rfl
          · exact heq ▸ List.prefix_append _ _
        · have hopens : opensAfter (first ++ ' ' :: more) = opensAfter more := by
            rw [List.append_cons, opensAfter_append _ hmore]
          exact (hinside hmore hback hsecond rest hopens rfl).elim
    · by_cases hmore : more = []
      · subst hmore
        exact (hblank (second ++ rest) rfl).elim
      · exact (hinside hfront hmore hfirst (' ' :: second ++ rest) rfl (by simp)).elim

/-- What stands inside another mark is where its second word is. -/
theorem StandsAt.inside {text : Text} {start s : Nat} {outer inner : κ}
    (houter : StandsAt text start outer) (hinner : StandsAt text s inner) (hlow : start < s)
    (hhigh : s < start + byteLength (Mark.spelling outer)) :
    ∃ first second, Mark.spelling outer = first ++ ' ' :: second ∧
      s = start + byteLength (first ++ [' ']) ∧ second <+: Mark.spelling inner := by
  obtain ⟨before, rest, rfl, rfl, hword⟩ := houter.exists_token
  obtain ⟨before', rest', htext, rfl⟩ := hinner.exists_split
  rcases List.append_eq_append_iff.1 htext with ⟨front, rfl, hfront⟩ | ⟨more, rfl, -⟩
  · rw [byteLength_append] at hlow hhigh
    rcases List.append_eq_append_iff.1 hfront with ⟨more, rfl, -⟩ | ⟨back, hspelling, hback⟩
    · rw [byteLength_append] at hhigh
      omega
    · have hfront_ne : front ≠ [] := by
        rintro rfl
        simp at hlow
      have hback_ne : back ≠ [] := by
        rintro rfl
        simp [hspelling] at hhigh
      rw [hspelling, List.append_assoc, ← List.append_assoc before, standsAt_append_iff,
        opensAfter_append _ hfront_ne] at hinner
      obtain ⟨first, rfl, hsecond⟩ :=
        second_of_fits_inside hfront_ne hback_ne hspelling (fun h => (hword h).2) hinner
      refine ⟨first, back, ?_, by rw [byteLength_append], hsecond⟩
      rw [hspelling, List.append_assoc]
      rfl
  · rw [byteLength_append] at hlow
    omega

/-- A mark that is the second word of another one stands at the end of it. -/
theorem StandsAt.second {text : Text} {start : Nat} {outer inner : κ} {first : Text}
    (houter : StandsAt text start outer)
    (hspelling : Mark.spelling outer = first ++ ' ' :: Mark.spelling inner) :
    StandsAt text (start + byteLength (first ++ [' '])) inner := by
  obtain ⟨before, rest, rfl, rfl, hword⟩ := houter.exists_token
  obtain ⟨houter_word, -, -⟩ := isAtom_of_spelling_eq hspelling
  have htext : before ++ (Mark.spelling outer ++ rest) =
      before ++ (first ++ [' ']) ++ (Mark.spelling inner ++ rest) := by
    rw [hspelling]
    simp
  rw [htext, ← byteLength_append, standsAt_append_iff, fits_iff, ← List.append_assoc,
    opensAfter_concat]
  exact ⟨rest, rfl, fun _ => ⟨rfl, (hword houter_word).2⟩⟩

/-- Only `JOIN` is written as the end of other keywords. -/
theorem Keyword.eq_join_of_second {outer inner : Keyword} {first second : Text}
    (houter : outer.spelling = first ++ ' ' :: second) (hinner : second <+: inner.spelling) :
    outer ∈ [leftJoin, rightJoin, innerJoin] ∧ inner = join ∧ second = join.spelling := by
  have hspace : ' ' ∈ outer.spelling := by simp [houter]
  have hfirst : ∀ c ∈ first, (c != ' ') = true := by
    have hmark : Mark.spelling outer = first ++ ' ' :: second := houter
    intro c hc
    have hbreak := (isAtom_of_spelling_eq hmark).2.1.2 c hc
    rw [bne_iff_ne]
    rintro rfl
    contradiction
  have hsecond : (outer.spelling.dropWhile (· != ' ')).tail = second := by
    rw [houter, List.dropWhile_append_of_pos hfirst]
    rfl
  rw [← hsecond] at hinner ⊢
  cases outer with
  | leftJoin | rightJoin | innerJoin =>
    refine ⟨by decide, ?_, rfl⟩
    cases inner with
    | join => rfl
    | _ => exact absurd hinner (by decide)
  | groupBy | orderBy => cases inner <;> exact absurd hinner (by decide)
  | _ => exact absurd hspace (by decide)

/-- The only keyword inside another one is the `JOIN` at its end. -/
theorem Keyword.standsAt_inside_iff {text : Text} {start s : Nat} {outer inner : Keyword}
    (houter : StandsAt text start outer) (hlow : start < s)
    (hhigh : s < start + byteLength outer.spelling) :
    StandsAt text s inner ↔ outer ∈ [leftJoin, rightJoin, innerJoin] ∧ inner = join ∧
      s + 4 = start + byteLength outer.spelling := by
  have hlength {first : Text} (h : Mark.spelling outer = first ++ ' ' :: join.spelling) :
      byteLength outer.spelling = byteLength (first ++ [' ']) + 4 := by
    have hjoin : byteLength join.spelling = 4 := by decide
    rw [← hjoin, ← byteLength_append, ← List.append_cons]
    exact congrArg byteLength h
  constructor
  · intro hinner
    obtain ⟨first, second, hspelling, rfl, hsecond⟩ := houter.inside hinner hlow hhigh
    obtain ⟨hsides, heq, rfl⟩ := eq_join_of_second hspelling hsecond
    exact ⟨hsides, heq, by rw [hlength hspelling, Nat.add_assoc]⟩
  · rintro ⟨hsides, rfl, hstop⟩
    have hspelling : ∃ first, Mark.spelling outer = first ++ ' ' :: join.spelling := by
      cases outer with
      | leftJoin => exact ⟨"LEFT".toList, rfl⟩
      | rightJoin => exact ⟨"RIGHT".toList, rfl⟩
      | innerJoin => exact ⟨"INNER".toList, rfl⟩
      | _ => exact absurd hsides (by decide)
    obtain ⟨first, hspelling⟩ := hspelling
    have hend := hlength hspelling
    obtain rfl : s = start + byteLength (first ++ [' ']) := by omega
    exact houter.second hspelling

/-! ## What is found from a later offset -/

namespace Cut

theorem stands_of_mem_hits {text : Text} {start : Nat} {hit : Hit κ}
    (h : hit ∈ (ofTextFrom start text : Cut κ).hits) :
    start ≤ hit.span.start ∧ StandsAt text hit.span.start hit.mark ∧
      hit.span = spanAt hit.span.start hit.mark := by
  obtain ⟨part, hpart, rfl⟩ := List.mem_map.1 h
  exact stands_of_mem_sections part hpart

/-- Behind one of its hits, a run finds what a run from there finds. -/
theorem hits_behind {text : Text} {start : Nat} {front back : List (Hit κ)} {hit : Hit κ}
    (h : (ofTextFrom start text).hits = front ++ hit :: back) :
    back = (ofTextFrom hit.span.stop text).hits := by
  induction start using run_induction κ text generalizing front with
  | last start hnext =>
    rw [hits_of_next?_eq_none hnext] at h
    simp at h
  | next start first hnext ih =>
    rw [hits_of_next?_eq_some hnext] at h
    cases front with
    | nil =>
      rw [List.nil_append, List.cons.injEq] at h
      obtain ⟨rfl, rfl⟩ := h
      rfl
    | cons other front =>
      rw [List.cons_append, List.cons.injEq] at h
      exact ih h.2

/-- From an offset outside all hits of a run, those of them are found that do not lie in front of
it. -/
theorem hits_of_outside {text : Text} {start later : Nat} (hle : start ≤ later)
    (hout : ∀ hit ∈ (ofTextFrom start text : Cut κ).hits,
      later ≤ hit.span.start ∨ hit.span.stop ≤ later) :
    (ofTextFrom later text : Cut κ).hits =
      (ofTextFrom start text).hits.filter fun hit => later ≤ hit.span.start := by
  induction start using run_induction κ text with
  | last start hnext =>
    have hnone := Hit.next?_eq_none_iff.1 hnext
    have hsame : (ofTextFrom start text : Cut κ) = ofTextFrom later text :=
      ofTextFrom_eq_of_not_marked hle fun s hs _ => hnone s hs
    rw [← hsame, hits_of_next?_eq_none hnext]
    rfl
  | next start hit hnext ih =>
    have hfirst := Hit.next?_eq_some_iff.1 hnext
    have hhits := hits_of_next?_eq_some hnext
    rcases hout hit (by rw [hhits]; exact List.mem_cons_self) with hbefore | hbehind
    · have hsame : (ofTextFrom start text : Cut κ) = ofTextFrom later text :=
        ofTextFrom_eq_of_not_marked hle fun s hs hlt =>
          hfirst.not_marked s hs (Nat.lt_of_lt_of_le hlt hbefore)
      rw [hsame]
      symm
      apply List.filter_eq_self.2
      intro other hother
      exact decide_eq_true (stands_of_mem_hits hother).1
    · have hlt : hit.span.start < later := Nat.lt_of_lt_of_le hfirst.start_lt_stop hbehind
      rw [hhits] at hout ⊢
      rw [List.filter_cons_of_neg (by simpa using hlt)]
      exact ih hbehind fun other hother => hout other (List.mem_cons_of_mem _ hother)

end Cut

/-- The keyword that stands at the end of a hit, unless it starts in front of an offset. -/
def Hit.ending (offset : Nat) (hit : Hit Keyword) : List (Hit Keyword) :=
  if hit.mark ∈ [.leftJoin, .rightJoin, .innerJoin] ∧ offset ≤ hit.span.stop - 4 then
    [⟨.join, ⟨hit.span.stop - 4, hit.span.stop⟩⟩]
  else []

/-- From an offset inside a hit, the keyword at its end is found and then what stands behind it. -/
theorem Cut.hits_of_inside {text : Text} {start offset : Nat} {hit : Hit Keyword}
    (hhit : hit ∈ (Cut.ofTextFrom start text).hits) (hlow : hit.span.start < offset)
    (hhigh : offset < hit.span.stop) :
    (Cut.ofTextFrom offset text).hits =
      hit.ending offset ++ (Cut.ofTextFrom hit.span.stop text).hits := by
  obtain ⟨-, hstands, hspan⟩ := Cut.stands_of_mem_hits hhit
  have hstop : hit.span.stop = hit.span.start + byteLength hit.mark.spelling :=
    congrArg Span.stop hspan
  have hinside (s : Nat) (hs : offset ≤ s) (hlt : s < hit.span.stop) (keyword : Keyword) :
      StandsAt text s keyword ↔ hit.mark ∈ [.leftJoin, .rightJoin, .innerJoin] ∧
        keyword = .join ∧ s + 4 = hit.span.stop := by
    rw [hstop]
    exact Keyword.standsAt_inside_iff hstands (by omega) (by omega)
  unfold Hit.ending
  split
  · next hend =>
    obtain ⟨hsides, hoffset⟩ := hend
    have hfour : hit.span.stop - 4 + 4 = hit.span.stop := Nat.sub_add_cancel (by omega)
    have hjoin : StandsAt text (hit.span.stop - 4) Keyword.join :=
      (hinside _ hoffset (by omega) .join).2 ⟨hsides, rfl, hfour⟩
    have hjoin_span : spanAt (hit.span.stop - 4) Keyword.join =
        ⟨hit.span.stop - 4, hit.span.stop⟩ := by
      show (⟨_, hit.span.stop - 4 + 4⟩ : Span) = _
      rw [hfour]
    have hbefore : ∀ s, offset ≤ s → s < hit.span.stop - 4 → ¬ Marked Keyword text s := by
      rintro s hs hlt ⟨keyword, hkeyword⟩
      obtain ⟨-, -, heq⟩ := (hinside s hs (by omega) keyword).1 hkeyword
      omega
    rw [Cut.ofTextFrom_eq_of_not_marked hoffset hbefore, Cut.hits_of_next?_eq_some hjoin.next?_eq,
      hjoin_span]
    rfl
  · next hend =>
    have hnone : ∀ s, offset ≤ s → s < hit.span.stop → ¬ Marked Keyword text s := by
      rintro s hs hlt ⟨keyword, hkeyword⟩
      obtain ⟨hsides, -, hfour⟩ := (hinside s hs hlt keyword).1 hkeyword
      exact hend ⟨hsides, by omega⟩
    rw [Cut.ofTextFrom_eq_of_not_marked (Nat.le_of_lt hhigh) hnone]
    rfl

/-! ## A run of calls -/

namespace Scanner

theorem after_succ (count : Nat) (scanner : Scanner) :
    scanner.after (count + 1) = (scanner.after count).next.2 := by
  induction count generalizing scanner with
  | zero => rfl
  | succ count ih => exact ih scanner.next.2

/-- A call leaves the text and moves the position behind the hit, or to the end of the text, and
never back. -/
theorem next_position (scanner : Scanner) :
    scanner.next.2.text = scanner.text ∧ scanner.position ≤ scanner.next.2.position ∧
      (∀ hit, scanner.next.1 = some hit → scanner.next.2.position = hit.span.stop) ∧
      (scanner.next.1 = none →
        scanner.next.2.position = max (byteLength scanner.text) scanner.position) := by
  cases h : Keyword.nextHit? scanner.text scanner.position with
  | none =>
    have hnext : scanner.next = (none, scanner.finish) := by
      unfold next
      rw [h]
    rw [hnext]
    refine ⟨rfl, Nat.le_max_left _ _, by simp, fun _ => Nat.max_comm _ _⟩
  | some hit =>
    have hfirst := Hit.next?_eq_some_iff.1 h
    rw [next_of_eq_some h]
    refine ⟨rfl, ?_, by simp, by simp⟩
    exact Nat.le_of_lt (Nat.lt_of_le_of_lt hfirst.start_le hfirst.start_lt_stop)

theorem text_after (count : Nat) (scanner : Scanner) :
    (scanner.after count).text = scanner.text := by
  induction count with
  | zero => rfl
  | succ count ih =>
    rw [after_succ, (next_position _).1]
    exact ih

/-- Each call takes one keyword away. -/
theorem remaining_after (count : Nat) (scanner : Scanner) :
    (scanner.after count).remaining = scanner.remaining.drop count := by
  induction count with
  | zero => rfl
  | succ count ih =>
    rw [after_succ, (next_remaining _).2, ih, List.tail_drop]

/-- A scanner that finds nothing finds nothing any more. -/
theorem next_after_of_eq_none {scanner : Scanner} (h : scanner.next.1 = none) (count : Nat) :
    (scanner.after count).next.1 = none := by
  have hnil : scanner.remaining = [] := by
    rw [(next_remaining scanner).1] at h
    exact List.head?_eq_none_iff.1 h
  rw [(next_remaining _).1, remaining_after, hnil, List.drop_nil]
  rfl

end Scanner

/-! ## Two scanners on one text -/

/-- A scanner that is set down at `q` finds the keywords that one from `p` finds at `q` or behind it;
if `q` lies inside one of them, it finds the `JOIN` at the end of that one, if there is one and `q`
lies not behind its beginning, and then the same keywords. On its way a scanner never goes back. It
stands behind the keyword that it found last, or at the end of the text once it has found nothing,
and finds nothing from then on. -/
theorem scanner_resynchronises (text : Text) {p q : Nat} (hpq : p ≤ q) :
    let earlier : Scanner := ⟨text, p⟩
    let later : Scanner := ⟨text, q⟩
    (∀ scanner : Scanner, ∀ count,
      scanner.draw count = (List.range count).map fun k => scanner.remaining[k]?) ∧
    ((∀ hit ∈ earlier.remaining, ¬ (hit.span.start < q ∧ q < hit.span.stop)) →
      later.remaining = earlier.remaining.filter fun hit => q ≤ hit.span.start) ∧
    (∀ front hit back, earlier.remaining = front ++ hit :: back →
      hit.span.start < q → q < hit.span.stop → later.remaining = hit.ending q ++ back) ∧
    ∀ count,
      let scanner := earlier.after count
      scanner.text = text ∧ scanner.position ≤ (earlier.after (count + 1)).position ∧
        (∀ hit, scanner.next.1 = some hit →
          (earlier.after (count + 1)).position = hit.span.stop) ∧
        (scanner.next.1 = none →
          (earlier.after (count + 1)).position = max (byteLength text) scanner.position ∧
            ∀ more, (scanner.after more).next.1 = none) := by
  intro earlier later
  refine ⟨fun scanner count => scanner.draw_eq count, ?_, ?_, ?_⟩
  · intro hout
    apply Cut.hits_of_outside hpq
    intro hit hhit
    have hnot := hout hit hhit
    omega
  · intro front hit back hsplit hlow hhigh
    have hmem : hit ∈ (Cut.ofTextFrom p text).hits := by
      show hit ∈ earlier.remaining
      rw [hsplit]
      simp
    rw [Cut.hits_behind hsplit]
    exact Cut.hits_of_inside hmem hlow hhigh
  · intro count scanner
    obtain ⟨-, hle, hfound, hnothing⟩ := scanner.next_position
    have htext : scanner.text = text := Scanner.text_after count earlier
    rw [htext] at hnothing
    rw [Scanner.after_succ]
    exact ⟨htext, hle, hfound, fun h => ⟨hnothing h, Scanner.next_after_of_eq_none h⟩⟩

/-- From inside `LEFT JOIN` its second word is found, unless the scanner is set down in it; from a
character of two bytes outside all keywords, those behind it; beyond the end, nothing. -/
theorem scanner_resynchronises_values :
    let text := "a LEFT JOIN é WHERE c".toList
    (⟨text, 5⟩ : Scanner).remaining = [⟨.join, ⟨7, 11⟩⟩, ⟨.whereCond, ⟨15, 20⟩⟩] ∧
      (⟨text, 8⟩ : Scanner).remaining = [⟨.whereCond, ⟨15, 20⟩⟩] ∧
      (⟨text, 13⟩ : Scanner).remaining = [⟨.whereCond, ⟨15, 20⟩⟩] ∧
      ((⟨text, 0⟩ : Scanner).after 3).position = 22 := by
  intro text
  have hhits : (⟨text, 0⟩ : Scanner).remaining =
      [] ++ ⟨.leftJoin, ⟨2, 11⟩⟩ :: [⟨.whereCond, ⟨15, 20⟩⟩] := by decide +kernel
  refine ⟨?_, ?_, ?_, ?_⟩
  · exact (scanner_resynchronises text (by decide : 0 ≤ 5)).2.2.1 _ _ _ hhits (by decide)
      (by decide)
  · exact (scanner_resynchronises text (by decide : 0 ≤ 8)).2.2.1 _ _ _ hhits (by decide)
      (by decide)
  · have hout := (scanner_resynchronises text (by decide : 0 ≤ 13)).2.1
    rw [hhits] at hout
    exact hout (by decide)
  · obtain ⟨-, -, -, hnothing⟩ := (scanner_resynchronises text (Nat.le_refl 0)).2.2.2 2
    exact (hnothing (by decide +kernel)).1.trans (by decide +kernel)

end SqlClauses
