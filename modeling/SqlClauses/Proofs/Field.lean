import SqlClauses.Field
import SqlClauses.Proofs.Text.Normal

/-!
# Fields: laws

Reading a token gives one of three kinds of field, told by the dots in it. Whatever is read is
canonical, and a canonical field is read back from its display.

* `ofToken_cases`: what reading a token can give.
* `reads_iff`: the same as a relation of pieces and fields, with no regard to how a piece is cut.
* `canonical_ofToken`, `ofToken_display`: the fields that are read are those that can be read back.
* `listOfText_displays`: the same for a list, with commas between the displays.
* `listOfText_append_cons`, `listOfText_unwords_append`: what stands on both sides of a comma is read
  on its own.
* `field_lists_round_trip`: reading and displaying lists are inverse on the canonical ones.
-/

namespace SqlClauses

open Text

namespace Field

/-! ## Reading a token -/

/-- What reading a token can give: without a dot a name, with one dot a name and its qualifier, and
with more of them the token as it is. -/
theorem ofToken_cases (token : Text) :
    (ofToken token = named (trim token) ∧ '.' ∉ trim token) ∨
    (∃ qualifier name, ofToken token = aliased (trim qualifier) (trim name) ∧
      trim token = qualifier ++ '.' :: name ∧ '.' ∉ qualifier ∧ '.' ∉ name) ∨
    (ofToken token = malformed (trim token) ∧ 2 ≤ (trim token).count '.') := by
  have hlength := length_splitOn '.' (trim token)
  have hwhole : ['.'].intercalate ((trim token).splitOn '.') = trim token :=
    List.intercalate_splitOn '.'
  have hdots := not_mem_of_mem_splitOn (c := '.') (t := trim token)
  simp only [ofToken]
  generalize (trim token).splitOn '.' = pieces at hlength hwhole hdots ⊢
  match pieces with
  | [] => simp at hlength
  | [piece] =>
    refine .inl ⟨rfl, ?_⟩
    rw [← List.count_eq_zero]
    simpa using hlength
  | [qualifier, name] =>
    refine .inr (.inl ⟨qualifier, name, rfl, ?_, hdots _ (by simp), hdots _ (by simp)⟩)
    simpa using hwhole.symm
  | _ :: _ :: _ :: rest =>
    refine .inr (.inr ⟨rfl, ?_⟩)
    simp only [List.length_cons] at hlength
    omega

/-! ## What a piece says -/

theorem isBlank_dot : isBlank '.' = false := by decide

theorem isBlank_comma : isBlank ',' = false := by decide

/-- What a piece between commas says, told by the dots in it. -/
inductive Reads (piece : Text) : Field → Prop
  /-- Without a dot, a name. -/
  | named (hdots : '.' ∉ piece) : Reads piece (named (trim piece))
  /-- With one dot, a name and its qualifier, each without the blanks around it. -/
  | aliased {left right : Text} (hpiece : piece = left ++ '.' :: right) (hleft : '.' ∉ left)
    (hright : '.' ∉ right) : Reads piece (aliased (trim left) (trim right))
  /-- With more of them, the piece itself. -/
  | malformed (hdots : 2 ≤ piece.count '.') : Reads piece (malformed (trim piece))

/-- The dots in a piece tell the kind of field. -/
theorem Reads.dots {piece : Text} {field : Field} (h : Reads piece field) :
    match field with
    | .named _ => piece.count '.' = 0
    | .aliased _ _ => piece.count '.' = 1
    | .malformed _ => 2 ≤ piece.count '.' := by
  cases h with
  | named hdots => exact List.count_eq_zero.2 hdots
  | aliased hpiece hleft hright =>
    simp [hpiece, List.count_eq_zero.2 hleft, List.count_eq_zero.2 hright]
  | malformed hdots => exact hdots

/-- A piece says one thing only. -/
theorem Reads.unique {piece : Text} {first second : Field} (h : Reads piece first)
    (h' : Reads piece second) : first = second := by
  have hdots := h.dots
  have hdots' := h'.dots
  cases h with
  | named =>
    cases h' with
    | named => rfl
    | aliased | malformed => dsimp only at hdots hdots'; omega
  | aliased hpiece hleft hright =>
    cases h' with
    | aliased hpiece' hleft' hright' =>
      have hparts := congrArg (List.splitOn '.') (hpiece.symm.trans hpiece')
      rw [List.splitOn_append_cons_self_of_not_mem hleft, List.splitOn_eq_singleton hright,
        List.splitOn_append_cons_self_of_not_mem hleft', List.splitOn_eq_singleton hright'] at hparts
      obtain ⟨rfl, rfl⟩ : _ ∧ _ := by simpa using hparts
      rfl
    | named | malformed => dsimp only at hdots hdots'; omega
  | malformed =>
    cases h' with
    | malformed => rfl
    | named | aliased => dsimp only at hdots hdots'; omega

/-- A token is read as the piece that it is. -/
theorem reads_ofToken (token : Text) : Reads token (ofToken token) := by
  have hcount : (trim token).count '.' = token.count '.' := count_trim isBlank_dot token
  rcases ofToken_cases token with
    ⟨heq, hdots⟩ | ⟨qualifier, name, heq, hsplit, hqualifier, hname⟩ | ⟨heq, hdots⟩
  · rw [heq]
    rw [← List.count_eq_zero, hcount, List.count_eq_zero] at hdots
    exact .named hdots
  · -- the blanks around the token are blanks around its outer parts
    obtain ⟨front, back, htoken, hfront, hback⟩ := exists_eq_append_trim token
    rw [heq, ← trim_blanks_append hfront, ← trim_append_blanks hback name]
    refine .aliased (by rw [htoken, hsplit]; simp) ?_ ?_
    · simp [not_mem_of_blanks isBlank_dot hfront, hqualifier]
    · simp [not_mem_of_blanks isBlank_dot hback, hname]
  · rw [heq]
    exact .malformed (hcount ▸ hdots)

theorem reads_iff {piece : Text} {field : Field} : Reads piece field ↔ ofToken piece = field :=
  ⟨fun h => (reads_ofToken piece).unique h, fun h => h ▸ reads_ofToken piece⟩

/-! ## Canonical fields -/

theorem not_mem_trim {c : Char} {t : Text} (h : c ∉ t) : c ∉ trim t :=
  fun hc => h ((isInfix_trim t).subset hc)

theorem trim_trim (t : Text) : trim (trim t) = trim t := trim_of_trimmed (trimmed_trim t)

/-- Every field that is read is canonical. -/
theorem canonical_ofToken {token : Text} (h : ',' ∉ token) : (ofToken token).Canonical := by
  have htoken : ',' ∉ trim token := not_mem_trim h
  rcases ofToken_cases token with
    ⟨heq, hdots⟩ | ⟨qualifier, name, heq, hsplit, hqualifier, hname⟩ | ⟨heq, hdots⟩
  · rw [heq]
    exact ⟨by simp [texts, trim_trim, htoken], hdots⟩
  · rw [hsplit] at htoken
    have hcommas : ',' ∉ qualifier ∧ ',' ∉ name := by simpa using htoken
    rw [heq]
    refine ⟨?_, not_mem_trim hqualifier, not_mem_trim hname⟩
    simp [texts, trim_trim, not_mem_trim hcommas.1, not_mem_trim hcommas.2]
  · rw [heq]
    exact ⟨by simp [texts, trim_trim, htoken], hdots⟩

/-! ## Reading back -/

/-- The display of a canonical field is one token. -/
theorem Canonical.display {field : Field} (h : field.Canonical) :
    Trimmed field.display ∧ ',' ∉ field.display := by
  obtain ⟨htexts, -⟩ := h
  cases field with
  | named name => simpa [texts, trim_eq_self_iff, Field.display] using htexts
  | malformed token => simpa [texts, trim_eq_self_iff, Field.display] using htexts
  | aliased qualifier name =>
    simp only [texts, trim_eq_self_iff, List.forall_mem_cons] at htexts
    obtain ⟨⟨hqualifier, hcomma⟩, ⟨hname, hcomma'⟩, -⟩ := htexts
    exact ⟨hqualifier.append_cons hname (by decide), by simp [Field.display, hcomma, hcomma']⟩

/-- A canonical field is read back from its display. -/
theorem ofToken_display {field : Field} (h : field.Canonical) :
    ofToken field.display = field := by
  have htrim : trim field.display = field.display := trim_of_trimmed h.display.1
  obtain ⟨htexts, hdots⟩ := h
  rw [ofToken, htrim]
  cases field with
  | named name => rw [display, List.splitOn_eq_singleton hdots]
  | aliased qualifier name =>
    obtain ⟨hqualifier, hname⟩ := hdots
    rw [display, List.splitOn_append_cons_self_of_not_mem hqualifier,
      List.splitOn_eq_singleton hname]
    simp [(htexts qualifier (by simp [texts])).1, (htexts name (by simp [texts])).1]
  | malformed token =>
    have hlength := length_splitOn '.' token
    rw [display]
    split
    · next heq => simp [heq] at hlength
    · next heq => simp_all
    · next heq => simp_all
    · rfl

/-! ## Lists of fields -/

theorem listOfText_ne_nil (content : Text) : listOfText content ≠ [] := by
  simp [listOfText, List.splitOn_ne_nil]

/-- Blanks around a token are not read. -/
theorem ofToken_congr {s t : Text} (h : trim s = trim t) : ofToken s = ofToken t := by
  rw [ofToken, ofToken, h]

theorem listOfText_eq_singleton {content : Text} (h : ',' ∉ content) :
    listOfText content = [ofToken content] := by
  rw [listOfText, List.splitOn_eq_singleton h, List.map_singleton]

/-- What stands on both sides of a comma is read on its own. -/
theorem listOfText_append_cons (s t : Text) :
    listOfText (s ++ ',' :: t) = listOfText s ++ listOfText t := by
  rw [listOfText, List.splitOn_append_cons_self, List.map_append, listOfText, listOfText]

/-- Blanks at the ends of a content are not read. -/
theorem listOfText_append_blanks {gap : Text} (hgap : ∀ c ∈ gap, isBlank c = true)
    (content : Text) : listOfText (content ++ gap) = listOfText content := by
  induction content using cut_induction (· == ',') with
  | plain t ht =>
    have hmem : ',' ∉ t := fun hc => by simpa using ht ',' hc
    have hwhole : ',' ∉ t ++ gap := by simp [hmem, not_mem_of_blanks isBlank_comma hgap]
    rw [listOfText_eq_singleton hwhole, listOfText_eq_singleton hmem,
      ofToken_congr (trim_append_blanks hgap t)]
  | cut s c t hc _ ht =>
    obtain rfl := beq_iff_eq.1 hc
    rw [List.append_assoc, List.cons_append, listOfText_append_cons, ht, listOfText_append_cons]

theorem listOfText_blanks_append {gap : Text} (hgap : ∀ c ∈ gap, isBlank c = true)
    (content : Text) : listOfText (gap ++ content) = listOfText content := by
  induction content using cut_induction (· == ',') with
  | plain t ht =>
    have hmem : ',' ∉ t := fun hc => by simpa using ht ',' hc
    have hwhole : ',' ∉ gap ++ t := by simp [hmem, not_mem_of_blanks isBlank_comma hgap]
    rw [listOfText_eq_singleton hwhole, listOfText_eq_singleton hmem,
      ofToken_congr (trim_blanks_append hgap t)]
  | cut s c t hc hs _ =>
    obtain rfl := beq_iff_eq.1 hc
    rw [← List.append_assoc, listOfText_append_cons, hs, listOfText_append_cons]

/-- Behind a comma that is a word of its own, fields are read on their own. -/
theorem listOfText_unwords_append (front back : List Text) :
    listOfText (unwords (front ++ [','] :: back)) =
      listOfText (unwords front) ++ listOfText (unwords back) := by
  obtain ⟨gap, hgap, hfront⟩ := exists_unwords_append front ([','] :: back)
  obtain ⟨gap', hgap', hback⟩ := exists_unwords_append [[',']] back
  rw [hfront, ← List.singleton_append, hback, unwords_singleton, List.append_assoc,
    List.singleton_append, List.cons_append, ← List.append_assoc, listOfText_append_cons,
    listOfText_append_blanks hgap, listOfText_blanks_append hgap']

theorem canonical_of_mem_listOfText {content : Text} :
    ∀ field ∈ listOfText content, field.Canonical := by
  intro field hfield
  obtain ⟨token, htoken, rfl⟩ := List.mem_map.1 hfield
  exact canonical_ofToken (not_mem_of_mem_splitOn token htoken)

/-- Canonical fields are read back from their displays with commas between them. -/
theorem listOfText_displays {fields : List Field} (hne : fields ≠ [])
    (h : ∀ field ∈ fields, field.Canonical) :
    listOfText ([','].intercalate (fields.map display)) = fields := by
  have hcommas : ∀ text ∈ fields.map display, ',' ∉ text := by
    simpa using fun field hfield => (h field hfield).display.2
  rw [listOfText, List.splitOn_intercalate ',' hcommas (by simpa using hne), List.map_map]
  exact map_eq_self fun field hfield => ofToken_display (h field hfield)

/-! ## There and back -/

/-- A way to read lists of fields is inverse to their display, as far as it can be. -/
structure RoundTrip (read : Text → List Field) : Prop where
  /-- The fields that are read are those that the pieces between commas say, one by one. -/
  eq_iff : ∀ content fields, read content = fields ↔
    ∃ pieces : List Text, pieces ≠ [] ∧ [','].intercalate pieces = content ∧
      (∀ piece ∈ pieces, ',' ∉ piece) ∧ List.Forall₂ Reads pieces fields
  /-- All of them are canonical. -/
  canonical : ∀ content, ∀ field ∈ read content, field.Canonical
  /-- Lists of canonical fields are read back from their displays, and no others are. -/
  displays_iff : ∀ fields, fields ≠ [] →
    (read ([','].intercalate (fields.map display)) = fields ↔ ∀ field ∈ fields, field.Canonical)
  /-- What is read from a content is read from its display. -/
  again : ∀ content,
    read ([','].intercalate ((read content).map display)) = read content

theorem roundTrip_listOfText : RoundTrip listOfText where
  eq_iff := by
    intro content fields
    constructor
    · rintro rfl
      refine ⟨content.splitOn ',', List.splitOn_ne_nil ',' content, List.intercalate_splitOn ',',
        not_mem_of_mem_splitOn, ?_⟩
      rw [listOfText, List.forall₂_map_right_iff, List.forall₂_same]
      exact fun piece _ => reads_ofToken piece
    · rintro ⟨pieces, hne, rfl, hcommas, hreads⟩
      rw [listOfText, List.splitOn_intercalate ',' hcommas hne, ← List.forall₂_eq_eq_eq,
        List.forall₂_map_left_iff]
      exact hreads.imp fun _ _ => reads_iff.1
  canonical := fun _ => canonical_of_mem_listOfText
  displays_iff := by
    intro fields hne
    constructor
    · intro h
      rw [← h]
      exact canonical_of_mem_listOfText
    · exact listOfText_displays hne
  again := fun content =>
    listOfText_displays (listOfText_ne_nil content) canonical_of_mem_listOfText

end Field

/-- Column lists and the targets of joins are read as one field for each piece between commas, and
the lists that are read are those that are read back from their display. -/
theorem field_lists_round_trip :
    Field.RoundTrip Field.listOfText ∧ Field.RoundTrip Field.joinListOfText :=
  ⟨Field.roundTrip_listOfText, Field.roundTrip_listOfText⟩

/-- An empty piece, blanks around both parts of a field and a token with two dots are read back. A
dot or a comma in a name is not, nor is a blank in front of one. -/
theorem field_lists_round_trip_values :
    let content := " u .\u3000id,,a.b ON c.d ".toList
    let fields := [.aliased ['u'] "id".toList, .named [], .malformed "a.b ON c.d".toList]
    Field.listOfText content = fields ∧
      Field.joinListOfText ([','].intercalate (fields.map Field.display)) = fields ∧
      ∀ name ∈ ["a.b".toList, "a,b".toList, " a".toList],
        Field.listOfText ([','].intercalate ([.named name].map Field.display)) ≠ [.named name] := by
  intro content fields
  have hread : Field.listOfText content = fields := by decide +kernel
  obtain ⟨hcolumns, htargets⟩ := field_lists_round_trip
  refine ⟨hread, ?_, ?_⟩
  · exact (htargets.displays_iff fields (by simp [fields])).2 (by decide +kernel)
  · intro name hname hback
    have hcanonical := (hcolumns.displays_iff [.named name] (by simp)).1 hback
    revert name
    decide +kernel

end SqlClauses
