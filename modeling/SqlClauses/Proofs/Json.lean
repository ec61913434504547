import Mathlib.Data.List.Basic
import SqlClauses.Json

/-!
# JSON texts: laws

A value can be told from either of its written forms. Read from the left, a value in compact form
ends where it does whatever follows it, so that two values with one text are the same. The pretty
form is the compact one with blanks between its tokens, so it says no less.

* `quoted_append_inj`, `readable_compact`: a string, and any value, told from what follows it.
* `squeeze_pretty`: the pretty form without the blanks between its tokens.
* `compact_injective`, `pretty_injective`: what comes of these.
-/

namespace SqlClauses.Json

/-! ## Trees -/

/-- What holds of an array if it holds of its items, and of an object if it holds of the values of
its members, holds of every value. -/
theorem tree_induction {motive : Json → Prop} (str : ∀ text, motive (.str text))
    (num : ∀ n, motive (.num n))
    (arr : ∀ items, (∀ item ∈ items, motive item) → motive (.arr items))
    (obj : ∀ members, (∀ member ∈ members, motive member.2) → motive (.obj members))
    (value : Json) : motive value :=
  @Json.rec motive (fun items => ∀ item ∈ items, motive item)
    (fun members => ∀ member ∈ members, motive member.2) (fun member => motive member.2)
    str num arr obj (by simp) (fun _ _ hitem hrest => List.forall_mem_cons.2 ⟨hitem, hrest⟩)
    (by simp) (fun _ _ hmember hrest => List.forall_mem_cons.2 ⟨hmember, hrest⟩)
    (fun _ _ hvalue => hvalue) value

/-- What is written item by item, with a comma in front of every item but the first. -/
theorem separated_cons {α : Type} {write : α → Text} {writeAll : List α → Text}
    (single : ∀ item, writeAll [item] = write item)
    (cons : ∀ item next rest,
      writeAll (item :: next :: rest) = write item ++ ',' :: writeAll (next :: rest))
    (item : α) (rest : List α) :
    writeAll (item :: rest) = write item ++ rest.flatMap fun next => ',' :: write next := by
  induction rest generalizing item with
  | nil => simp [single]
  | cons next rest ih => simp [cons, ih]

/-- A member in compact form. -/
def compactMember (member : Text × Json) : Text := quoted member.1 ++ ':' :: compact member.2

theorem compactItems_cons (item : Json) (rest : List Json) :
    compactItems (item :: rest) = compact item ++ rest.flatMap fun next => ',' :: compact next :=
  separated_cons (fun _ => rfl) (fun _ _ _ => rfl) item rest

theorem compactMembers_cons (member : Text × Json) (rest : List (Text × Json)) :
    compactMembers (member :: rest) =
      compactMember member ++ rest.flatMap fun next => ',' :: compactMember next :=
  separated_cons (fun _ => rfl) (fun _ _ _ => by simp [compactMembers]) member rest

/-! ## Strings -/

/-- The characters that are written as a backslash and a letter, each behind its letter. -/
def shortForms : List (Char × Char) :=
  [('"', '"'), ('\\', '\\'), ('b', '\x08'), ('f', '\x0c'), ('n', '\n'), ('r', '\r'), ('t', '\t')]

/-- The ways in which a character is written inside a string. -/
inductive Escaped (c : Char) : Text → Prop
  /-- As it is. -/
  | plain (hquote : c ≠ '"') (hslash : c ≠ '\\') : Escaped c [c]
  /-- By a letter. -/
  | short (letter : Char) (h : (letter, c) ∈ shortForms) : Escaped c ['\\', letter]
  /-- By its number. -/
  | numbered (h : c.toNat < 0x20) :
    Escaped c ['\\', 'u', '0', '0', hexDigit (c.toNat / 16), hexDigit (c.toNat % 16)]

theorem escaped_escape (c : Char) : Escaped c (escape c) := by
  simp only [escape, beq_iff_eq]
  split_ifs with hquote hslash hback hfeed hline hreturn htab hcontrol
  · exact .short '"' (by simp [shortForms, hquote])
  · exact .short '\\' (by simp [shortForms, hslash])
  · exact .short 'b' (by simp [shortForms, hback])
  · exact .short 'f' (by simp [shortForms, hfeed])
  · exact .short 'n' (by simp [shortForms, hline])
  · exact .short 'r' (by simp [shortForms, hreturn])
  · exact .short 't' (by simp [shortForms, htab])
  · exact .numbered hcontrol
  · exact .plain hquote hslash

/-- What a digit of the hexadecimal system stands for. -/
def hexValue (c : Char) : Nat := "0123456789abcdef".toList.idxOf c

theorem hexValue_hexDigit : ∀ n < 16, hexValue (hexDigit n) = n := by decide

/-- The first character of the inside of a string, and what follows it; none at its closing
quote. -/
def unescape? : Text → Option (Char × Text)
  | '\\' :: 'u' :: _ :: _ :: high :: low :: rest =>
    some (Char.ofNat (16 * hexValue high + hexValue low), rest)
  | '\\' :: letter :: rest => (shortForms.lookup letter).map fun c => (c, rest)
  | '"' :: _ => none
  | c :: rest => some (c, rest)
  | [] => none

/-- A character is read back, and what follows it stays. -/
theorem unescape?_escape_append (c : Char) (rest : Text) :
    unescape? (escape c ++ rest) = some (c, rest) := by
  have hescaped := escaped_escape c
  generalize escape c = written at hescaped ⊢
  cases hescaped with
  | plain hquote hslash =>
    rw [List.singleton_append]
    unfold unescape?
    split <;> simp_all
  | short letter h =>
    simp only [shortForms, List.mem_cons, Prod.mk.injEq, List.not_mem_nil, or_false] at h
    rcases h with ⟨rfl, rfl⟩ | ⟨rfl, rfl⟩ | ⟨rfl, rfl⟩ | ⟨rfl, rfl⟩ | ⟨rfl, rfl⟩ |
      ⟨rfl, rfl⟩ | ⟨rfl, rfl⟩ <;> rfl
  | numbered h =>
    have hnumber : 16 * hexValue (hexDigit (c.toNat / 16)) + hexValue (hexDigit (c.toNat % 16)) =
        c.toNat := by
      rw [hexValue_hexDigit _ (by omega), hexValue_hexDigit _ (by omega)]
      omega
    simp only [List.cons_append, List.nil_append, unescape?, hnumber, Char.ofNat_toNat]

/-- A string can be told from what follows it. -/
theorem quoted_append_inj {text other s t : Text} (h : quoted text ++ s = quoted other ++ t) :
    text = other ∧ s = t := by
  have hinside : text.flatMap escape ++ '"' :: s = other.flatMap escape ++ '"' :: t := by
    simpa [quoted] using h
  clear h
  induction text generalizing other with
  | nil =>
    cases other with
    | nil => simpa using hinside
    | cons d other =>
      have hread := congrArg unescape? hinside
      rw [List.flatMap_cons, List.append_assoc, unescape?_escape_append] at hread
      simp [unescape?] at hread
  | cons c text ih =>
    have hread := congrArg unescape? hinside
    rw [List.flatMap_cons, List.append_assoc, unescape?_escape_append] at hread
    cases other with
    | nil => simp [unescape?] at hread
    | cons d other =>
      rw [List.flatMap_cons, List.append_assoc, unescape?_escape_append] at hread
      simp only [Option.some.injEq, Prod.mk.injEq] at hread
      obtain ⟨rfl, hrest⟩ := hread
      obtain ⟨rfl, rfl⟩ := ih hrest
      exact ⟨rfl, rfl⟩

/-! ## Numbers -/

/-- A text that does not go on with a digit, as nothing does that follows a value. -/
def Stops (t : Text) : Prop := ∀ c ∈ t.head?, c.isDigit = false

theorem stops_cons {c : Char} (hc : c.isDigit = false) (t : Text) : Stops (c :: t) := by
  simpa [Stops] using hc

theorem isDigit_of_mem_decimal {n : Nat} {c : Char} (h : c ∈ decimal n) : c.isDigit = true :=
  Nat.isDigit_of_mem_toDigits (by omega) (by omega) h

theorem takeWhile_decimal_append (n : Nat) {s : Text} (hs : Stops s) :
    (decimal n ++ s).takeWhile Char.isDigit = decimal n := by
  rw [List.takeWhile_append_of_pos fun c hc => isDigit_of_mem_decimal hc]
  cases s with
  | nil => simp
  | cons c s =>
    have hc : c.isDigit = false := hs c rfl
    simp [hc]

/-- A number can be told from what follows it, unless that is a digit. -/
theorem decimal_append_inj {n m : Nat} {s t : Text} (hs : Stops s) (ht : Stops t)
    (h : decimal n ++ s = decimal m ++ t) : n = m ∧ s = t := by
  have hdigits : decimal n = decimal m := by
    rw [← takeWhile_decimal_append n hs, h, takeWhile_decimal_append m ht]
  refine ⟨?_, List.append_cancel_left (hdigits ▸ h)⟩
  calc n = Nat.ofDigitChars 10 (decimal n) 0 :=
        (Nat.ofDigitChars_toDigits (by omega) (by omega)).symm
    _ = Nat.ofDigitChars 10 (decimal m) 0 := by rw [hdigits]
    _ = m := Nat.ofDigitChars_toDigits (by omega) (by omega)

/-! ## The compact form -/

/-- The character that a value starts with, where zero stands for any digit. -/
def opening : Json → Char
  | str _ => '"'
  | num _ => '0'
  | arr _ => '['
  | obj _ => '\x7b'

/-- What a character says of the value that starts with it. -/
def openingOf (c : Char) : Char := if c.isDigit then '0' else c

/-- The first character tells of which kind a value is. -/
theorem openingOf_compact (value : Json) (s : Text) :
    (compact value ++ s).head?.map openingOf = some value.opening := by
  cases value with
  | str text => rfl
  | num n =>
    obtain ⟨c, digits, hn⟩ := List.exists_cons_of_ne_nil (Nat.toDigits_ne_nil (n := n) (b := 10))
    have hc : c.isDigit = true := isDigit_of_mem_decimal (n := n) (by simp [decimal, hn])
    simp [compact, decimal, hn, openingOf, hc, opening]
  | arr items => rfl
  | obj members => rfl

/-- A written value that can be told from what follows it. -/
def Readable {α : Type} (write : α → Text) (value : α) : Prop :=
  ∀ (other : α) (s t : Text), Stops s → Stops t →
    write value ++ s = write other ++ t → value = other ∧ s = t

theorem readable_compactMember {member : Text × Json} (h : Readable compact member.2) :
    Readable compactMember member := by
  intro other s t hs ht heq
  simp only [compactMember, List.append_assoc, List.cons_append] at heq
  obtain ⟨hname, hrest⟩ := quoted_append_inj heq
  obtain ⟨hvalue, rfl⟩ := h _ _ _ hs ht (List.cons.inj hrest).2
  exact ⟨Prod.ext hname hvalue, rfl⟩

/-- So can a list of such values, behind a comma each and with a bracket behind the last one. -/
theorem separated_append_inj {α : Type} {write : α → Text} {close : Char} (hcomma : close ≠ ',')
    (hclose : close.isDigit = false) {items others : List α} {s t : Text}
    (hitems : ∀ item ∈ items, Readable write item)
    (h : (items.flatMap fun item => ',' :: write item) ++ close :: s =
      (others.flatMap fun item => ',' :: write item) ++ close :: t) : items = others ∧ s = t := by
  have hstops (rest : List α) (u : Text) :
      Stops ((rest.flatMap fun item => ',' :: write item) ++ close :: u) := by
    cases rest with
    | nil => exact stops_cons hclose u
    | cons next rest => exact stops_cons (by decide) _
  induction items generalizing others with
  | nil =>
    cases others with
    | nil => simpa using h
    | cons other others => simp [hcomma] at h
  | cons item items ih =>
    cases others with
    | nil => simp [Ne.symm hcomma] at h
    | cons other others =>
      simp only [List.flatMap_cons, List.cons_append, List.append_assoc, List.cons.injEq] at h
      obtain ⟨rfl, hrest⟩ := hitems item (by simp) _ _ _ (hstops items s) (hstops others t) h.2
      obtain ⟨rfl, rfl⟩ := ih (fun i hi => hitems i (by simp [hi])) hrest
      exact ⟨rfl, rfl⟩

/-- So can a whole list up to the bracket that closes it, where no item starts with that. -/
theorem writeAll_append_inj {α : Type} {write : α → Text} {writeAll : List α → Text} {close : Char}
    (nil : writeAll [] = [])
    (cons : ∀ item rest,
      writeAll (item :: rest) = write item ++ rest.flatMap fun next => ',' :: write next)
    (hopen : ∀ item s t, write item ++ s ≠ close :: t) (hcomma : close ≠ ',')
    (hclose : close.isDigit = false) {items others : List α} {s t : Text}
    (hitems : ∀ item ∈ items, Readable write item)
    (h : writeAll items ++ close :: s = writeAll others ++ close :: t) :
    items = others ∧ s = t := by
  cases items with
  | nil =>
    cases others with
    | nil => simpa [nil] using h
    | cons other others =>
      rw [nil, cons, List.nil_append, List.append_assoc] at h
      exact absurd h.symm (hopen other _ _)
  | cons item items =>
    cases others with
    | nil =>
      rw [nil, cons, List.nil_append, List.append_assoc] at h
      exact absurd h (hopen item _ _)
    | cons other others =>
      refine separated_append_inj hcomma hclose hitems ?_
      rw [cons, cons] at h
      simp [h]

theorem opening_eq {value other : Json} {s t : Text} (h : compact value ++ s = compact other ++ t) :
    value.opening = other.opening := by
  have hvalue := openingOf_compact value s
  rw [h, openingOf_compact] at hvalue
  exact (Option.some.inj hvalue).symm

/-- No value starts with the bracket that closes an array. -/
theorem compact_append_ne (value : Json) (s t : Text) : compact value ++ s ≠ ']' :: t := by
  intro h
  have hopening := openingOf_compact value s
  rw [h] at hopening
  cases value <;> simp [opening, openingOf] at hopening

/-- In compact form a value can be told from what follows it. -/
theorem readable_compact (value : Json) : Readable compact value := by
  induction value using tree_induction with
  | str text =>
    intro other s t _ _ h
    have hopening := opening_eq h
    cases other with
    | str text' =>
      obtain ⟨rfl, rfl⟩ := quoted_append_inj h
      exact ⟨rfl, rfl⟩
    | _ => simp [opening] at hopening
  | num n =>
    intro other s t hs ht h
    have hopening := opening_eq h
    cases other with
    | num m =>
      obtain ⟨rfl, rfl⟩ := decimal_append_inj hs ht h
      exact ⟨rfl, rfl⟩
    | _ => simp [opening] at hopening
  | arr items ih =>
    intro other s t _ _ h
    have hopening := opening_eq h
    cases other with
    | arr others =>
      simp only [compact, List.cons_append, List.append_assoc, List.cons.injEq, true_and] at h
      obtain ⟨rfl, rfl⟩ := writeAll_append_inj rfl compactItems_cons compact_append_ne
        (by decide) (by decide) ih h
      exact ⟨rfl, rfl⟩
    | _ => simp [opening] at hopening
  | obj members ih =>
    intro other s t _ _ h
    have hopening := opening_eq h
    cases other with
    | obj others =>
      simp only [compact, List.cons_append, List.append_assoc, List.cons.injEq, true_and] at h
      obtain ⟨rfl, rfl⟩ := writeAll_append_inj rfl compactMembers_cons
        (fun member s t => by simp [compactMember, quoted]) (by decide) (by decide)
        (fun member hmember => readable_compactMember (ih member hmember)) h
      exact ⟨rfl, rfl⟩
    | _ => simp [opening] at hopening

/-- Two values with the same compact form are the same. -/
theorem compact_injective {value other : Json} (h : value.compact = other.compact) :
    value = other :=
  (readable_compact value other [] [] (by simp [Stops]) (by simp [Stops]) (by rw [h])).1

/-! ## The pretty form -/

/-- An item on its line. -/
def prettyItem (level : Nat) (item : Json) : Text := newline level ++ prettyAt level item

/-- A member on its line. -/
def prettyMember (level : Nat) (member : Text × Json) : Text :=
  newline level ++ quoted member.1 ++ ": ".toList ++ prettyAt level member.2

theorem prettyItems_cons (level : Nat) (item : Json) (rest : List Json) :
    prettyItems level (item :: rest) =
      prettyItem level item ++ rest.flatMap fun next => ',' :: prettyItem level next :=
  separated_cons (fun _ => rfl) (fun _ _ _ => rfl) item rest

theorem prettyMembers_cons (level : Nat) (member : Text × Json) (rest : List (Text × Json)) :
    prettyMembers level (member :: rest) =
      prettyMember level member ++ rest.flatMap fun next => ',' :: prettyMember level next :=
  separated_cons (fun _ => rfl) (fun _ _ _ => rfl) member rest

/-- Where a character of a written value stands. -/
inductive Place where
  /-- Outside of strings. -/
  | between
  /-- In a string. -/
  | inside
  /-- In a string, right behind a backslash. -/
  | escaped

/-- A written value without the blanks between its tokens. -/
def squeeze : Place → Text → Text
  | _, [] => []
  | .between, c :: rest =>
    if c == ' ' || c == '\n' then squeeze .between rest
    else c :: squeeze (if c == '"' then .inside else .between) rest
  | .inside, c :: rest =>
    c :: squeeze (if c == '\\' then .escaped else if c == '"' then .between else .inside) rest
  | .escaped, c :: rest => c :: squeeze .inside rest

theorem squeeze_newline_append (level : Nat) (t : Text) :
    squeeze .between (newline level ++ t) = squeeze .between t := by
  have hspaces (n : Nat) :
      squeeze .between (List.replicate n ' ' ++ t) = squeeze .between t := by
    induction n with
    | zero => rfl
    | succ n ih => simpa [List.replicate_succ, squeeze] using ih
  simpa [newline, squeeze] using hspaces (2 * level)

/-- A character that is neither a blank nor a quote stays as it is. -/
theorem squeeze_cons {c : Char} (hc : c ≠ ' ' ∧ c ≠ '\n' ∧ c ≠ '"') (t : Text) :
    squeeze .between (c :: t) = c :: squeeze .between t := by
  simp [squeeze, hc]

theorem squeeze_decimal_append (n : Nat) (t : Text) :
    squeeze .between (decimal n ++ t) = decimal n ++ squeeze .between t := by
  have hdigits : ∀ c ∈ decimal n, c.isDigit = true := fun c hc => isDigit_of_mem_decimal hc
  generalize decimal n = digits at hdigits ⊢
  induction digits with
  | nil => rfl
  | cons c digits ih =>
    have hdigit : c.isDigit = true := hdigits c (by simp)
    have hc : c ≠ ' ' ∧ c ≠ '\n' ∧ c ≠ '"' := by
      refine ⟨?_, ?_, ?_⟩ <;> rintro rfl <;> exact absurd hdigit (by decide)
    rw [List.cons_append, squeeze_cons hc, ih fun d hd => hdigits d (by simp [hd])]
    rfl

/-- Inside a string every character stays, and none of them ends the string. -/
theorem squeeze_escape_append (c : Char) (t : Text) :
    squeeze .inside (escape c ++ t) = escape c ++ squeeze .inside t := by
  have hescaped := escaped_escape c
  generalize escape c = written at hescaped ⊢
  cases hescaped with
  | plain hquote hslash => simp [squeeze, hquote, hslash]
  | short letter => simp [squeeze]
  | numbered h =>
    have hdigit : ∀ n < 16, hexDigit n ≠ '\\' ∧ hexDigit n ≠ '"' := by decide
    simp [squeeze, hdigit (c.toNat / 16) (by omega), hdigit (c.toNat % 16) (by omega)]

theorem squeeze_quoted_append (text t : Text) :
    squeeze .between (quoted text ++ t) = quoted text ++ squeeze .between t := by
  have hinside : squeeze .inside (text.flatMap escape ++ '"' :: t) =
      text.flatMap escape ++ '"' :: squeeze .between t := by
    induction text with
    | nil => simp [squeeze]
    | cons c text ih =>
      rw [List.flatMap_cons, List.append_assoc, squeeze_escape_append, ih, List.append_assoc]
  simp [quoted, squeeze, hinside]

theorem squeeze_separated_append {α : Type} {wide narrow : α → Text} {items : List α}
    (h : ∀ item ∈ items, ∀ t,
      squeeze .between (wide item ++ t) = narrow item ++ squeeze .between t) (t : Text) :
    squeeze .between ((items.flatMap fun item => ',' :: wide item) ++ t) =
      (items.flatMap fun item => ',' :: narrow item) ++ squeeze .between t := by
  induction items with
  | nil => rfl
  | cons item items ih =>
    simp only [List.flatMap_cons, List.cons_append, List.append_assoc]
    rw [squeeze_cons (by decide), h item (by simp), ih fun i hi => h i (by simp [hi])]

theorem squeeze_writeAll_append {α : Type} {wide narrow : α → Text}
    {wideAll narrowAll : List α → Text}
    (hwide : ∀ item rest,
      wideAll (item :: rest) = wide item ++ rest.flatMap fun next => ',' :: wide next)
    (hnarrow : ∀ item rest,
      narrowAll (item :: rest) = narrow item ++ rest.flatMap fun next => ',' :: narrow next)
    {item : α} {rest : List α}
    (h : ∀ other ∈ item :: rest, ∀ t,
      squeeze .between (wide other ++ t) = narrow other ++ squeeze .between t) (t : Text) :
    squeeze .between (wideAll (item :: rest) ++ t) =
      narrowAll (item :: rest) ++ squeeze .between t := by
  rw [hwide, hnarrow, List.append_assoc, List.append_assoc, h item (by simp),
    squeeze_separated_append fun other hother => h other (by simp [hother])]

/-- Without the blanks between its tokens the pretty form of a value is its compact form. -/
theorem squeeze_prettyAt_append (value : Json) (level : Nat) (t : Text) :
    squeeze .between (prettyAt level value ++ t) = compact value ++ squeeze .between t := by
  induction value using tree_induction generalizing level t with
  | str text => exact squeeze_quoted_append text t
  | num n => exact squeeze_decimal_append n t
  | arr items ih =>
    cases items with
    | nil => simp [prettyAt, compact, compactItems, squeeze]
    | cons item items =>
      have hitem : ∀ other ∈ item :: items, ∀ u, squeeze .between
          (prettyItem (level + 1) other ++ u) = compact other ++ squeeze .between u := by
        intro other hother u
        rw [prettyItem, List.append_assoc, squeeze_newline_append, ih other hother]
      simp only [prettyAt, compact, List.cons_append, List.append_assoc, List.nil_append]
      rw [squeeze_cons (by decide),
        squeeze_writeAll_append (prettyItems_cons (level + 1)) compactItems_cons hitem,
        squeeze_newline_append, squeeze_cons (by decide)]
  | obj members ih =>
    cases members with
    | nil => simp [prettyAt, compact, compactMembers, squeeze]
    | cons member members =>
      have hmember : ∀ other ∈ member :: members, ∀ u, squeeze .between
          (prettyMember (level + 1) other ++ u) = compactMember other ++ squeeze .between u := by
        intro other hother u
        have hcolon (v : Text) : squeeze .between (": ".toList ++ v) = ':' :: squeeze .between v :=
          by simp [squeeze]
        rw [prettyMember, List.append_assoc, List.append_assoc, List.append_assoc,
          squeeze_newline_append, squeeze_quoted_append, hcolon, ih other hother]
        simp [compactMember]
      simp only [prettyAt, compact, List.cons_append, List.append_assoc, List.nil_append]
      rw [squeeze_cons (by decide),
        squeeze_writeAll_append (prettyMembers_cons (level + 1)) compactMembers_cons hmember,
        squeeze_newline_append, squeeze_cons (by decide)]

theorem squeeze_pretty (value : Json) : squeeze .between value.pretty = value.compact := by
  have h := squeeze_prettyAt_append value 0 []
  rwa [List.append_nil, squeeze, List.append_nil] at h

/-- Two values with the same pretty form are the same. -/
theorem pretty_injective {value other : Json} (h : value.pretty = other.pretty) :
    value = other :=
  compact_injective (by rw [← squeeze_pretty, h, squeeze_pretty])

end SqlClauses.Json
