import SqlClauses.Span

/-!
# Cutting a text at marks

A mark is a fixed string that a text can be cut at: a keyword, or a word that links two conditions.
A mark that is a word counts only where it stands as a whole token. Reading from the front, the
first place where a mark fits is a hit, and the search goes on behind it.

Two ways to read are defined side by side. `seek` stops at the first hit and returns what lies
before and behind it. `Cut.ofText` reads to the end in one pass and keeps all the pieces.
-/

namespace SqlClauses

/-- The marks that a text can be cut at. -/
class Mark (κ : Type) where
  /-- The marks, in the order in which they are tried at one place. -/
  candidates : List κ
  /-- How a mark is written. -/
  spelling : κ → Text
  /-- Whether a mark counts only as a whole token. -/
  isWord : κ → Bool
  /-- No mark is written as nothing. -/
  spelling_ne_nil : ∀ mark : κ, spelling mark ≠ []

/-! ## Tokens -/

/-- The characters that end a token: space, tab, line feed, form feed, carriage return and the two
parentheses. -/
def isBoundary (c : Char) : Bool :=
  c == ' ' || c == '\t' || c == '\n' || c == '\x0c' || c == '\r' || c == '(' || c == ')'

/-- A token can start behind `before`: it is empty or ends with a boundary. -/
def opensAfter (before : Text) : Bool := before.getLast?.all isBoundary

/-- A token can stop before `behind`: it is empty or starts with a boundary. -/
def closesBefore (behind : Text) : Bool := behind.head?.all isBoundary

variable {κ : Type} [Mark κ]

/-- A mark fits at the front of a text that starts with its spelling. A word has to be a whole
token: `opens` tells whether a token can start here. -/
def fits (opens : Bool) (text : Text) (mark : κ) : Bool :=
  (Mark.spelling mark).isPrefixOf text &&
    (!Mark.isWord mark ||
      (opens && closesBefore (text.drop (Mark.spelling mark).length)))

/-- The first candidate that fits at the front of a text. -/
def markAt? (opens : Bool) (text : Text) : Option κ := Mark.candidates.find? (fits opens text)

/-! ## The first hit -/

/-- A mark found in a text, with the raw text on both sides. -/
structure Found (κ : Type) where
  /-- What stands before the mark. -/
  lead : Text
  /-- The mark. -/
  mark : κ
  /-- What follows the mark. -/
  rest : Text

/-- The first place of a text where a mark fits. -/
def seek (opens : Bool) : Text → Option (Found κ)
  | [] => none
  | c :: rest =>
    match markAt? opens (c :: rest) with
    | some mark => some ⟨[], mark, (c :: rest).drop (Mark.spelling mark).length⟩
    | none => (seek (isBoundary c) rest).map fun found => { found with lead := c :: found.lead }

/-- A mark and the bytes that it covers. -/
structure Hit (κ : Type) where
  mark : κ
  span : Span
  deriving DecidableEq, Repr

/-- The span of a mark written at byte `start`. -/
def spanAt (start : Nat) (mark : κ) : Span :=
  ⟨start, start + Text.byteLength (Mark.spelling mark)⟩

/-- The first mark that starts at byte `start` or later. -/
def Hit.next? (text : Text) (start : Nat) : Option (Hit κ) :=
  let (before, rest) := Text.splitFrom start text
  (seek (opensAfter before) rest).map fun found =>
    ⟨found.mark, spanAt (Text.byteLength before + Text.byteLength found.lead) found.mark⟩

/-! ## The whole text in one pass -/

/-- A mark with the raw text that follows it, up to the next mark. -/
structure Piece (κ : Type) where
  mark : κ
  tail : Text
  deriving DecidableEq, Repr

/-- A text cut at all its marks. -/
structure Cut (κ : Type) where
  /-- The raw text before the first mark. -/
  lead : Text
  /-- The marks in order, each with what follows it. -/
  pieces : List (Piece κ)
  deriving DecidableEq, Repr

/-- A mark of a text, the bytes that it covers, and the raw text up to the next mark. -/
structure Section (κ : Type) extends Hit κ where
  tail : Text
  deriving DecidableEq, Repr

namespace Cut

/-- Puts a character before the first mark. -/
def push (c : Char) (cut : Cut κ) : Cut κ := { cut with lead := c :: cut.lead }

/-- Puts a mark at the front. -/
def pushMark (mark : κ) (cut : Cut κ) : Cut κ := ⟨[], ⟨mark, cut.lead⟩ :: cut.pieces⟩

/-- Cuts a text from its front, where `skip` is the number of characters that still belong to the
mark found last. -/
def scan (opens : Bool) (skip : Nat) : Text → Cut κ
  | [] => ⟨[], []⟩
  | c :: rest =>
    match skip with
    | skip + 1 => scan (isBoundary c) skip rest
    | 0 =>
      match markAt? opens (c :: rest) with
      | some mark => pushMark mark (scan (isBoundary c) ((Mark.spelling mark).length - 1) rest)
      | none => push c (scan (isBoundary c) 0 rest)

/-- A text cut at all its marks. -/
def ofText (text : Text) : Cut κ := scan true 0 text

/-- A text cut at the marks that start at byte `start` or later. -/
def ofTextFrom (start : Nat) (text : Text) : Cut κ :=
  let (before, rest) := Text.splitFrom start text
  let cut := scan (opensAfter before) 0 rest
  { cut with lead := before ++ cut.lead }

/-- The text that a cut came from. -/
def text (cut : Cut κ) : Text :=
  cut.lead ++ cut.pieces.flatMap fun piece => Mark.spelling piece.mark ++ piece.tail

/-- The pieces with the bytes that their marks cover, when the first stands at byte `start`. -/
def locate (start : Nat) : List (Piece κ) → List (Section κ)
  | [] => []
  | piece :: rest =>
    let span := spanAt start piece.mark
    ⟨⟨piece.mark, span⟩, piece.tail⟩ :: locate (span.stop + Text.byteLength piece.tail) rest

/-- The sections of the text, one for each mark. -/
def sections (cut : Cut κ) : List (Section κ) := locate (Text.byteLength cut.lead) cut.pieces

/-- The marks of the text with the bytes that they cover. -/
def hits (cut : Cut κ) : List (Hit κ) := cut.sections.map Section.toHit

/-- The raw texts between the marks, from the front of the text to its end. -/
def gaps (cut : Cut κ) : List Text := cut.lead :: cut.pieces.map Piece.tail

end Cut

end SqlClauses
