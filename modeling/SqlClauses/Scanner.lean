import SqlClauses.Cut
import SqlClauses.Keyword

/-!
# Scanning for keywords

A scanner walks over a text and hands out its keywords, one hit at a time. It may be set down at
any byte offset, also inside a character or beyond the end.
-/

namespace SqlClauses

/-- A text is cut at its keywords, the longest tried first. -/
instance : Mark Keyword where
  candidates := Keyword.byLength
  spelling := Keyword.spelling
  isWord := Keyword.isWord
  spelling_ne_nil := Keyword.spelling_ne_nil

/-- The keywords of a text, in order. -/
def Keyword.hits (text : Text) : List (Hit Keyword) := (Cut.ofText text).hits

/-- The first keyword that starts at byte `start` or later. -/
def Keyword.nextHit? (text : Text) (start : Nat) : Option (Hit Keyword) := Hit.next? text start

/-- A place in a text from which keywords are read. -/
structure Scanner where
  text : Text
  /-- The byte at which the search goes on. -/
  position : Nat
  deriving DecidableEq, Repr

namespace Scanner

/-- A scanner at the front of a text. -/
def ofText (text : Text) : Scanner := ⟨text, 0⟩

/-- Nothing is left to search. -/
def isDone (scanner : Scanner) : Bool := Text.byteLength scanner.text ≤ scanner.position

/-- A scanner that has searched all of its text. -/
def finish (scanner : Scanner) : Scanner :=
  { scanner with position := max scanner.position (Text.byteLength scanner.text) }

/-- The next keyword, and the scanner behind it. -/
def next (scanner : Scanner) : Option (Hit Keyword) × Scanner :=
  match Keyword.nextHit? scanner.text scanner.position with
  | some hit => (some hit, { scanner with position := hit.span.stop })
  | none => (none, scanner.finish)

/-- All keywords that the scanner has still to hand out. -/
def remaining (scanner : Scanner) : List (Hit Keyword) :=
  (Cut.ofTextFrom scanner.position scanner.text).hits

/-- The scanner behind the next `count` calls of `next`. -/
def after : Nat → Scanner → Scanner
  | 0, scanner => scanner
  | count + 1, scanner => after count scanner.next.2

/-- The results of the next `count` calls of `next`. -/
def draw : Nat → Scanner → List (Option (Hit Keyword))
  | 0, _ => []
  | count + 1, scanner =>
    let (hit, scanner) := scanner.next
    hit :: draw count scanner

end Scanner

end SqlClauses
