import SqlClauses.Scanner
import SqlClauses.Text.Blank

/-!
# Clauses

A phrase is a keyword with what is said under it, and a clause is a phrase at its place in a text.
`Clause.listOfText` takes a whole text apart. A `ClauseReader` hands out the same clauses one by
one, from a scanner that is always one keyword ahead.
-/

namespace SqlClauses

/-- A keyword with what is said under it. -/
structure Phrase where
  keyword : Keyword
  content : Text
  deriving DecidableEq, Repr

/-- A keyword of a text, with the text up to the next keyword, less the blanks at its ends. -/
structure Clause extends Phrase where
  /-- The bytes that the keyword covers. -/
  span : Span
  deriving DecidableEq, Repr

namespace Clause

/-- The clause of a section. -/
def ofSection (part : Section Keyword) : Clause := ⟨⟨part.mark, Text.trim part.tail⟩, part.span⟩

/-- The clauses of a text, in order. What stands before the first keyword is dropped. -/
def listOfText (text : Text) : List Clause := (Cut.ofText text).sections.map ofSection

/-- A clause that stands `distance` bytes further behind. -/
def shift (distance : Nat) (clause : Clause) : Clause :=
  { clause with span := ⟨clause.span.start + distance, clause.span.stop + distance⟩ }

end Clause

/-! ## Reading clause by clause -/

/-- Reads the clauses of a text one by one. -/
structure ClauseReader where
  /-- The scanner, which stands behind `ahead`. -/
  scanner : Scanner
  /-- The keyword that opens the next clause. -/
  ahead : Option (Hit Keyword)
  deriving DecidableEq, Repr

namespace ClauseReader

/-- A reader at the front of a text. -/
def ofText (text : Text) : ClauseReader :=
  let (ahead, scanner) := (Scanner.ofText text).next
  ⟨scanner, ahead⟩

/-- The number of clauses that are left. -/
def remaining (reader : ClauseReader) : Nat :=
  reader.ahead.toList.length + (reader.ahead.elim 0 fun _ => reader.scanner.remaining.length)

/-- The bytes between a keyword and the next one, or the end of the text. -/
def gap (reader : ClauseReader) (hit : Hit Keyword) (following : Option (Hit Keyword)) : Span :=
  ⟨hit.span.stop, (following.map (·.span.start)).getD (Text.byteLength reader.scanner.text)⟩

/-- The next clause, none behind the last one, and the reader behind it. Without result if the
bytes up to the next keyword are no whole characters of the text. -/
def next? (reader : ClauseReader) : Option (Option Clause × ClauseReader) :=
  match reader.ahead with
  | none => some (none, reader)
  | some hit =>
    let (following, scanner) := reader.scanner.next
    ((reader.gap hit following).slice? reader.scanner.text).map fun raw =>
      (some ⟨⟨hit.mark, Text.trim raw⟩, hit.span⟩, ⟨scanner, following⟩)

/-- The results of the next `count` calls of `next?`. -/
def draw? : Nat → ClauseReader → Option (List (Option Clause))
  | 0, _ => some []
  | count + 1, reader => do
    let (clause, reader) ← reader.next?
    let clauses ← draw? count reader
    return clause :: clauses

end ClauseReader

end SqlClauses
