import SqlClauses.Occurrence
import SqlClauses.Query

/-!
# Reading with checks

The searches byte by byte, as loops over offsets, with every access checked. A result is missing
when a byte is read that the text does not have, when a piece is cut out of the text that runs
backwards, leaves it or has an end inside a character, and when a loop does not come to an end.

What a condition of a search does not need is not read: the byte behind a word only where the word
was found, and the byte in front of an offset only where there is one.
-/

namespace SqlClauses

/-! ## Bytes -/

/-- The bytes from `start` on; none when `start` lies beyond the end. -/
def bytesFrom? (bytes : List UInt8) (start : Nat) : Option (List UInt8) :=
  if start ≤ bytes.length then some (bytes.drop start) else none

/-- Whether a token can start at an offset: at the front, or behind a boundary. -/
def opensAt? (bytes : List UInt8) : Nat → Option Bool
  | 0 => some true
  | start + 1 => bytes[start]?.map isBoundaryByte

/-- Whether a token can stop at an offset: at the end and beyond it, or in front of a boundary. -/
def closesAt? (bytes : List UInt8) (stop : Nat) : Option Bool :=
  if bytes.length ≤ stop then some true else bytes[stop]?.map isBoundaryByte

/-- Whether a word stands at an offset as a whole token. -/
def wordAt? (bytes : List UInt8) (start : Nat) (word : List UInt8) : Option Bool := do
  let behind ← bytesFrom? bytes start
  if word.isPrefixOf behind then
    if ← opensAt? bytes start then closesAt? bytes (start + word.length) else return false
  else return false

/-! ## Keywords -/

/-- Whether a keyword stands at an offset; `opens` tells whether a token can start there. -/
def Keyword.standsAt? (bytes : List UInt8) (start : Nat) (opens : Bool) (keyword : Keyword) :
    Option Bool :=
  if keyword.isWord then
    if opens then wordAt? bytes start (Text.bytes keyword.spelling) else some false
  else (bytesFrom? bytes start).map (Text.bytes keyword.spelling).isPrefixOf

/-- The first keyword of the table that stands at an offset. Where no token can start, the table is
looked through only if the byte there is a parenthesis. -/
def Keyword.at? (bytes : List UInt8) (start : Nat) : Option (Option Keyword) := do
  let opens ← opensAt? bytes start
  let parenthesis ←
    if opens then some false else bytes[start]?.map fun b => b == 0x28 || b == 0x29
  if opens || parenthesis then byLength.findM? (standsAt? bytes start opens) else return none

namespace Scanner

/-- The next keyword, and the scanner behind it. -/
def checkedNext? (scanner : Scanner) : Option (Option (Hit Keyword) × Scanner) :=
  if scanner.position < Text.byteLength scanner.text then do
    match ← Keyword.at? (Text.bytes scanner.text) scanner.position with
    | some keyword =>
      let span := spanAt scanner.position keyword
      return (some ⟨keyword, span⟩, { scanner with position := span.stop })
    | none => checkedNext? { scanner with position := scanner.position + 1 }
  else return (none, scanner)
termination_by Text.byteLength scanner.text - scanner.position

/-- All keywords that are left: the scanner is called until it returns none. -/
def checkedRemaining? (scanner : Scanner) : Option (List (Hit Keyword)) := do
  match ← scanner.checkedNext? with
  | (none, _) => return []
  | (some hit, scanner) =>
    let hits ← scanner |>.checkedRemaining?
    return hit :: hits
partial_fixpoint

end Scanner

/-! ## Clauses -/

namespace ClauseReader

/-- A reader at the front of a text. -/
def checkedOfText? (text : Text) : Option ClauseReader := do
  let (ahead, scanner) ← (Scanner.ofText text).checkedNext?
  return ⟨scanner, ahead⟩

/-- The next clause, none behind the last one, and the reader behind it. -/
def checkedNext? (reader : ClauseReader) : Option (Option Clause × ClauseReader) :=
  match reader.ahead with
  | none => return (none, reader)
  | some hit => do
    let (following, scanner) ← reader.scanner.checkedNext?
    let raw ← (reader.gap hit following).slice? reader.scanner.text
    return (some ⟨⟨hit.mark, Text.trim raw⟩, hit.span⟩, ⟨scanner, following⟩)

/-- All clauses that are left: the reader is called until it returns none. -/
def checkedRemaining? (reader : ClauseReader) : Option (List Clause) := do
  match ← reader.checkedNext? with
  | (none, _) => return []
  | (some clause, reader) =>
    let clauses ← reader |>.checkedRemaining?
    return clause :: clauses
partial_fixpoint

end ClauseReader

/-- The clauses of a text. -/
def Clause.checkedListOfText? (text : Text) : Option (List Clause) := do
  let reader ← ClauseReader.checkedOfText? text
  reader.checkedRemaining?

/-! ## Conditions -/

/-- The connective that stands at an offset. -/
def Connective.at? (bytes : List UInt8) (start : Nat) : Option (Option Connective) :=
  [and, or].findM? fun word => wordAt? bytes start (Text.bytes word.spelling)

namespace Condition

/-- The conditions from `start` on, when no connective stands between `start` and `offset`. -/
def checkedFrom? (content : Text) (start offset : Nat) : Option (List Condition) :=
  if offset < Text.byteLength content then do
    match ← Connective.at? (Text.bytes content) offset with
    | some word =>
      let raw ← Span.slice? ⟨start, offset⟩ content
      let stop := offset + Text.byteLength word.spelling
      let conditions ← checkedFrom? content stop stop
      return Text.trim raw :: conditions
    | none => checkedFrom? content start (offset + 1)
  else do
    let raw ← Span.slice? ⟨start, Text.byteLength content⟩ content
    return [Text.trim raw]
termination_by Text.byteLength content - offset
decreasing_by
  · have hpos : 0 < Text.byteLength word.spelling := by cases word <;> decide
    omega
  · omega

/-- The conditions of a content. -/
def checkedListOfText? (content : Text) : Option (List Condition) := checkedFrom? content 0 0

end Condition

/-! ## Expressions -/

namespace Expression

/-- Adds what a phrase says, its content read as its keyword prescribes. -/
def checkedRecord? (expression : Expression) (phrase : Phrase) : Option Expression :=
  match phrase.keyword.reading with
  | .fields => some (expression.addFields phrase.keyword (Field.listOfText phrase.content))
  | .conditions => do
    let conditions ← Condition.checkedListOfText? phrase.content
    return expression.addConditions phrase.keyword conditions
  | .join => some (expression.addFields phrase.keyword (Field.joinListOfText phrase.content))
  | .verbatim => some (expression.setText phrase.keyword phrase.content)

/-- What a query says. -/
def checkedParse? (sql : Text) : Option Expression := do
  let clauses ← Clause.checkedListOfText? (Text.normalize sql)
  clauses.foldlM (fun expression clause => expression.checkedRecord? clause.toPhrase) empty

end Expression

end SqlClauses
