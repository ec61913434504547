import SqlClauses.Text.Basic

/-!
# Spans

A span is a half-open range of byte offsets. Nothing forbids a span that runs backwards or that
leaves the text, so its length and the text under it are optional.
-/

namespace SqlClauses

/-- The bytes from `start` up to, but not with, `stop`. -/
structure Span where
  start : Nat
  stop : Nat
  deriving DecidableEq, Repr

namespace Span

/-- The number of bytes; none when the span runs backwards. -/
def length? (span : Span) : Option Nat :=
  if span.start ≤ span.stop then some (span.stop - span.start) else none

/-- A span that ends where it starts. -/
def isEmpty (span : Span) : Bool := span.start == span.stop

/-- The characters of `text` under the span; none when the span runs backwards, leaves the text or
has an end inside a character. -/
def slice? (span : Span) (text : Text) : Option Text := do
  let length ← span.length?
  let (_, behind) ← Text.splitAtByte? text span.start
  let (inside, _) ← Text.splitAtByte? behind length
  return inside

end Span

end SqlClauses
