/-!
# Span — a stretch of program text

A span says where something stands: `start` and `stop` are byte offsets
into the UTF-8 text, so that a span can be cut straight out of it, and
`line` and `column` place its first character for a reader. Lines count
from one, columns from zero and by characters.

Two spans are joined by `Span.join`, which covers both whichever comes
first. Offsets and places are natural numbers: a span is a value, and
whether it fits a given text is for the module that cuts the text.
-/

set_option autoImplicit false

namespace CalcSyntax

/-- A stretch of program text. -/
structure Span where
  /-- Offset of the first byte. -/
  start : Nat
  /-- Offset just past the last byte. -/
  stop : Nat
  /-- Line of the first character, from one. -/
  line : Nat
  /-- Column of the first character, from zero. -/
  column : Nat
deriving DecidableEq

namespace Span

/-- The empty span at one place: where something is missing. -/
def point (offset line column : Nat) : Span := ⟨offset, offset, line, column⟩

/-- The place where every text begins. -/
def origin : Span := point 0 1 0

/-- The empty span at the place where a span begins. -/
def front (a : Span) : Span := point a.start a.line a.column

/-- The shortest span over both. The place is that of the one which begins
first, the left one when they begin together. -/
def join (a b : Span) : Span :=
  let first := if a.start ≤ b.start then a else b
  ⟨first.start, max a.stop b.stop, first.line, first.column⟩

/-- A span that covers no byte. -/
def isEmpty (a : Span) : Bool := a.start == a.stop

/-- The place as readers count it: line and column both from one. -/
def shown (a : Span) : String := s!"{a.line}:{a.column + 1}"

end Span

end CalcSyntax
