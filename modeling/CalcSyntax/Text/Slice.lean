import CalcSyntax.Grammar.Lexicon
import CalcSyntax.Span

/-!
# Slice — cutting a text at byte offsets

Spans count bytes while texts are lists of characters, so a cut may fall
inside a character or behind the end. Then there is no slice. Offsets in
the wrong order have none either.
-/

set_option autoImplicit false

namespace CalcSyntax

/-- The text behind its first bytes, if they are whole characters. -/
def dropBytes? : Nat → List Char → Option (List Char)
  | 0, cs => some cs
  | _ + 1, [] => none
  | n + 1, c :: cs => if c.utf8Size ≤ n + 1 then dropBytes? (n + 1 - c.utf8Size) cs else none

/-- The first bytes of a text, if they are whole characters. -/
def takeBytes? : Nat → List Char → Option (List Char)
  | 0, _ => some []
  | _ + 1, [] => none
  | n + 1, c :: cs =>
    if c.utf8Size ≤ n + 1 then (takeBytes? (n + 1 - c.utf8Size) cs).map (c :: ·) else none

/-- The part of a text from one offset to another. -/
def slice? (text : List Char) (start stop : Nat) : Option (List Char) :=
  if start ≤ stop then (dropBytes? start text).bind (takeBytes? (stop - start)) else none

/-- The part of a text that a span covers. -/
def Span.slice? (span : Span) (text : List Char) : Option (List Char) :=
  CalcSyntax.slice? text span.start span.stop

end CalcSyntax
