import CalcSyntax.Token.Lexer

/-!
# Stream — all items of a text

`Lexer.items` reads on to the end of the text and lists what it met. Its
flag says what happens behind a stray character: with `resync` the rest
of the statement is skipped, without it reading goes on at the very next
character. Every other list of tokens in this library is made from these
two streams.

A stream ends with the first token behind which reading cannot go on. That
is the end of the text. If a spelling was registered empty it can also be
that word, once it would be met again and again: such a text has no end
of its own, and the stream holds what comes before the repetition.
-/

set_option autoImplicit false

namespace CalcSyntax

namespace Lexer

/-- The items from here to the end. -/
def items (resync : Bool) (lx : Lexer) : List Item :=
  match _read : lx.read with
  | (.ok t, behind) =>
    if _on : lx.progresses t behind then .ok t :: items resync behind else [.ok t]
  | (.error s, behind) =>
    .error s :: items resync (if resync then behind.skipToTerminator else behind)
termination_by lx.ahead
decreasing_by
  · exact ahead_of_ok _read _on
  · exact ahead_of_error _read resync

/-- What `next?` would still answer, one call after the other. -/
def remaining (lx : Lexer) : List Item := if lx.ended then [] else lx.items false

end Lexer

/-- The tokens of a list of items, up to the first stray character. -/
def Item.tokens? : List Item → Except Stray (List Token)
  | [] => .ok []
  | .ok t :: rest => (Item.tokens? rest).map (t :: ·)
  | .error s :: _ => .error s

/-- The tokens of a source, the end included, or its first stray character. -/
def tokenize (source : String) (g : Grammar) : Except Stray (List Token) :=
  Item.tokens? ((Lexer.ofSource source g).items false)

/-- The items of a source, a statement with a stray character being left at
its terminator. -/
def scan (source : String) (g : Grammar) : List Item := (Lexer.ofSource source g).items true

end CalcSyntax
