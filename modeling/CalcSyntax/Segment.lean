import CalcSyntax.Token.Stream

/-!
# Segment — the items of one statement

Terminators cut the items of a text into segments, and every terminator
closes one, even where nothing stands in front of it. What follows the
last terminator is a segment only if there is something.

A segment keeps its items and the token that closed it. Its tokens, its
first stray character and its spans are read off them. A stray character
makes the segment broken and leaves the others alone: reading has gone on
at its terminator.
-/

set_option autoImplicit false

namespace CalcSyntax

/-- The token of an item. -/
def Item.token? : Item → Option Token
  | .ok t => some t
  | .error _ => none

/-- The stray character of an item. -/
def Item.stray? : Item → Option Stray
  | .ok _ => none
  | .error s => some s

/-- Where an item stands. -/
def Item.span : Item → Span
  | .ok t => t.span
  | .error s => s.span

/-- The items of one statement, and the token behind them. -/
structure Segment where
  items : List Item
  /-- The terminator, or the end of the text. -/
  closer : Token

namespace Segment

/-- The tokens of the statement. -/
def tokens (s : Segment) : List Token := s.items.filterMap Item.token?

/-- The first stray character of the statement. -/
def stray? (s : Segment) : Option Stray := s.items.findSome? Item.stray?

/-- The place where the statement ends. -/
def stop (s : Segment) : Span := s.closer.span.front

/-- From the first item up to the place where the statement ends. -/
def span (s : Segment) : Span :=
  match s.items with
  | [] => s.stop
  | first :: _ => first.span.join s.stop

/-- Whether there is nothing between the terminators. -/
def isBlank (s : Segment) : Bool := s.items.isEmpty

/-- Whether a terminator closed the segment. -/
def isTerminated (s : Segment) : Bool := s.closer.kind == .terminator

/-- Puts an item in front of the first segment. -/
def putFront (item : Item) : List Segment → List Segment
  | [] => []
  | s :: rest => { s with items := item :: s.items } :: rest

/-- Cuts a list of items at its terminators and at the end of the text. -/
def split : List Item → List Segment
  | [] => []
  | .ok t :: rest =>
    if t.kind = .terminator then ⟨[], t⟩ :: split rest
    else if t.kind = .eof then [⟨[], t⟩]
    else putFront (.ok t) (split rest)
  | .error s :: rest => putFront (.error s) (split rest)

/-- The segments of a list of items: nothing behind the last terminator is
no segment. -/
def ofItems (items : List Item) : List Segment :=
  (split items).filter fun s => s.isTerminated || !s.isBlank

end Segment

/-- The segments of a source. -/
def segments (source : String) (g : Grammar) : List Segment := Segment.ofItems (scan source g)

end CalcSyntax
