import CalcSyntax.Token.Lexer

/-!
# Walk — a lexer driven step by step

A lexer is a value: whoever holds one may read on, skip the rest of a
statement, start over, or go back to a copy that was kept. A walk is what
comes of any number of such steps. It remembers the copies, so that a step
can go on from each of them, and the items that were read.
-/

set_option autoImplicit false

namespace CalcSyntax

/-- What may be asked of a lexer. -/
inductive Step where
  /-- The next item, and nothing more once the end has been handed out. -/
  | next
  /-- The next item; at the end, the end again. -/
  | read
  /-- To skip what is left of the statement. -/
  | skip
  /-- To start over. -/
  | restart
  /-- To keep a copy of the lexer. -/
  | keep
  /-- To go on from the copy of that number. -/
  | resume (number : Nat)
deriving DecidableEq

/-- A lexer, its copies, and what was read so far. -/
structure Walk where
  lexer : Lexer
  /-- The copies in the order in which they were made. -/
  kept : List Lexer
  /-- The items in the order in which they were read. -/
  met : List Item

namespace Walk

/-- A walk that begins with a fresh lexer. -/
def ofSource (source : String) (g : Grammar) : Walk := ⟨.ofSource source g, [], []⟩

/-- The walk with some more items read and the lexer where that left it. -/
def reading (w : Walk) (items : List Item) (behind : Lexer) : Walk :=
  { w with lexer := behind, met := w.met ++ items }

/-- Takes one step. A copy that was never made is not gone back to. -/
def step (w : Walk) : Step → Walk
  | .next => w.reading w.lexer.next?.1.toList w.lexer.next?.2
  | .read => w.reading [w.lexer.read.1] w.lexer.read.2
  | .skip => { w with lexer := w.lexer.skipToTerminator }
  | .restart => { w with lexer := w.lexer.restart }
  | .keep => { w with kept := w.kept ++ [w.lexer] }
  | .resume number => { w with lexer := w.kept.getD number w.lexer }

/-- Takes steps in turn. -/
def run (w : Walk) (steps : List Step) : Walk := steps.foldl step w

end Walk

end CalcSyntax
