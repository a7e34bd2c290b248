/-!
# Arity — how many arguments a word takes

Commands and functions declare what may follow them. Most shapes are
bounds on a number of expressions; `Arity.label` asks for a name instead
and so accepts no number of expressions at all.
-/

set_option autoImplicit false

namespace CalcSyntax

/-- What a command or a function takes. -/
inductive Arity where
  /-- Nothing may follow. -/
  | nothing
  /-- So many arguments and no other number. -/
  | exactly (count : Nat)
  /-- Any number between two bounds, both allowed. -/
  | between (least most : Nat)
  /-- So many arguments or more. -/
  | atLeast (count : Nat)
  /-- One label name. -/
  | label
deriving DecidableEq

namespace Arity

/-- Whether a number of arguments fits. -/
def accepts : Arity → Nat → Bool
  | nothing, n => n == 0
  | exactly k, n => n == k
  | between least most, n => least ≤ n && n ≤ most
  | atLeast k, n => k ≤ n
  | label, _ => false

/-- Whether the arguments may be left out. -/
def allowsEmpty (a : Arity) : Bool := a.accepts 0

/-- The arity in a sentence. Only an exact one knows a singular. -/
def phrase : Arity → String
  | nothing => "no arguments"
  | exactly 1 => "1 argument"
  | exactly k => s!"{k} arguments"
  | between least most => s!"{least} to {most} arguments"
  | atLeast k => s!"at least {k} arguments"
  | label => "a label"

/-- A label is no list of expressions, whatever its length. -/
theorem accepts_label (n : Nat) : label.accepts n = false := rfl

end Arity

end CalcSyntax
