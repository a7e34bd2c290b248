/-!
# Operator — where an operator stands and how tightly it binds

The calculator orders its operators on one flat ladder of fourteen
levels. The rungs are data: no rule of the language names a symbol, it
asks a table for the level instead, so a new operator is a new entry.
The three topmost rungs belong to shapes that are not operators (calls,
groups, plain values), which lets one number say how tightly any
expression holds together.
-/

set_option autoImplicit false

namespace CalcSyntax

/-- A rung of the ladder, the loosest first. -/
inductive Level where
  | store
  | conversion
  | or
  | and
  | comparison
  | additive
  | multiplicative
  | stats
  | negation
  | exponentiation
  | suffix
  | function
  | grouping
  | value
deriving DecidableEq

namespace Level

/-- The rung's number: the larger, the tighter. -/
def rank : Level → Nat
  | store => 1
  | conversion => 2
  | or => 3
  | and => 4
  | comparison => 5
  | additive => 6
  | multiplicative => 7
  | stats => 8
  | negation => 9
  | exponentiation => 10
  | suffix => 11
  | function => 12
  | grouping => 13
  | value => 14

/-- The rung's name in records. -/
def name : Level → String
  | store => "Store"
  | conversion => "Conversion"
  | or => "Or"
  | and => "And"
  | comparison => "Comparison"
  | additive => "Additive"
  | multiplicative => "Multiplicative"
  | stats => "Stats"
  | negation => "Negation"
  | exponentiation => "Exponentiation"
  | suffix => "Postfix"
  | function => "Function"
  | grouping => "Grouping"
  | value => "Value"

/-- Every rung, the loosest first. -/
def ladder : List Level :=
  [store, conversion, or, and, comparison, additive, multiplicative, stats,
    negation, exponentiation, suffix, function, grouping, value]

/-- The rung where a whole expression starts. -/
def lowest : Level := store

/-- The ladder leaves no rung out. -/
theorem mem_ladder (l : Level) : l ∈ ladder := by cases l <;> decide

/-- The ladder climbs: a later rung binds tighter. -/
theorem ladder_sorted : (ladder.map rank).Pairwise (· < ·) := by decide

end Level

/-- Which way a chain of operators on one level is read. -/
inductive Associativity where
  | left
  | right
deriving DecidableEq

namespace Associativity

/-- The direction's name in records. -/
def name : Associativity → String
  | left => "Left"
  | right => "Right"

end Associativity

/-- Where an operator stands relative to what it applies to. -/
inductive Fixity where
  /-- In front of its operand. -/
  | prefixOp
  /-- Between its two operands. -/
  | infixOp
  /-- After its operand. -/
  | postfixOp
deriving DecidableEq

namespace Fixity

/-- The fixity's name in records. -/
def name : Fixity → String
  | prefixOp => "Prefix"
  | infixOp => "Infix"
  | postfixOp => "Postfix"

/-- The direction of an operator whose definition does not say. -/
def usual : Fixity → Associativity
  | prefixOp => .right
  | infixOp => .left
  | postfixOp => .left

end Fixity

/-- An entry of the operator table. -/
structure OperatorEntry where
  symbol : String
  fixity : Fixity
  level : Level
  associativity : Associativity
deriving DecidableEq

namespace OperatorEntry

/-- An operator that is read in the usual direction of its fixity. -/
def usual (symbol : String) (fixity : Fixity) (level : Level) : OperatorEntry :=
  ⟨symbol, fixity, level, fixity.usual⟩

/-- How tightly the right operand must bind. An operator read from the left
wants it strictly tighter than itself: that folds `a - b - c` to the left. -/
def rightBinding (d : OperatorEntry) : Nat :=
  match d.associativity with
  | .left => d.level.rank + 1
  | .right => d.level.rank

/-- How tightly the left operand must bind: the sides change places. -/
def leftBinding (d : OperatorEntry) : Nat :=
  match d.associativity with
  | .left => d.level.rank
  | .right => d.level.rank + 1

end OperatorEntry

end CalcSyntax
