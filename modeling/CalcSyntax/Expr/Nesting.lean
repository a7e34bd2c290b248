import CalcSyntax.Expr.Basic
import CalcSyntax.Grammar.Basic

/-!
# Nesting — trees that need no further parentheses

Every expression has a rung: the level of its operator, or one of the top
rungs for shapes that no operator can pull apart. `Expr.isWellNested` says
that a tree needs no parentheses it does not have: no operand of an
operator binds more loosely than its place allows.

Two operands are exempt, because no reader could take them apart. A right
operand that begins with its own operator ends only where that operator's
operand does, and a left operand that ends with its operator is complete
before the next one comes.
-/

set_option autoImplicit false

namespace CalcSyntax

namespace Expr

variable (ops : Table OperatorEntry)

/-- The rank of an operator, below the ladder if it is not listed. -/
def rankOf (symbol : String) (fixity : Fixity) : Nat :=
  ((ops.operator? symbol fixity).map fun d => d.level.rank).getD 0

/-- How tightly an expression holds together. -/
def tightness : Expr → Nat
  | literal _ _ => Level.value.rank
  | var _ => Level.value.rank
  | group _ => Level.grouping.rank
  | call _ _ => Level.function.rank
  | binary _ operator _ => rankOf ops operator .infixOp
  | unary operator _ => rankOf ops operator .prefixOp
  | suffixed _ operator => rankOf ops operator .postfixOp

/-- Whether the operator of an expression stands in front. -/
def isUnary : Expr → Bool
  | unary _ _ => true
  | _ => false

/-- Whether the operator of an expression stands behind. -/
def isSuffixed : Expr → Bool
  | suffixed _ _ => true
  | _ => false

mutual

/-- Whether every operand binds as tightly as its place asks for. -/
def isWellNested : Expr → Bool
  | literal _ _ => true
  | var _ => true
  | group inner => inner.isWellNested
  | call _ arguments => areWellNested arguments
  | binary left operator right =>
    match ops.operator? operator .infixOp with
    | none => false
    | some d =>
      (left.isSuffixed || d.leftBinding ≤ left.tightness ops)
        && (right.isUnary || d.rightBinding ≤ right.tightness ops)
        && left.isWellNested && right.isWellNested
  | unary operator operand =>
    match ops.operator? operator .prefixOp with
    | none => false
    | some d => d.level.rank ≤ operand.tightness ops && operand.isWellNested
  | suffixed operand operator =>
    match ops.operator? operator .postfixOp with
    | none => false
    | some d => d.level.rank ≤ operand.tightness ops && operand.isWellNested

/-- Whether every expression of a list does. -/
def areWellNested : List Expr → Bool
  | [] => true
  | e :: es => e.isWellNested && areWellNested es

end

end Expr

end CalcSyntax
