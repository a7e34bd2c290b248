/-!
# Expr — expression trees

An expression keeps the spelling of everything it was read from: numbers
as they were written, operators and function names by their symbol. So a
tree has a text of its own, and equal trees have equal texts. Parentheses
that were written are nodes of the tree; none are added by meaning.

Arguments are a list inside the tree, so a function on expressions comes
with a second one on lists of them. Equality is decided by `Expr.same`,
whose law is `same_iff`.
-/

set_option autoImplicit false

namespace CalcSyntax

/-- The two kinds of numbers. -/
inductive LiteralKind where
  | integer
  | float
deriving DecidableEq

namespace LiteralKind

/-- The kind's name in records and outlines. -/
def name : LiteralKind → String
  | integer => "Integer"
  | float => "Float"

end LiteralKind

/-- An expression. -/
inductive Expr where
  /-- A number as it was written. -/
  | literal (kind : LiteralKind) (lexeme : String)
  | var (name : String)
  /-- An operator between two operands. -/
  | binary (left : Expr) (operator : String) (right : Expr)
  /-- An operator in front of its operand. -/
  | unary (operator : String) (operand : Expr)
  /-- An operator behind its operand. -/
  | suffixed (operand : Expr) (operator : String)
  /-- A function and its arguments; the name holds the parenthesis. -/
  | call (function : String) (arguments : List Expr)
  /-- An expression in parentheses. -/
  | group (inner : Expr)

namespace Expr

mutual

/-- Whether two expressions are the same tree. -/
def same : Expr → Expr → Bool
  | literal k x, literal l y => k == l && x == y
  | var x, var y => x == y
  | binary a o b, binary c p d => same a c && o == p && same b d
  | unary o a, unary p b => o == p && same a b
  | suffixed a o, suffixed b p => same a b && o == p
  | call f as, call g bs => f == g && sameAll as bs
  | group a, group b => same a b
  | _, _ => false

/-- Whether two lists hold the same trees in the same order. -/
def sameAll : List Expr → List Expr → Bool
  | [], [] => true
  | a :: as, b :: bs => same a b && sameAll as bs
  | _, _ => false

end

mutual

/-- Sameness is equality. -/
theorem same_iff : ∀ a b : Expr, same a b = true ↔ a = b
  | literal k x, b => by cases b <;> simp [same]
  | var x, b => by cases b <;> simp [same]
  | binary a o c, b => by cases b <;> simp [same, same_iff a, same_iff c, and_assoc]
  | unary o a, b => by cases b <;> simp [same, same_iff a]
  | suffixed a o, b => by cases b <;> simp [same, same_iff a]
  | call f as, b => by cases b <;> simp [same, sameAll_iff as]
  | group a, b => by cases b <;> simp [same, same_iff a]

/-- Sameness of lists is equality. -/
theorem sameAll_iff : ∀ as bs : List Expr, sameAll as bs = true ↔ as = bs
  | [], bs => by cases bs <;> simp [sameAll]
  | a :: as, bs => by cases bs <;> simp [sameAll, same_iff a, sameAll_iff as]

end

instance : DecidableEq Expr := fun a b => decidable_of_iff _ (same_iff a b)

end Expr

end CalcSyntax
