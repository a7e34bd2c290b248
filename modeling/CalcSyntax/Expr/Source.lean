import CalcSyntax.Expr.Basic

/-!
# Source — an expression as program text

The text of an expression adds no parenthesis and drops none: a group is
what was written in parentheses, and a call is always closed. Operators
between two operands stand apart from them, all others are glued on. Only
one pair must not touch: a minus sign in front of an operand that begins
with one would be read as a different operator.
-/

set_option autoImplicit false

namespace CalcSyntax

namespace Expr

/-- An operator in front of the text of its operand. -/
def glue (operator operand : String) : String :=
  if operator.toList.getLast? = some '-' ∧ operand.toList.head? = some '-' then
    operator ++ " " ++ operand
  else operator ++ operand

mutual

/-- An expression as program text. -/
def source : Expr → String
  | literal _ lexeme => lexeme
  | var name => name
  | binary left operator right => left.source ++ " " ++ operator ++ " " ++ right.source
  | unary operator operand => glue operator operand.source
  | suffixed operand operator => operand.source ++ operator
  | call function arguments => function ++ ",".intercalate (sources arguments) ++ ")"
  | group inner => "(" ++ inner.source ++ ")"

/-- The texts of the expressions in a list. -/
def sources : List Expr → List String
  | [] => []
  | e :: es => e.source :: sources es

end

/-- The text of a list is made element by element. -/
theorem sources_eq_map (es : List Expr) : sources es = es.map source := by
  induction es with
  | nil => rfl
  | cons e es ih => rw [sources, ih, List.map_cons]

end Expr

end CalcSyntax
