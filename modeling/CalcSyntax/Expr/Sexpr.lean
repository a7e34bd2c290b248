import CalcSyntax.Expr.Basic
import CalcSyntax.Grammar.Basic

/-!
# Sexpr — an expression as one parenthesised prefix form

The prefix form shows how a tree nests without any rule of precedence:
every node that has children is a pair of parentheses around its head and
their forms. An operator behind its operand keeps its place, which tells
it from one in front. A function is written without its parenthesis.
-/

set_option autoImplicit false

namespace CalcSyntax

namespace Expr

mutual

/-- An expression in prefix form. -/
def sexpr : Expr → String
  | literal _ lexeme => lexeme
  | var name => name
  | binary left operator right =>
    "(" ++ operator ++ " " ++ left.sexpr ++ " " ++ right.sexpr ++ ")"
  | unary operator operand => "(" ++ operator ++ " " ++ operand.sexpr ++ ")"
  | suffixed operand operator => "(" ++ operand.sexpr ++ " " ++ operator ++ ")"
  | call function arguments => "(call " ++ withoutParen function ++ sexprTail arguments ++ ")"
  | group inner => "(group " ++ inner.sexpr ++ ")"

/-- The forms of a list of expressions, a space in front of each. -/
def sexprTail : List Expr → String
  | [] => ""
  | e :: es => " " ++ e.sexpr ++ sexprTail es

end

end Expr

end CalcSyntax
