import CalcSyntax.Expr.Sexpr
import CalcSyntax.Program.Basic

/-!
# Sexpr — a program in prefix form

One line to a statement. A command is a form with its keyword as head; an
empty statement is an empty line and an unread one is only marked.
-/

set_option autoImplicit false

namespace CalcSyntax

/-- A command in prefix form. -/
def Command.sexpr (c : Command) : String :=
  let label := match c.label with
    | some name => " " ++ name
    | none => ""
  "(" ++ withoutParen c.name ++ label ++ Expr.sexprTail c.arguments ++ ")"

/-- A statement in prefix form. -/
def StatementKind.sexpr : StatementKind → String
  | command c => c.sexpr
  | expression e => e.sexpr
  | empty => ""
  | invalid _ => "<invalid>"

/-- A program in prefix form, one statement to a line. -/
def Program.sexpr (p : Program) : String := "\n".intercalate (p.kinds.map StatementKind.sexpr)

end CalcSyntax
