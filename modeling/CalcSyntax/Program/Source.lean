import CalcSyntax.Expr.Source
import CalcSyntax.Grammar.Basic
import CalcSyntax.Program.Basic

/-!
# Source — a program as text

Every statement is written on a line of its own. An empty one leaves its
line blank and an unread one is written as it stood, so the number of
lines is the number of statements.
-/

set_option autoImplicit false

namespace CalcSyntax

/-- A command as text. A keyword that opens its list also closes it; any
other stands apart from its arguments. -/
def Command.source (c : Command) : String :=
  match c.label with
  | some label => c.name ++ " " ++ label
  | none =>
    let list := ",".intercalate (Expr.sources c.arguments)
    if opensParen c.name then c.name ++ list ++ ")"
    else if c.arguments.isEmpty then c.name
    else c.name ++ " " ++ list

/-- A statement as text. -/
def StatementKind.source : StatementKind → String
  | command c => c.source
  | expression e => e.source
  | empty => ""
  | invalid text => text

/-- A program as text, one statement to a line. -/
def Program.source (p : Program) : String := "\n".intercalate (p.kinds.map StatementKind.source)

end CalcSyntax
