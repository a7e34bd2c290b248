import CalcSyntax.Program.Basic
import CalcSyntax.Text.Quoted
import CalcSyntax.Text.Rows

/-!
# Outline — a program as an indented tree

The outline shows one node to a line, its children below it and two
spaces further in. Statements also show where they begin. An unread
statement is quoted, so whatever it holds stays on its line.
-/

set_option autoImplicit false

namespace CalcSyntax

/-- A line so many steps in. -/
def indented (depth : Nat) (text : String) : String :=
  String.ofList (List.replicate (2 * depth) ' ') ++ text

namespace Expr

mutual

/-- The lines of an expression whose own line is so many steps in. -/
def outline (depth : Nat) : Expr → List String
  | literal kind lexeme => [indented depth s!"Literal {kind.name} {lexeme}"]
  | var name => [indented depth s!"Variable {name}"]
  | binary left operator right =>
    indented depth s!"Binary {operator}"
      :: (left.outline (depth + 1) ++ right.outline (depth + 1))
  | unary operator operand =>
    indented depth s!"Unary {operator}" :: operand.outline (depth + 1)
  | suffixed operand operator =>
    indented depth s!"Postfix {operator}" :: operand.outline (depth + 1)
  | call function arguments =>
    indented depth s!"Call {function}" :: outlines (depth + 1) arguments
  | group inner => indented depth "Grouping" :: inner.outline (depth + 1)

/-- The lines of the expressions of a list. -/
def outlines (depth : Nat) : List Expr → List String
  | [] => []
  | e :: es => e.outline depth ++ outlines depth es

end

end Expr

/-- The lines of a statement. -/
def Statement.outline (s : Statement) : List String :=
  match s.kind with
  | .command c =>
    indented 1 s!"Command {c.name} @ {s.span.shown}"
      :: ((c.label.toList.map fun name => indented 2 s!"Label {name}")
        ++ Expr.outlines 2 c.arguments)
  | .expression e => indented 1 s!"Expression @ {s.span.shown}" :: e.outline 2
  | .empty => [indented 1 s!"Empty @ {s.span.shown}"]
  | .invalid text => [indented 1 s!"Invalid {quoted text} @ {s.span.shown}"]

/-- The lines of a program, the count of its statements first. -/
def Program.outlineLines (p : Program) : List String :=
  let noun := if p.size = 1 then "statement" else "statements"
  s!"Program ({p.size} {noun})" :: p.statements.flatMap Statement.outline

/-- A program as an indented tree. -/
def Program.outline (p : Program) : String := endedLines p.outlineLines

end CalcSyntax
