import CalcSyntax.Expr.Basic
import CalcSyntax.Span

/-!
# Program — statements in the order of the text

A program is a list of statements, each with the span it was read from.
A statement is a command, an expression, or one of two stand-ins: nothing
between two terminators, and a text that could not be read. The stand-ins
keep the count, so a program can be written out again line for line.
-/

set_option autoImplicit false

namespace CalcSyntax

/-- A command with what follows it. A command that takes a label has the
label and no arguments. -/
structure Command where
  /-- The keyword as it is registered. -/
  name : String
  arguments : List Expr
  label : Option String
deriving DecidableEq

namespace Command

/-- A command with expressions. -/
def withArguments (name : String) (arguments : List Expr) : Command := ⟨name, arguments, none⟩

/-- A command with a label name. -/
def withLabel (name label : String) : Command := ⟨name, [], some label⟩

end Command

/-- What a statement is. -/
inductive StatementKind where
  | command (command : Command)
  | expression (expr : Expr)
  /-- Nothing between two terminators. -/
  | empty
  /-- A text that is no statement, as it was written. -/
  | invalid (text : String)
deriving DecidableEq

namespace StatementKind

/-- Whether there is nothing. -/
def isEmpty : StatementKind → Bool
  | empty => true
  | _ => false

/-- Whether the text could not be read. -/
def isInvalid : StatementKind → Bool
  | invalid _ => true
  | _ => false

/-- The command of a statement. -/
def command? : StatementKind → Option Command
  | command c => some c
  | _ => none

/-- The expression of a statement. -/
def expression? : StatementKind → Option Expr
  | expression e => some e
  | _ => none

/-- The expressions at the top of a statement: its own, or the arguments. -/
def exprs : StatementKind → List Expr
  | command c => c.arguments
  | expression e => [e]
  | empty => []
  | invalid _ => []

end StatementKind

/-- A statement and where it stands. -/
structure Statement where
  kind : StatementKind
  span : Span
deriving DecidableEq

/-- Statements in the order of the text. -/
structure Program where
  statements : List Statement
deriving DecidableEq

namespace Program

/-- How many statements there are. -/
def size (p : Program) : Nat := p.statements.length

/-- The statements without their places. -/
def kinds (p : Program) : List StatementKind := p.statements.map Statement.kind

end Program

end CalcSyntax
