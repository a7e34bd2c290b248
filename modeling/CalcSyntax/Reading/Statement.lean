import CalcSyntax.Program.Basic
import CalcSyntax.Reading.Expression

/-!
# Statement — the tokens of a segment as a statement

A statement is nothing at all, a command, or one expression. A command
takes a label name or a list of expressions, as its definition says; the
number of expressions is checked once the whole statement is read. No
token may be left over.
-/

set_option autoImplicit false

namespace CalcSyntax

namespace Setting

variable (s : Setting)

/-- What follows the keyword of a known command. -/
def operands (levels : Nat) (keyword : Token) (d : CommandEntry) : Rule Command :=
  if d.takesLabel then do
    let label ← s.expect .label .labelName
    s.expectEnd
    pure (.withLabel keyword.lexeme label.lexeme)
  else do
    let es ← s.arguments (s.expression levels Level.lowest.rank) d.opensParen
    s.expectEnd
    if d.args.accepts es.length then pure (.withArguments keyword.lexeme es)
    else Rule.refuse (.wrongCount keyword d.args es.length)

/-- A command and all that belongs to it. -/
def command (levels : Nat) : Rule Command := do
  let keyword ← s.expect .command .command
  match s.grammar.command? keyword.lexeme with
  | none => Rule.refuse (.unknownCommand keyword)
  | some d => s.operands levels keyword d

/-- An expression that is a whole statement. -/
def expressionStatement (levels : Nat) : Rule StatementKind := do
  let e ← s.expression levels Level.lowest.rank
  s.expectEnd
  pure (.expression e)

/-- A statement. -/
def statement (levels : Nat) : Rule StatementKind := do
  let t ← s.peek
  match t.kind with
  | .eof => pure .empty
  | .command => do
    let c ← s.command levels
    pure (.command c)
  | _ => s.expressionStatement levels

end Setting

/-- Reads the tokens of one statement, which ends at `closing`. -/
def readStatement (g : Grammar) (tokens : List Token) (closing : Span) :
    Except Fault StatementKind :=
  ((Setting.mk g closing).statement maxNesting |>.run tokens).result

end CalcSyntax
