import CalcSyntax.Analysis
import CalcSyntax.Json.Basic

/-!
# Record — tokens, trees, tables and messages as records

A plain value is a record of its fields. A value of one of several sorts
stands under the name of its sort, or is that name alone if there is
nothing to add. A label and a statement span are left out where there is
none; a missing hint is written as null.
-/

set_option autoImplicit false

namespace CalcSyntax

/-- A span as a record. -/
def Span.record (s : Span) : Json :=
  .obj [("start", .num s.start), ("end", .num s.stop), ("line", .num s.line),
    ("column", .num s.column)]

/-- A token as a record. -/
def Token.record (t : Token) : Json :=
  .obj [("kind", .str t.kind.name), ("lexeme", .str t.lexeme), ("span", t.span.record)]

/-- An arity as a record. -/
def Arity.record : Arity → Json
  | .nothing => .str "None"
  | .exactly n => .tagged "Exactly" (.num n)
  | .between least most => .tagged "Between" (.arr [.num least, .num most])
  | .atLeast n => .tagged "AtLeast" (.num n)
  | .label => .str "Label"

/-- A command definition as a record. -/
def CommandEntry.record (d : CommandEntry) : Json :=
  .obj [("keyword", .str d.keyword), ("args", d.args.record)]

/-- A function definition as a record. -/
def FunctionEntry.record (d : FunctionEntry) : Json :=
  .obj [("name", .str d.name), ("args", d.args.record)]

/-- The fields of an operator definition. -/
def OperatorEntry.fields (d : OperatorEntry) : List (String × Json) :=
  [("symbol", .str d.symbol), ("fixity", .str d.fixity.name), ("precedence", .str d.level.name),
    ("associativity", .str d.associativity.name)]

/-- An operator definition as a record. -/
def OperatorEntry.record (d : OperatorEntry) : Json := .obj d.fields

namespace Expr

mutual

/-- An expression as a record. -/
def record : Expr → Json
  | literal kind lexeme =>
    .tagged "Literal" (.obj [("kind", .str kind.name), ("lexeme", .str lexeme)])
  | var name => .tagged "Variable" (.str name)
  | binary left operator right =>
    .tagged "Binary"
      (.obj [("left", left.record), ("operator", .str operator), ("right", right.record)])
  | unary operator operand =>
    .tagged "Unary" (.obj [("operator", .str operator), ("operand", operand.record)])
  | suffixed operand operator =>
    .tagged "Postfix" (.obj [("operator", .str operator), ("operand", operand.record)])
  | call function arguments =>
    .tagged "Call" (.obj [("function", .str function), ("arguments", .arr (records arguments))])
  | group inner => .tagged "Grouping" inner.record

/-- The expressions of a list as records. -/
def records : List Expr → List Json
  | [] => []
  | e :: es => e.record :: records es

end

end Expr

/-- A command as a record. -/
def Command.record (c : Command) : Json :=
  let label := match c.label with
    | some name => [("label", Json.str name)]
    | none => []
  .obj ([("name", .str c.name), ("arguments", .arr (Expr.records c.arguments))] ++ label)

/-- A statement without its place as a record. -/
def StatementKind.record : StatementKind → Json
  | command c => .tagged "Command" c.record
  | expression e => .tagged "Expression" e.record
  | empty => .str "Empty"
  | invalid text => .tagged "Invalid" (.str text)

/-- A statement as a record. -/
def Statement.record (s : Statement) : Json :=
  .obj [("kind", s.kind.record), ("span", s.span.record)]

/-- A program as a record. -/
def Program.record (p : Program) : Json :=
  .obj [("statements", .arr (p.statements.map Statement.record))]

/-- The fields of a diagnostic. -/
def Diagnostic.fields (d : Diagnostic) : List (String × Json) :=
  let statement := match d.statement with
    | some span => [("statement", span.record)]
    | none => []
  [("kind", .str d.kind.name), ("code", .str d.code), ("message", .str d.message),
    ("span", d.span.record), ("help", .ofText? d.hint)] ++ statement

/-- A diagnostic as a record. -/
def Diagnostic.record (d : Diagnostic) : Json := .obj d.fields

/-- An analysis as a record. -/
def Analysis.record (a : Analysis) : Json :=
  .obj [("program", a.program.record), ("diagnostics", .arr (a.diagnostics.map Diagnostic.record))]

end CalcSyntax
