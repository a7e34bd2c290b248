import CalcSyntax.Grammar.Arity
import CalcSyntax.Grammar.Operator
import CalcSyntax.Grammar.Table

/-!
# Grammar — the tables a program is read against

A grammar is what the rest of the library consults and does not own: the
commands, the functions and the operators of a calculator. Commands go by
their keyword, functions by their name and operators by their symbol
together with their fixity, so that `-` may be a subtraction and a
negation at once.

`Grammar.calculator` is the surface of a plain calculator. Any other
grammar is reached from it, or from `Grammar.empty`, by registering
entries.
-/

set_option autoImplicit false

namespace CalcSyntax

/-- A command and what it takes. A keyword that ends in `(` opens its
argument list itself. -/
structure CommandEntry where
  keyword : String
  args : Arity
deriving DecidableEq

/-- Whether a spelling ends with an opening parenthesis. -/
def opensParen (spelling : String) : Bool := spelling.toList.getLast? == some '('

/-- A spelling without the opening parentheses at its end. -/
def withoutParen (spelling : String) : String :=
  String.ofList (spelling.toList.reverse.dropWhile (· == '(')).reverse

namespace CommandEntry

/-- Whether a label name follows instead of expressions. -/
def takesLabel (d : CommandEntry) : Bool := d.args == .label

/-- Whether the keyword opens the argument list itself. -/
def opensParen (d : CommandEntry) : Bool := CalcSyntax.opensParen d.keyword

end CommandEntry

/-- A function and what it takes. Its name holds the opening parenthesis. -/
structure FunctionEntry where
  name : String
  args : Arity
deriving DecidableEq

instance : Keyed CommandEntry String := ⟨CommandEntry.keyword⟩

instance : Keyed FunctionEntry String := ⟨FunctionEntry.name⟩

instance : Keyed OperatorEntry (String × Fixity) := ⟨fun d => (d.symbol, d.fixity)⟩

/-- The tables a program is read against. -/
structure Grammar where
  commands : Table CommandEntry
  functions : Table FunctionEntry
  operators : Table OperatorEntry

namespace Table

/-- The operator of a symbol and a fixity. -/
def operator? (t : Table OperatorEntry) (symbol : String) (fixity : Fixity) :
    Option OperatorEntry :=
  t.get? (symbol, fixity)

/-- The operators on one rung, in order of registration. -/
def atLevel (t : Table OperatorEntry) (level : Level) : List OperatorEntry :=
  t.entries.filter fun d => d.level = level

/-- One symbol per entry, so that a symbol of two fixities comes twice. -/
def symbols (t : Table OperatorEntry) : List String := t.entries.map OperatorEntry.symbol

end Table

/-- The commands of the calculator. Control flow is known by its arguments
alone: pairing an `If` with its `End` is for whoever runs the program. -/
def calculatorCommands : List CommandEntry :=
  [⟨"Disp", .atLeast 0⟩, ⟨"If", .exactly 1⟩, ⟨"Then", .nothing⟩, ⟨"Else", .nothing⟩,
    ⟨"While", .exactly 1⟩, ⟨"Repeat", .exactly 1⟩, ⟨"For(", .between 3 4⟩,
    ⟨"End", .nothing⟩, ⟨"Lbl", .label⟩, ⟨"Goto", .label⟩]

/-- The functions of the calculator. -/
def calculatorFunctions : List FunctionEntry :=
  [⟨"not(", .exactly 1⟩, ⟨"abs(", .exactly 1⟩, ⟨"int(", .exactly 1⟩, ⟨"sqrt(", .exactly 1⟩,
    ⟨"min(", .exactly 2⟩, ⟨"max(", .exactly 2⟩]

/-- The operators of the calculator. Three rungs, for statistics,
conversions and operators behind their operand, hold none of its own. -/
def calculatorOperators : List OperatorEntry :=
  [.usual "->" .infixOp .store, .usual "→" .infixOp .store,
    .usual "or" .infixOp .or, .usual "xor" .infixOp .or,
    .usual "and" .infixOp .and,
    .usual "=" .infixOp .comparison, .usual "!=" .infixOp .comparison,
    .usual "<" .infixOp .comparison, .usual ">" .infixOp .comparison,
    .usual "<=" .infixOp .comparison, .usual ">=" .infixOp .comparison,
    .usual "+" .infixOp .additive, .usual "-" .infixOp .additive,
    .usual "*" .infixOp .multiplicative, .usual "/" .infixOp .multiplicative,
    .usual "-" .prefixOp .negation, .usual "--" .prefixOp .negation,
    .usual "^" .infixOp .exponentiation]

namespace Grammar

/-- The grammar that knows numbers, variables and parentheses only. -/
def empty : Grammar := ⟨.empty, .empty, .empty⟩

/-- The surface of a plain calculator. -/
def calculator : Grammar :=
  ⟨.ofList calculatorCommands, .ofList calculatorFunctions, .ofList calculatorOperators⟩

/-- Adds a command, or replaces the one of its keyword. -/
def registerCommand (g : Grammar) (d : CommandEntry) : Grammar :=
  { g with commands := g.commands.register d }

/-- Adds a function, or replaces the one of its name. -/
def registerFunction (g : Grammar) (d : FunctionEntry) : Grammar :=
  { g with functions := g.functions.register d }

/-- Adds an operator, or replaces the one of its symbol and fixity. -/
def registerOperator (g : Grammar) (d : OperatorEntry) : Grammar :=
  { g with operators := g.operators.register d }

/-- The command of a keyword. -/
def command? (g : Grammar) (keyword : String) : Option CommandEntry := g.commands.get? keyword

/-- The function of a name. -/
def function? (g : Grammar) (name : String) : Option FunctionEntry := g.functions.get? name

end Grammar

end CalcSyntax
