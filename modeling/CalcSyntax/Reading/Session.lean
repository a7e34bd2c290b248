import CalcSyntax.Reading.Statement

/-!
# Session — rules run one at a time

A session holds the tokens of a statement and a position in them, and runs
one rule after the other from there. After each rule it stands where the
rule stopped, also when the rule failed, so a caller can look at what is
left or try something else. `depth` counts the levels that the caller has
open already; what a rule opens it has closed again when it returns, so
running a rule leaves the depth alone.

The tokens may hold an end marker anywhere. Rules stop at the first one
they meet, as they do at the end of the list.
-/

set_option autoImplicit false

namespace CalcSyntax

/-- A position in the tokens of a statement. -/
structure Session where
  grammar : Grammar
  tokens : List Token
  /-- Where the statement ends. -/
  closing : Span
  /-- How many tokens stand before the position. -/
  position : Nat
  /-- How many levels are open. -/
  depth : Nat

namespace Session

/-- A session at the first of some tokens. -/
def start (g : Grammar) (tokens : List Token) (closing : Span) : Session :=
  ⟨g, tokens, closing, 0, 0⟩

/-- What the session's rules look things up in. -/
def setting (s : Session) : Setting := ⟨s.grammar, s.closing⟩

/-- The levels that are left to open. -/
def levels (s : Session) : Nat := maxNesting - s.depth

/-- The tokens from the position on. -/
def rest (s : Session) : List Token := s.tokens.drop s.position

/-- Runs a rule and stands where it stopped. -/
def run {α : Type} (s : Session) (rule : Setting → Rule α) : Except Fault α × Session :=
  let outcome := (rule s.setting).run s.rest
  (outcome.result, { s with position := s.tokens.length - outcome.rest.length })

/-- The token at the position. -/
def peek (s : Session) : Token := s.setting.front s.rest

/-- Whether the position is at an end. -/
def isAtEnd (s : Session) : Bool := s.peek.kind == .eof

/-- Whether the token at the position is of a kind. -/
def check (s : Session) (kind : TokenKind) : Bool := s.peek.kind == kind

/-- Reads the token at the position if it is of a kind, and says whether. -/
def takeKind (s : Session) (kind : TokenKind) : Bool × Session :=
  if s.check kind then (true, (s.run Setting.take).2) else (false, s)

/-- Reads an expression at a least level. -/
def expressionAt (s : Session) (min : Nat) : Except Fault Expr × Session :=
  s.run (·.expression s.levels min)

/-- Reads a list of arguments. -/
def arguments (s : Session) (parenthesized : Bool) : Except Fault (List Expr) × Session :=
  s.run fun st => st.arguments (st.expression s.levels Level.lowest.rank) parenthesized

end Session

end CalcSyntax
