import CalcSyntax.Diagnostic.Basic
import CalcSyntax.Grammar.Arity

/-!
# Cause — why a text is not a program

The scanner and the rules of the grammar fail with a cause and not with a
sentence. `Stray` is the one thing that can go wrong between tokens;
`Fault` lists what can go wrong within a statement. `Stray.report` and
`Fault.report` word them, so the wording of every message stands in this
module alone.
-/

set_option autoImplicit false

namespace CalcSyntax

/-- A character that no token starts with. -/
structure Stray where
  char : Char
  span : Span
deriving DecidableEq

namespace Stray

/-- The words for a stray character. A point is the one character that could
have started a number, so it comes with a hint. -/
def report (s : Stray) : Diagnostic :=
  let plain := Diagnostic.unrecognized s.char s.span
  if s.char = '.' then plain.withHint "a decimal point needs at least one digit next to it"
  else plain

/-- The text of the message, the hint apart. -/
def message (s : Stray) : String := s.report.message

/-- A stray character is reported where it stands. -/
theorem span_report (s : Stray) : s.report.span = s.span := by
  unfold report
  split <;> rfl

/-- The message names the character, with or without a hint. -/
theorem message_eq (s : Stray) : s.message = s!"unrecognized character '{s.char}'" := by
  unfold message report
  split <;> rfl

end Stray

/-- What a rule was looking for. -/
inductive Wanted where
  | expression
  | command
  | labelName
  | endOfStatement
  /-- The parenthesis that closes a group. -/
  | closer
  /-- The next argument, or the parenthesis after the last. -/
  | commaOrCloser
  /-- Something that the caller of a rule has named. -/
  | named (phrase : String)
deriving DecidableEq

namespace Wanted

/-- What was looked for, after the word "expected". -/
def phrase : Wanted → String
  | expression => "expression"
  | command => "command"
  | labelName => "label name"
  | endOfStatement => "end of statement"
  | closer => "')'"
  | commaOrCloser => "',' or ')'"
  | named p => p

end Wanted

/-- How many levels of an expression may be open at once. -/
def maxNesting : Nat := 128

/-- Why a list of tokens is not a statement. -/
inductive Fault where
  /-- One thing was wanted and another is there. -/
  | unexpected (wanted : Wanted) (found : Token)
  /-- An operator that needs something in front of it starts an expression. -/
  | noLeftOperand (found : Token)
  /-- A group closes before it holds anything. -/
  | emptyGroup (found : Token)
  /-- A command that the grammar does not list. -/
  | unknownCommand (keyword : Token)
  /-- A function that the grammar does not list. -/
  | unknownFunction (name : Token)
  /-- A command or a function with a number of arguments it does not take. -/
  | wrongCount (head : Token) (wanted : Arity) (count : Nat)
  /-- An expression has too many levels open; the token is the first one
  that would belong to a further level. -/
  | tooDeep (found : Token)
deriving DecidableEq

namespace Fault

/-- The token that a fault is pinned to. -/
def token : Fault → Token
  | unexpected _ t | noLeftOperand t | emptyGroup t | unknownCommand t | unknownFunction t
  | wrongCount t _ _ | tooDeep t => t

/-- The words for a fault. -/
def report : Fault → Diagnostic
  | unexpected wanted t => .unexpected wanted.phrase t
  | noLeftOperand t =>
    (Diagnostic.unexpected Wanted.expression.phrase t).withHint
      s!"'{t.lexeme}' needs an operand on its left"
  | emptyGroup t =>
    (Diagnostic.unexpected Wanted.expression.phrase t).withHint
      "empty parentheses are not an expression"
  | unknownCommand t => .ofKind .syntactic s!"unknown command '{t.lexeme}'" t.span
  | unknownFunction t => .ofKind .syntactic s!"unknown function '{t.lexeme}'" t.span
  | wrongCount t wanted count =>
    .ofKind .syntactic s!"'{t.lexeme}' expects {wanted.phrase}, found {count}" t.span
  | tooDeep t =>
    (Diagnostic.ofKind .syntactic "expression nested too deeply" t.span).withHint
      s!"at most {maxNesting} levels of nesting are allowed"

/-- A fault is reported where its token stands. -/
theorem span_report (f : Fault) : f.report.span = f.token.span := by cases f <;> rfl

/-- A fault is never a lexical matter. -/
theorem kind_report (f : Fault) : f.report.kind = .syntactic := by cases f <;> rfl

end Fault

end CalcSyntax
