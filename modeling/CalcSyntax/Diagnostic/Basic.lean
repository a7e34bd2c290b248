import CalcSyntax.Token.Basic

/-!
# Diagnostic — what a reader is told about a broken program

A diagnostic is a message for a reader, with its place. It comes in two
families, each with a stable code: a character that no token can start
with, and a token that does not fit its statement. The statement's own
span is added by whoever knows it.
-/

set_option autoImplicit false

namespace CalcSyntax

/-- The two families of diagnostics. -/
inductive DiagnosticKind where
  /-- A character that no token starts with. -/
  | lexical
  /-- A statement that does not fit the grammar. -/
  | syntactic
deriving DecidableEq

namespace DiagnosticKind

/-- The family's name in records. -/
def name : DiagnosticKind → String
  | lexical => "Lexical"
  | syntactic => "Syntax"

/-- The code that stands in front of a message of the family. -/
def code : DiagnosticKind → String
  | lexical => "E_LEX"
  | syntactic => "E_SYNTAX"

end DiagnosticKind

/-- A message for a reader, with its place. -/
structure Diagnostic where
  kind : DiagnosticKind
  code : String
  message : String
  /-- The text the message is about. -/
  span : Span
  /-- A hint at what would be right. -/
  hint : Option String
  /-- The statement around it, once that is known. -/
  statement : Option Span
deriving DecidableEq

namespace Diagnostic

/-- A message of a family, with the family's code and no hint. -/
def ofKind (kind : DiagnosticKind) (message : String) (span : Span) : Diagnostic :=
  ⟨kind, kind.code, message, span, none, none⟩

/-- The message about a character that no token starts with. -/
def unrecognized (c : Char) (span : Span) : Diagnostic :=
  .ofKind .lexical s!"unrecognized character '{c}'" span

/-- The message about a token that stands where something else should. -/
def unexpected (wanted : String) (found : Token) : Diagnostic :=
  .ofKind .syntactic s!"expected {wanted}, found {found.phrase}" found.span

/-- Adds a hint. -/
def withHint (d : Diagnostic) (hint : String) : Diagnostic := { d with hint := some hint }

/-- Adds the span of the statement the message belongs to. -/
def within (d : Diagnostic) (statement : Span) : Diagnostic :=
  { d with statement := some statement }

/-- The message in one line: code, place, text. -/
def shown (d : Diagnostic) : String := s!"error[{d.code}] at {d.span.shown}: {d.message}"

end Diagnostic

end CalcSyntax
