import CalcSyntax.Span

/-!
# Token — the words of a program

A token keeps its kind, the exact text that spelled it and where that
text stands. Numbers are kept as they were written: no later stage of
this library needs their value.

Each kind has two names. `TokenKind.name` is the word used in records
and listings, `TokenKind.phrase` the one used in sentences for a reader.
-/

set_option autoImplicit false

namespace CalcSyntax

/-- What a token is. -/
inductive TokenKind where
  /-- A run of digits. -/
  | integer
  /-- A number with a point, an exponent, or both. -/
  | float
  /-- A spelling from the operator table. -/
  | operator
  /-- A keyword from the command table. -/
  | command
  /-- A name from the function table, its opening parenthesis included. -/
  | function
  /-- A single capital letter, or one of the named variables. -/
  | var
  /-- The name after a command that takes a label. -/
  | label
  | leftParen
  | rightParen
  | comma
  /-- A line break or a colon: the end of a statement. -/
  | terminator
  /-- The end of the text. -/
  | eof
deriving DecidableEq

namespace TokenKind

/-- The kind's name in records and listings. -/
def name : TokenKind → String
  | integer => "Integer"
  | float => "Float"
  | operator => "Operator"
  | command => "Command"
  | function => "Function"
  | var => "Variable"
  | label => "Label"
  | leftParen => "LeftParen"
  | rightParen => "RightParen"
  | comma => "Comma"
  | terminator => "Terminator"
  | eof => "Eof"

/-- The kind in a sentence. -/
def phrase : TokenKind → String
  | integer => "integer literal"
  | float => "float literal"
  | operator => "operator"
  | command => "command"
  | function => "function"
  | var => "variable"
  | label => "label"
  | leftParen => "'('"
  | rightParen => "')'"
  | comma => "','"
  | terminator => "terminator"
  | eof => "end of input"

/-- Every kind, in the order of their declaration. -/
def all : List TokenKind :=
  [integer, float, operator, command, function, var, label, leftParen,
    rightParen, comma, terminator, eof]

end TokenKind

/-- One word of a program. -/
structure Token where
  kind : TokenKind
  /-- The text that spelled the token. -/
  lexeme : String
  span : Span
deriving DecidableEq

namespace Token

/-- The token that stands where a text or a statement ends. -/
def closing (span : Span) : Token := ⟨.eof, "", span⟩

/-- The token after the word "found" in a message. Kinds with one spelling
are told by it, the end is told from the statement's side, and every other
kind is followed by the lexeme. -/
def phrase (t : Token) : String :=
  match t.kind with
  | .eof => "end of statement"
  | .leftParen | .rightParen | .comma | .terminator => t.kind.phrase
  | _ => s!"{t.kind.phrase} '{t.lexeme}'"

/-- The token on its own: its lexeme, a line break being written out. -/
def shown (t : Token) : String :=
  if t.kind = .terminator ∧ t.lexeme ≠ ":" then "\\n" else t.lexeme

end Token

end CalcSyntax
