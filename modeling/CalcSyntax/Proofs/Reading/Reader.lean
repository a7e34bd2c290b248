import CalcSyntax.Reading.Session

/-!
# Reader — the rules as a machine with a cursor and a counter

A rule is a function of the tokens that are left. It cannot lose its place, and the
levels that it may open are a number that goes down with the recursion. `Reader` is the
machine that does without such help: it has a cursor into a list of tokens, which holds
end markers like other tokens, and one counter of open levels, which is raised before
an expression is read and lowered behind it. Nothing in its rules says that they keep
within the list, that they come to an end, or that the counter is right behind a fault.
What goes wrong with the cursor or the counter is a crash (`Crash`).

The rules are run with a bound. A loop that is not done in so many rounds has no answer,
and neither has an expression with so many others around it. Nothing else depends on the
bound. To come to an end is to have an answer with every bound that is large enough, and
always the same one.

A caller asks one `Query` after the other. `Reader.run` is what comes of it, and
`Session.answers` what a session makes of the same queries.
-/

set_option autoImplicit false

namespace CalcSyntax

/-- A machine that reads tokens. -/
structure Reader where
  grammar : Grammar
  /-- All tokens, the end markers among them. -/
  tokens : List Token
  /-- How many tokens stand before the cursor. -/
  position : Nat
  /-- How many levels are open. -/
  depth : Nat
  /-- How many values the counter has. -/
  word : Nat
  /-- The counter can count all levels that may be open. -/
  roomy : maxNesting < word

/-- What must not happen to a machine. -/
inductive Crash where
  /-- A token is asked for where there is none. -/
  | outOfRange
  /-- The counter leaves its word. -/
  | overflow
deriving DecidableEq

/-- A rule of a machine: it may find a fault, move the machine, crash, or have no answer. -/
abbrev Reading := ExceptT Fault (StateT Reader (ExceptT Crash Option))

namespace Reader

/-- The tokens from the cursor on. -/
def rest (r : Reader) : List Token := r.tokens.drop r.position

/-- The machine with the cursor so many tokens further on. -/
def moved (r : Reader) (n : Nat) : Reader := { r with position := r.position + n }

/-- Runs a rule. -/
def call {α : Type} (r : Reader) (m : Reading α) : Option (Except Crash (Except Fault α × Reader)) :=
  m r

/-- Opens a level. -/
def raise (r : Reader) : ExceptT Crash Option Reader :=
  if r.depth + 1 < r.word then pure { r with depth := r.depth + 1 } else throw .overflow

/-- Closes a level. -/
def lower (r : Reader) : ExceptT Crash Option Reader :=
  if r.depth = 0 then throw .overflow else pure { r with depth := r.depth - 1 }

end Reader

namespace Reading

/-! ## Tokens -/

/-- Looks at the token at the cursor. -/
def peek : Reading Token := do
  let r ← get
  match r.tokens[r.position]? with
  | some t => pure t
  | none => throwThe Crash .outOfRange

/-- Takes the token at the cursor. An end marker is not passed. -/
def advance : Reading Token := do
  let t ← peek
  if t.kind = .eof then pure t
  else
    modify (·.moved 1)
    pure t

/-- Whether the cursor is at an end. -/
def isAtEnd : Reading Bool := do
  let t ← peek
  pure (t.kind == .eof)

/-- Whether the token at the cursor is of a kind. -/
def check (kind : TokenKind) : Reading Bool := do
  let t ← peek
  pure (t.kind == kind)

/-- Takes the token at the cursor if it is of a kind. -/
def matchKind (kind : TokenKind) : Reading Bool := do
  if ← check kind then
    let _ ← advance
    pure true
  else pure false

/-- Finds the fault that something else was wanted. -/
def unexpected {α : Type} (wanted : Wanted) : Reading α := do
  let t ← peek
  throw (.unexpected wanted t)

/-- Takes a token of a kind. -/
def consume (kind : TokenKind) (wanted : Wanted) : Reading Token := do
  if ← check kind then advance else unexpected wanted

/-- Wants nothing to be left. -/
def expectEnd : Reading Unit := do
  if ← isAtEnd then pure () else unexpected .endOfStatement

/-- Closes a parenthesis, which may be left out at the end. -/
def closeParen : Reading Unit := do
  if ← matchKind .rightParen then pure ()
  else if ← isAtEnd then pure ()
  else unexpected .closer

/-- The limit of nesting is reached. -/
def tooDeep : Reading Expr := do
  let t ← peek
  throw (.tooDeep t)

/-- A rule that is not done within its bound. -/
def unended {α : Type} : Reading α := fun _ => none

/-! ## Expressions -/

section Nested

variable (bound : Nat) (nested : Nat → Reading Expr)

/-- Goes on behind an operand as long as there are operators of the level. -/
def climbFrom (min : Nat) : Nat → Expr → Reading Expr
  | 0, _ => unended
  | rounds + 1, left => do
    let t ← peek
    if t.kind ≠ .operator then pure left
    else
      let r ← get
      match r.grammar.operators.operator? t.lexeme .postfixOp with
      | some d =>
        if d.level.rank < min then pure left
        else
          let o ← advance
          climbFrom min rounds (.suffixed left o.lexeme)
      | none =>
        match r.grammar.operators.operator? t.lexeme .infixOp with
        | some d =>
          if d.level.rank < min then pure left
          else
            let o ← advance
            let right ← nested d.rightBinding
            climbFrom min rounds (.binary left o.lexeme right)
        | none => pure left

/-- Reads expressions behind some others, as long as a comma follows. -/
def argumentsFrom : Nat → List Expr → Reading (List Expr)
  | 0, _ => unended
  | rounds + 1, es => do
    let e ← nested Level.lowest.rank
    if ← matchKind .comma then argumentsFrom rounds (es ++ [e]) else pure (es ++ [e])

/-- Reads arguments, if there are any. -/
def arguments (parenthesized : Bool) : Reading (List Expr) := do
  let ended ← isAtEnd
  let closed ← check .rightParen
  if ended || (parenthesized && closed) then
    if parenthesized then
      closeParen
      pure []
    else pure []
  else
    let es ← argumentsFrom nested bound []
    if parenthesized then
      let closed ← check .rightParen
      let ended ← isAtEnd
      if !closed && !ended then unexpected .commaOrCloser
      else
        closeParen
        pure es
    else pure es

/-- Reads an expression in parentheses. -/
def grouping : Reading Expr := do
  let _ ← consume .leftParen (.named "'('")
  if ← check .rightParen then
    let t ← peek
    throw (.emptyGroup t)
  else
    let inner ← nested Level.lowest.rank
    closeParen
    pure (.group inner)

/-- Reads a function and its arguments. -/
def invocation : Reading Expr := do
  let name ← consume .function (.named "function")
  let r ← get
  match r.grammar.function? name.lexeme with
  | none => throw (.unknownFunction name)
  | some d =>
    let es ← arguments bound nested true
    if d.args.accepts es.length then pure (.call name.lexeme es)
    else throw (.wrongCount name d.args es.length)

/-- Reads what an expression begins with. -/
def operand : Reading Expr := do
  let t ← peek
  match t.kind with
  | .integer =>
    let _ ← advance
    pure (.literal .integer t.lexeme)
  | .float =>
    let _ ← advance
    pure (.literal .float t.lexeme)
  | .var =>
    let _ ← advance
    pure (.var t.lexeme)
  | .leftParen => grouping nested
  | .function => invocation bound nested
  | .operator =>
    let r ← get
    match r.grammar.operators.operator? t.lexeme .prefixOp with
    | some d =>
      let _ ← advance
      let inner ← nested d.level.rank
      pure (.unary t.lexeme inner)
    | none => throw (.noLeftOperand t)
  | _ => throw (.unexpected .expression t)

/-- Reads an operand and the operators behind it. -/
def climb (min : Nat) : Reading Expr := do
  let left ← operand bound nested
  climbFrom nested min bound left

end Nested

variable (bound : Nat)

/-- Reads an expression with a level open for it. The level is closed again whether there
is a fault or not. -/
def nestedAt : Nat → Nat → Reading Expr
  | 0, _ => unended
  | inside + 1, min => fun r =>
    if maxNesting ≤ r.depth then tooDeep r
    else do
      let inner ← r.raise
      let (result, behind) ← (climb bound (nestedAt inside) min).run.run inner
      let outer ← behind.lower
      pure (result, outer)

/-- Reads an expression whose operators are not below a level. -/
def expressionAt (min : Nat) : Reading Expr := nestedAt bound bound min

/-- Reads an expression at the lowest level. -/
def expression : Reading Expr := expressionAt bound Level.lowest.rank

/-! ## Statements -/

/-- Reads a command. -/
def command : Reading Command := do
  let keyword ← consume .command .command
  let r ← get
  match r.grammar.command? keyword.lexeme with
  | none => throw (.unknownCommand keyword)
  | some d =>
    if d.takesLabel then
      let label ← consume .label .labelName
      expectEnd
      pure (.withLabel keyword.lexeme label.lexeme)
    else
      let es ← arguments bound (expressionAt bound) d.opensParen
      expectEnd
      if d.args.accepts es.length then pure (.withArguments keyword.lexeme es)
      else throw (.wrongCount keyword d.args es.length)

/-- Reads an expression that is a whole statement. -/
def expressionStatement : Reading StatementKind := do
  let e ← expression bound
  expectEnd
  pure (.expression e)

/-- Reads a statement. -/
def statement : Reading StatementKind := do
  if ← isAtEnd then pure .empty
  else if ← check .command then
    let c ← command bound
    pure (.command c)
  else expressionStatement bound

end Reading

/-! ## Queries -/

/-- What may be asked of a machine, or of a session. -/
inductive Query where
  | peek
  | advance
  | isAtEnd
  | check (kind : TokenKind)
  | matchKind (kind : TokenKind)
  /-- To take a token of a kind; the phrase says what was wanted. -/
  | consume (kind : TokenKind) (phrase : String)
  | expectEnd
  | closeParen
  | arguments (parenthesized : Bool)
  | expression
  | expressionAt (min : Nat)
  | statement
  | expressionStatement
  | command
deriving DecidableEq

/-- What may be answered. -/
inductive Reply where
  | token (t : Token)
  | flag (b : Bool)
  | nothing
  | exprs (es : List Expr)
  | expr (e : Expr)
  | statement (kind : StatementKind)
  | command (c : Command)
deriving DecidableEq

/-- How the machine finds the answer. -/
def Query.reading (bound : Nat) : Query → Reading Reply
  | peek => do return .token (← Reading.peek)
  | advance => do return .token (← Reading.advance)
  | isAtEnd => do return .flag (← Reading.isAtEnd)
  | check kind => do return .flag (← Reading.check kind)
  | matchKind kind => do return .flag (← Reading.matchKind kind)
  | consume kind phrase => do return .token (← Reading.consume kind (.named phrase))
  | expectEnd => do
    Reading.expectEnd
    return .nothing
  | closeParen => do
    Reading.closeParen
    return .nothing
  | arguments parenthesized => do return .exprs (← Reading.arguments bound (Reading.expressionAt bound) parenthesized)
  | expression => do return .expr (← Reading.expression bound)
  | expressionAt min => do return .expr (← Reading.expressionAt bound min)
  | statement => do return .statement (← Reading.statement bound)
  | expressionStatement => do return .statement (← Reading.expressionStatement bound)
  | command => do return .command (← Reading.command bound)

namespace Reader

/-- Asks one query after the other, also behind a fault. -/
def run (r : Reader) (bound : Nat) :
    List Query → Option (Except Crash (List (Except Fault Reply) × Reader))
  | [] => some (.ok ([], r))
  | q :: qs =>
    match r.call (q.reading bound) with
    | some (.ok (answer, behind)) =>
      match behind.run bound qs with
      | some (.ok (answers, last)) => some (.ok (answer :: answers, last))
      | other => other
    | some (.error crash) => some (.error crash)
    | none => none

/-- The session that stands where the machine does, in the same tokens. -/
def session (r : Reader) (closing : Span) : Session :=
  ⟨r.grammar, r.tokens, closing, r.position, r.depth⟩

end Reader

namespace Session

/-- Runs a rule for its answer. -/
def reply {α : Type} (s : Session) (rule : Setting → Rule α) (f : α → Reply) :
    Except Fault Reply × Session :=
  let (result, behind) := s.run rule
  (result.map f, behind)

/-- What a session answers. -/
def answer (s : Session) : Query → Except Fault Reply × Session
  | .peek => (.ok (.token s.peek), s)
  | .advance => s.reply Setting.take .token
  | .isAtEnd => (.ok (.flag s.isAtEnd), s)
  | .check kind => (.ok (.flag (s.check kind)), s)
  | .matchKind kind =>
    let (taken, behind) := s.takeKind kind
    (.ok (.flag taken), behind)
  | .consume kind phrase => s.reply (·.expect kind (.named phrase)) .token
  | .expectEnd => s.reply Setting.expectEnd fun _ => .nothing
  | .closeParen => s.reply (·.close .closer) fun _ => .nothing
  | .arguments parenthesized =>
    let (result, behind) := s.arguments parenthesized
    (result.map .exprs, behind)
  | .expression =>
    let (result, behind) := s.expressionAt Level.lowest.rank
    (result.map .expr, behind)
  | .expressionAt min =>
    let (result, behind) := s.expressionAt min
    (result.map .expr, behind)
  | .statement => s.reply (·.statement s.levels) .statement
  | .expressionStatement => s.reply (·.expressionStatement s.levels) .statement
  | .command => s.reply (·.command s.levels) .command

/-- What a session answers to one query after the other. -/
def answers (s : Session) : List Query → List (Except Fault Reply) × Session
  | [] => ([], s)
  | q :: qs =>
    let (answer, behind) := s.answer q
    let (rest, last) := behind.answers qs
    (answer :: rest, last)

end Session

end CalcSyntax
