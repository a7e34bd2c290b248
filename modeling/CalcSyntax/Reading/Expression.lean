import CalcSyntax.Expr.Basic
import CalcSyntax.Reading.Rule

/-!
# Expression — operators by their level

An expression is an operand and what operators build on it:

```text
expression min   =  operand (suffix-operator | infix-operator expression next)*
operand          =  number | variable | "(" expression ")" | function arguments ")"
                 |  prefix-operator expression level
```

Every operator taken at `min` binds at least as tightly as `min`, and the
operand to the right of one is read at the least level that the operator
wants there. The rules name no symbol: `Setting.continuation` asks the
table what an operator does behind an operand, and one that stands behind
its operand goes before one that wants a second.

The depth of an expression is bounded. `Setting.expression` has a number
of levels left, and each operand opened inside another uses one of them
up. Chains do not: `chainFrom` goes on along them without end, and stops
because each step takes a token.
-/

set_option autoImplicit false

namespace CalcSyntax

/-- What a token does behind an operand. -/
inductive Continuation where
  /-- It does not belong to the expression. -/
  | stop
  /-- It completes the operand. -/
  | suffix
  /-- It wants a further operand that binds at least so tightly. -/
  | operand (least : Nat)
deriving DecidableEq

namespace Setting

variable (s : Setting)

/-- What a token does behind an operand of an expression at `min`. -/
def continuation (min : Nat) (t : Token) : Continuation :=
  if t.kind = .operator then
    match s.grammar.operators.operator? t.lexeme .postfixOp with
    | some d => if d.level.rank < min then .stop else .suffix
    | none =>
      match s.grammar.operators.operator? t.lexeme .infixOp with
      | some d => if d.level.rank < min then .stop else .operand d.rightBinding
      | none => .stop
  else .stop

/-- Goes on behind an operand for as long as operators belong to the
expression; `nested` reads an operand at its least level. -/
def chainFrom (nested : Nat → Rule Expr) (min : Nat) (left : Expr) (ts : List Token) :
    Outcome Expr :=
  match ts with
  | [] => .ok left []
  | t :: rest =>
    match s.continuation min t with
    | .stop => .ok left (t :: rest)
    | .suffix => chainFrom nested min (.suffixed left t.lexeme) rest
    | .operand least =>
      match _right : (nested least).run rest with
      | .fail fault behind => .fail fault behind
      | .ok right behind => chainFrom nested min (.binary left t.lexeme right) behind
termination_by ts.length
decreasing_by
  · simp
  · have := (nested least).length_rest_le rest
    rw [_right] at this
    exact Nat.lt_succ_of_le this

/-- Climbing uses tokens from the front. -/
theorem rest_chainFrom (nested : Nat → Rule Expr) (min : Nat) (left : Expr) (ts : List Token) :
    (s.chainFrom nested min left ts).rest <:+ ts := by
  fun_induction chainFrom s nested min left ts with
  | case1 => exact List.suffix_rfl
  | case2 => exact List.suffix_rfl
  | case3 left t rest _ ih => exact ih.trans (List.suffix_cons t rest)
  | case4 left t rest least _ fault behind h =>
    have := (nested least).rest_suffix rest
    rw [h] at this
    exact this.trans (List.suffix_cons t rest)
  | case5 left t rest least _ right behind h ih =>
    have := (nested least).rest_suffix rest
    rw [h] at this
    exact (ih.trans this).trans (List.suffix_cons t rest)

/-- The rest of an expression behind its first operand. -/
def chain (nested : Nat → Rule Expr) (min : Nat) (left : Expr) : Rule Expr :=
  ⟨s.chainFrom nested min left, s.rest_chainFrom nested min left⟩

/-- Reads expressions as long as a comma follows. -/
def listFrom (item : Rule Expr) (ts : List Token) : Outcome (List Expr) :=
  match _item : item.run ts with
  | .fail fault rest => .fail fault rest
  | .ok e [] => .ok [e] []
  | .ok e (t :: rest) =>
    if t.kind = .comma then (listFrom item rest).map (e :: ·) else .ok [e] (t :: rest)
termination_by ts.length
decreasing_by
  have := item.length_rest_le ts
  rw [_item] at this
  exact this

/-- Reading a list uses tokens from the front. -/
theorem rest_listFrom (item : Rule Expr) (ts : List Token) : (listFrom item ts).rest <:+ ts := by
  fun_induction listFrom item ts with
  | case1 ts fault rest h =>
    have := item.rest_suffix ts
    rwa [h] at this
  | case2 ts e h => exact List.nil_suffix
  | case3 ts e t rest h _ ih =>
    have := item.rest_suffix ts
    rw [h] at this
    rw [Outcome.rest_map]
    exact (ih.trans (List.suffix_cons t rest)).trans this
  | case4 ts e t rest h _ =>
    have := item.rest_suffix ts
    rwa [h] at this

/-- One expression or more, with commas between them. -/
def listOf (item : Rule Expr) : Rule (List Expr) := ⟨listFrom item, rest_listFrom item⟩

/-- The arguments of a command or a function. They may be left out, and in
parentheses the closing one may be left out at the end. -/
def arguments (item : Rule Expr) (parenthesized : Bool) : Rule (List Expr) := do
  let t ← s.peek
  let es ←
    if t.kind = .eof ∨ (parenthesized ∧ t.kind = .rightParen) then pure []
    else listOf item
  if parenthesized then
    s.close .commaOrCloser
  pure es

/-- What follows an opening parenthesis. -/
def group (nested : Nat → Rule Expr) : Rule Expr := do
  let t ← s.peek
  if t.kind = .rightParen then Rule.refuse (.emptyGroup t)
  else
    let inner ← nested Level.lowest.rank
    s.close .closer
    pure (.group inner)

/-- What follows the name of a function. -/
def call (nested : Nat → Rule Expr) (name : Token) : Rule Expr :=
  match s.grammar.function? name.lexeme with
  | none => Rule.refuse (.unknownFunction name)
  | some d => do
    let es ← s.arguments (nested Level.lowest.rank) true
    if d.args.accepts es.length then pure (.call name.lexeme es)
    else Rule.refuse (.wrongCount name d.args es.length)

/-- An operand: what an expression may begin with. -/
def operand (nested : Nat → Rule Expr) : Rule Expr := do
  let t ← s.peek
  match t.kind with
  | .integer =>
    Rule.skip
    pure (.literal .integer t.lexeme)
  | .float =>
    Rule.skip
    pure (.literal .float t.lexeme)
  | .var =>
    Rule.skip
    pure (.var t.lexeme)
  | .leftParen =>
    Rule.skip
    s.group nested
  | .function =>
    Rule.skip
    s.call nested t
  | .operator =>
    match s.grammar.operators.operator? t.lexeme .prefixOp with
    | none => Rule.refuse (.noLeftOperand t)
    | some d =>
      Rule.skip
      let inner ← nested d.level.rank
      pure (.unary t.lexeme inner)
  | _ => Rule.refuse (.unexpected .expression t)

/-- The limit of nesting is reached. -/
def tooDeep : Rule Expr := do
  let t ← s.peek
  Rule.refuse (.tooDeep t)

/-- An expression whose operators bind at least as tightly as `min`, with
so many levels that it may open. -/
def expression : (levels : Nat) → (min : Nat) → Rule Expr
  | 0, _ => s.tooDeep
  | levels + 1, min => do
    let left ← s.operand (expression levels)
    s.chain (expression levels) min left

end Setting

end CalcSyntax
