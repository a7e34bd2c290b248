import CalcSyntax.Reading.Statement

/-!
# Steps — what each rule does with the tokens in front of it

The rules are written as one program each. This module takes them apart:
one equation for each thing a rule can meet at the front of its tokens.
Later modules reason by these equations and leave the rules closed.

The loops (`Setting.chainFrom`, `listFrom`) come first, then the rules
that look at one token, then operands, and the rules of a statement last.
-/

set_option autoImplicit false

namespace CalcSyntax

namespace Setting

variable (s : Setting) {nested : Nat → Rule Expr} {min : Nat} {left : Expr} {t : Token}
  {ts rest behind : List Token}

/-! ## Operators behind an operand -/

theorem continuation_postfixOp {d : OperatorEntry} (hk : t.kind = .operator)
    (hd : s.grammar.operators.operator? t.lexeme .postfixOp = some d) :
    s.continuation min t = if d.level.rank < min then .stop else .suffix := by
  simp only [continuation, if_pos hk, hd]

theorem continuation_infixOp {d : OperatorEntry} (hk : t.kind = .operator)
    (hp : s.grammar.operators.operator? t.lexeme .postfixOp = none)
    (hd : s.grammar.operators.operator? t.lexeme .infixOp = some d) :
    s.continuation min t = if d.level.rank < min then .stop else .operand d.rightBinding := by
  simp only [continuation, if_pos hk, hp, hd]

theorem stop_iff_of_postfixOp {d : OperatorEntry} (hk : t.kind = .operator)
    (hd : s.grammar.operators.operator? t.lexeme .postfixOp = some d) :
    s.continuation min t = .stop ↔ d.level.rank < min := by
  rw [s.continuation_postfixOp hk hd]
  by_cases h : d.level.rank < min
  · exact iff_of_true (if_pos h) h
  · rw [if_neg h]
    exact iff_of_false nofun h

theorem stop_iff_of_infixOp {d : OperatorEntry} (hk : t.kind = .operator)
    (hp : s.grammar.operators.operator? t.lexeme .postfixOp = none)
    (hd : s.grammar.operators.operator? t.lexeme .infixOp = some d) :
    s.continuation min t = .stop ↔ d.level.rank < min := by
  rw [s.continuation_infixOp hk hp hd]
  by_cases h : d.level.rank < min
  · exact iff_of_true (if_pos h) h
  · rw [if_neg h]
    exact iff_of_false nofun h

theorem continuation_of_kind (hk : t.kind ≠ .operator) : s.continuation min t = .stop := by
  simp only [continuation, if_neg hk]

theorem continuation_end (min : Nat) : s.continuation min (s.front []) = .stop :=
  s.continuation_of_kind (by
    show TokenKind.eof ≠ .operator
    decide)

theorem exists_of_suffix (h : s.continuation min t = .suffix) :
    ∃ d, t.kind = .operator ∧ s.grammar.operators.operator? t.lexeme .postfixOp = some d ∧
      min ≤ d.level.rank := by
  unfold continuation at h
  split at h
  · next hk =>
    split at h
    · next d hd =>
      split at h
      · cases h
      · next hr => exact ⟨d, hk, hd, Nat.le_of_not_lt hr⟩
    · split at h
      · split at h <;> cases h
      · cases h
  · cases h

theorem exists_of_operand {least : Nat} (h : s.continuation min t = .operand least) :
    ∃ d, t.kind = .operator ∧ s.grammar.operators.operator? t.lexeme .postfixOp = none ∧
      s.grammar.operators.operator? t.lexeme .infixOp = some d ∧ min ≤ d.level.rank ∧
      least = d.rightBinding := by
  unfold continuation at h
  split at h
  · next hk =>
    split at h
    · split at h <;> cases h
    · next hp =>
      split at h
      · next d hd =>
        split at h
        · cases h
        · next hr =>
          cases h
          exact ⟨d, hk, hp, hd, Nat.le_of_not_lt hr, rfl⟩
      · cases h
  · cases h

/-! ## Chains -/

theorem chainFrom_nil (nested : Nat → Rule Expr) (min : Nat) (left : Expr) :
    s.chainFrom nested min left [] = .ok left [] := by
  rw [chainFrom]

theorem chainFrom_stop (h : s.continuation min t = .stop) :
    s.chainFrom nested min left (t :: rest) = .ok left (t :: rest) := by
  rw [chainFrom, h]

theorem chainFrom_suffix (h : s.continuation min t = .suffix) :
    s.chainFrom nested min left (t :: rest) =
      s.chainFrom nested min (.suffixed left t.lexeme) rest := by
  rw [chainFrom, h]

theorem chainFrom_operand {least : Nat} {right : Expr}
    (h : s.continuation min t = .operand least) (hn : (nested least).run rest = .ok right behind) :
    s.chainFrom nested min left (t :: rest) =
      s.chainFrom nested min (.binary left t.lexeme right) behind := by
  rw [chainFrom, h]
  simp only
  split
  · next heq => rw [hn] at heq; cases heq
  · next heq => rw [hn] at heq; cases heq; rfl

theorem chainFrom_operand_fail {least : Nat} {fault : Fault}
    (h : s.continuation min t = .operand least)
    (hn : (nested least).run rest = .fail fault behind) :
    s.chainFrom nested min left (t :: rest) = .fail fault behind := by
  rw [chainFrom, h]
  simp only
  split
  · next heq => rw [hn] at heq; cases heq; rfl
  · next heq => rw [hn] at heq; cases heq

/-- The chain ends where the front token does not continue it. -/
theorem chainFrom_settled (h : s.continuation min (s.front ts) = .stop) :
    s.chainFrom nested min left ts = .ok left ts := by
  cases ts with
  | nil => exact s.chainFrom_nil nested min left
  | cons t rest => exact s.chainFrom_stop h

/-! ## Lists -/

variable {item : Rule Expr} {e : Expr}

theorem listFrom_fail {fault : Fault} (h : item.run ts = .fail fault rest) :
    listFrom item ts = .fail fault rest := by
  rw [listFrom]
  split
  · next heq => rw [h] at heq; cases heq; rfl
  · next heq => rw [h] at heq; cases heq
  · next heq => rw [h] at heq; cases heq

theorem listFrom_comma (h : item.run ts = .ok e (t :: rest)) (ht : t.kind = .comma) :
    listFrom item ts = (listFrom item rest).map (e :: ·) := by
  rw [listFrom]
  split
  · next heq => rw [h] at heq; cases heq
  · next heq => rw [h] at heq; cases heq
  · next heq => rw [h] at heq; cases heq; rw [if_pos ht]

/-- The list ends where no comma follows. -/
theorem listFrom_last (h : item.run ts = .ok e rest) (ht : ∀ t ∈ rest.head?, t.kind ≠ .comma) :
    listFrom item ts = .ok [e] rest := by
  rw [listFrom]
  split
  · next heq => rw [h] at heq; cases heq
  · next heq => rw [h] at heq; cases heq; rfl
  · next heq => rw [h] at heq; cases heq; exact if_neg (ht _ rfl)

theorem listFrom_end (h : item.run ts = .ok e []) : listFrom item ts = .ok [e] [] :=
  listFrom_last h fun t ht => (Option.not_mem_none t ht).elim

/-! ## Single tokens -/

theorem run_expect {kind : TokenKind} (wanted : Wanted) (hk : kind ≠ .eof) (h : t.kind = kind) :
    (s.expect kind wanted).run (t :: ts) = .ok t ts := by
  subst h
  simp only [expect, take, Rule.run_bind, run_peek, front_cons, ↓reduceIte, if_neg hk,
    Rule.run_skip, Rule.run_pure, List.tail_cons]

theorem run_expect_fail {kind : TokenKind} (wanted : Wanted) (h : (s.front ts).kind ≠ kind) :
    (s.expect kind wanted).run ts = .fail (.unexpected wanted (s.front ts)) ts := by
  simp only [expect, Rule.run_bind, run_peek, if_neg h, Rule.run_refuse]

theorem run_expectEnd (h : (s.front ts).kind = .eof) : s.expectEnd.run ts = .ok () ts := by
  simp only [expectEnd, Rule.run_bind, run_peek, if_pos h, Rule.run_pure]

theorem run_expectEnd_fail (h : (s.front ts).kind ≠ .eof) :
    s.expectEnd.run ts = .fail (.unexpected .endOfStatement (s.front ts)) ts := by
  simp only [expectEnd, Rule.run_bind, run_peek, if_neg h, Rule.run_refuse]

theorem run_close (wanted : Wanted) (h : (s.front ts).kind = .rightParen) :
    (s.close wanted).run ts = .ok () ts.tail := by
  simp only [close, Rule.run_bind, run_peek, if_pos h, Rule.run_skip]

theorem run_close_end (wanted : Wanted) (h : (s.front ts).kind = .eof) :
    (s.close wanted).run ts = .ok () ts := by
  have hr : (s.front ts).kind ≠ .rightParen := by rw [h]; decide
  simp only [close, Rule.run_bind, run_peek, if_neg hr, if_pos h, Rule.run_pure]

theorem run_close_fail (wanted : Wanted) (hr : (s.front ts).kind ≠ .rightParen)
    (he : (s.front ts).kind ≠ .eof) :
    (s.close wanted).run ts = .fail (.unexpected wanted (s.front ts)) ts := by
  simp only [close, Rule.run_bind, run_peek, if_neg hr, if_neg he, Rule.run_refuse]

/-! ## Arguments -/

/-- In parentheses the list is closed behind its last expression. -/
def closed (parenthesized : Bool) (es : List Expr) : Rule (List Expr) := do
  if parenthesized then
    s.close .commaOrCloser
  pure es

/-- The arguments are left out where the statement ends, and in parentheses
where they are closed. -/
theorem run_arguments_none {parenthesized : Bool}
    (h : (s.front ts).kind = .eof ∨ (parenthesized ∧ (s.front ts).kind = .rightParen)) :
    (s.arguments item parenthesized).run ts = (s.closed parenthesized []).run ts := by
  simp only [arguments, closed, Rule.run_bind, run_peek, if_pos h, Rule.run_pure]

theorem run_arguments_some {parenthesized : Bool}
    (h : ¬ ((s.front ts).kind = .eof ∨ (parenthesized ∧ (s.front ts).kind = .rightParen))) :
    (s.arguments item parenthesized).run ts =
      match listFrom item ts with
      | .ok es rest => (s.closed parenthesized es).run rest
      | .fail fault rest => .fail fault rest := by
  have hl : (listOf item).run ts = listFrom item ts := rfl
  simp only [arguments, closed, Rule.run_bind, run_peek, if_neg h, hl]
  cases listFrom item ts <;> rfl

theorem run_closed_false (es : List Expr) : (s.closed false es).run ts = .ok es ts := rfl

theorem run_closed_true (es : List Expr) :
    (s.closed true es).run ts = ((s.close .commaOrCloser).run ts).map fun _ => es := by
  simp only [closed, ↓reduceIte, Rule.run_bind]
  cases (s.close .commaOrCloser).run ts <;> rfl

/-! ## Operands -/

theorem run_operand_integer (h : t.kind = .integer) :
    (s.operand nested).run (t :: ts) = .ok (.literal .integer t.lexeme) ts := by
  simp only [operand, Rule.run_bind, run_peek, front_cons, h]
  rfl

theorem run_operand_float (h : t.kind = .float) :
    (s.operand nested).run (t :: ts) = .ok (.literal .float t.lexeme) ts := by
  simp only [operand, Rule.run_bind, run_peek, front_cons, h]
  rfl

theorem run_operand_var (h : t.kind = .var) :
    (s.operand nested).run (t :: ts) = .ok (.var t.lexeme) ts := by
  simp only [operand, Rule.run_bind, run_peek, front_cons, h]
  rfl

theorem run_operand_leftParen (h : t.kind = .leftParen) :
    (s.operand nested).run (t :: ts) = (s.group nested).run ts := by
  simp only [operand, Rule.run_bind, run_peek, front_cons, h, Rule.run_skip, List.tail_cons]

theorem run_operand_function (h : t.kind = .function) :
    (s.operand nested).run (t :: ts) = (s.call nested t).run ts := by
  simp only [operand, Rule.run_bind, run_peek, front_cons, h, Rule.run_skip, List.tail_cons]

theorem run_operand_prefixOp {d : OperatorEntry} (h : t.kind = .operator)
    (hd : s.grammar.operators.operator? t.lexeme .prefixOp = some d) :
    (s.operand nested).run (t :: ts) =
      ((nested d.level.rank).run ts).map (.unary t.lexeme) := by
  simp only [operand, Rule.run_bind, run_peek, front_cons, h, hd, Rule.run_skip, List.tail_cons]
  cases (nested d.level.rank).run ts <;> rfl

theorem run_operand_operator_fail (h : t.kind = .operator)
    (hd : s.grammar.operators.operator? t.lexeme .prefixOp = none) :
    (s.operand nested).run (t :: ts) = .fail (.noLeftOperand t) (t :: ts) := by
  simp only [operand, Rule.run_bind, run_peek, front_cons, h, hd, Rule.run_refuse]

/-- The kinds of token that an operand begins with. -/
def beginsOperand : TokenKind → Bool
  | .integer | .float | .var | .leftParen | .function | .operator => true
  | _ => false

theorem kind_ne_of_beginsOperand {k k' : TokenKind} (h : beginsOperand k = true)
    (h' : beginsOperand k' = false) : k ≠ k' := by
  intro he
  rw [he, h'] at h
  cases h

theorem run_operand_fail (h : beginsOperand (s.front ts).kind = false) :
    (s.operand nested).run ts = .fail (.unexpected .expression (s.front ts)) ts := by
  simp only [operand, Rule.run_bind, run_peek]
  revert h
  cases (s.front ts).kind <;> intro h <;> first | exact absurd h (by decide) | rfl

/-! ## Groups and calls -/

theorem run_group_empty (h : (s.front ts).kind = .rightParen) :
    (s.group nested).run ts = .fail (.emptyGroup (s.front ts)) ts := by
  simp only [group, Rule.run_bind, run_peek, if_pos h, Rule.run_refuse]

theorem run_group (h : (s.front ts).kind ≠ .rightParen) :
    (s.group nested).run ts =
      match (nested Level.lowest.rank).run ts with
      | .ok inner rest => ((s.close .closer).run rest).map fun _ => .group inner
      | .fail fault rest => .fail fault rest := by
  simp only [group, Rule.run_bind, run_peek, if_neg h]
  cases (nested Level.lowest.rank).run ts with
  | ok inner rest => cases (s.close .closer).run rest <;> rfl
  | fail fault rest => rfl

theorem run_call_unknown {name : Token} (h : s.grammar.function? name.lexeme = none) :
    (s.call nested name).run ts = .fail (.unknownFunction name) ts := by
  simp only [call, h, Rule.run_refuse]

theorem run_call {name : Token} {d : FunctionEntry}
    (h : s.grammar.function? name.lexeme = some d) :
    (s.call nested name).run ts =
      match (s.arguments (nested Level.lowest.rank) true).run ts with
      | .ok es rest =>
        if d.args.accepts es.length then .ok (.call name.lexeme es) rest
        else .fail (.wrongCount name d.args es.length) rest
      | .fail fault rest => .fail fault rest := by
  simp only [call, h, Rule.run_bind]
  cases (s.arguments (nested Level.lowest.rank) true).run ts with
  | ok es rest => by_cases ha : d.args.accepts es.length = true <;> simp only [ha] <;> rfl
  | fail fault rest => rfl

/-! ## Expressions -/

theorem run_expression_zero :
    (s.expression 0 min).run ts = .fail (.tooDeep (s.front ts)) ts := rfl

theorem run_expression_succ (levels : Nat) :
    (s.expression (levels + 1) min).run ts =
      match (s.operand (s.expression levels)).run ts with
      | .ok left rest => s.chainFrom (s.expression levels) min left rest
      | .fail fault rest => .fail fault rest := by
  simp only [expression, Rule.run_bind]
  cases (s.operand (s.expression levels)).run ts <;> rfl

/-! ## Statements -/

theorem run_statement_end (levels : Nat) (h : (s.front ts).kind = .eof) :
    (s.statement levels).run ts = .ok .empty ts := by
  simp only [statement, Rule.run_bind, run_peek, h, Rule.run_pure]

theorem run_statement_command (levels : Nat) (h : t.kind = .command) :
    (s.statement levels).run (t :: ts) =
      ((s.command levels).run (t :: ts)).map StatementKind.command := by
  simp only [statement, Rule.run_bind, run_peek, front_cons, h]
  cases (s.command levels).run (t :: ts) <;> rfl

theorem run_statement_expression (levels : Nat) (he : (s.front ts).kind ≠ .eof)
    (hc : (s.front ts).kind ≠ .command) :
    (s.statement levels).run ts =
      match (s.expression levels Level.lowest.rank).run ts with
      | .ok e rest => (s.expectEnd.run rest).map fun _ => .expression e
      | .fail fault rest => .fail fault rest := by
  have hs : (s.statement levels).run ts = (s.expressionStatement levels).run ts := by
    simp only [statement, Rule.run_bind, run_peek]
  rw [hs]
  simp only [expressionStatement, Rule.run_bind]
  cases (s.expression levels Level.lowest.rank).run ts with
  | ok e rest => cases s.expectEnd.run rest <;> rfl
  | fail fault rest => rfl

theorem run_command_unknown (levels : Nat) (h : t.kind = .command)
    (hd : s.grammar.command? t.lexeme = none) :
    (s.command levels).run (t :: ts) = .fail (.unknownCommand t) ts := by
  simp only [command, Rule.run_bind, s.run_expect .command (by decide) h, hd, Rule.run_refuse]

theorem run_command (levels : Nat) {d : CommandEntry} (h : t.kind = .command)
    (hd : s.grammar.command? t.lexeme = some d) :
    (s.command levels).run (t :: ts) = (s.operands levels t d).run ts := by
  simp only [command, Rule.run_bind, s.run_expect .command (by decide) h, hd]

theorem run_operands_label (levels : Nat) {d : CommandEntry} (hd : d.takesLabel = true)
    (keyword : Token) (ts : List Token) :
    (s.operands levels keyword d).run ts =
      match (s.expect .label .labelName).run ts with
      | .ok label rest =>
        (s.expectEnd.run rest).map fun _ => .withLabel keyword.lexeme label.lexeme
      | .fail fault rest => .fail fault rest := by
  simp only [operands, hd, ↓reduceIte, Rule.run_bind]
  cases (s.expect .label .labelName).run ts with
  | ok label rest => cases s.expectEnd.run rest <;> rfl
  | fail fault rest => rfl

theorem run_operands_arguments (levels : Nat) {d : CommandEntry} (hd : d.takesLabel = false)
    (keyword : Token) (ts : List Token) :
    (s.operands levels keyword d).run ts =
      match (s.arguments (s.expression levels Level.lowest.rank) d.opensParen).run ts with
      | .ok es rest =>
        match s.expectEnd.run rest with
        | .ok _ rest' =>
          if d.args.accepts es.length then .ok (.withArguments keyword.lexeme es) rest'
          else .fail (.wrongCount keyword d.args es.length) rest'
        | .fail fault rest' => .fail fault rest'
      | .fail fault rest => .fail fault rest := by
  simp only [operands, hd, Bool.false_eq_true, ↓reduceIte, Rule.run_bind]
  cases (s.arguments (s.expression levels Level.lowest.rank) d.opensParen).run ts with
  | ok es rest =>
    dsimp only
    cases s.expectEnd.run rest with
    | ok u rest' =>
      dsimp only
      split <;> rfl
    | fail fault rest' => rfl
  | fail fault rest => rfl

end Setting

end CalcSyntax
