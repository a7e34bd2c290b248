import CalcSyntax.Proofs.Reading.Language
import CalcSyntax.Proofs.Reading.Steps

/-!
# Answers — what a rule that answers has met

A rule answers in a few ways, and in each of them it has met certain tokens
and has called certain rules. The relations of this module list the ways,
one constructor each, with everything that was checked on the way. What
holds of all answers is then shown by cases.

## What is proved

`Setting.readsOperand_of_run`, `Setting.readsCommand_of_run` and
`Setting.readsStatement_of_run` — an answer of the rule is in the list. For
statements the converse is true as well (`readStatement_eq_ok_iff`).
-/

set_option autoImplicit false

namespace CalcSyntax

/-- An answer is known by its value. -/
theorem eq_ok_of_toOption {ε α : Type} {o : Except ε α} {a : α} (h : o.toOption = some a) :
    o = .ok a := by
  cases o with
  | error e => cases h
  | ok b => exact congrArg Except.ok (Option.some.inj h)

namespace Setting

variable (s : Setting) {nested : Nat → Rule Expr} {levels : Nat} {ts rest : List Token} {e : Expr}

theorem ends_iff_front : Ends ts ↔ (s.front ts).kind = .eof := by
  cases ts with
  | nil => exact iff_of_true nofun rfl
  | cons t ts => exact ⟨fun h => h t rfl, fun h u hu => (Option.some.inj hu) ▸ h⟩

theorem exists_cons_of_front {kind : TokenKind} (h : (s.front ts).kind = kind)
    (hk : kind ≠ .eof) : ∃ t rest, ts = t :: rest ∧ t.kind = kind := by
  cases ts with
  | nil => exact absurd h.symm hk
  | cons t rest => exact ⟨t, rest, rfl, h⟩

/-! ## Ends -/

theorem closes_of_run {wanted : Wanted} {u : Unit} (h : (s.close wanted).run ts = .ok u rest) :
    Closes ts rest := by
  by_cases hr : (s.front ts).kind = .rightParen
  · obtain ⟨t, ts, rfl, ht⟩ := s.exists_cons_of_front hr (by decide)
    rw [s.run_close wanted hr] at h
    cases h
    exact .closed ht
  · by_cases he : (s.front ts).kind = .eof
    · rw [s.run_close_end wanted he] at h
      cases h
      exact .leftOpen (s.ends_iff_front.mpr he)
    · rw [s.run_close_fail wanted hr he] at h
      cases h

theorem ends_of_expectEnd {u : Unit} (h : s.expectEnd.run ts = .ok u rest) : Ends ts := by
  by_cases he : (s.front ts).kind = .eof
  · exact s.ends_iff_front.mpr he
  · rw [s.run_expectEnd_fail he] at h
    cases h

theorem of_run_closed {parenthesized : Bool} {es es' : List Expr}
    (h : (s.closed parenthesized es).run ts = .ok es' rest) :
    es' = es ∧ if parenthesized then Closes ts rest else rest = ts := by
  cases parenthesized with
  | false =>
    rw [run_closed_false] at h
    cases h
    exact ⟨rfl, rfl⟩
  | true =>
    rw [run_closed_true] at h
    cases hc : (s.close .commaOrCloser).run ts with
    | fail fault behind => rw [hc] at h; cases h
    | ok u behind =>
      rw [hc] at h
      cases h
      exact ⟨rfl, s.closes_of_run hc⟩

/-- Arguments are a list or nothing, and what closes them. -/
theorem exists_of_run_arguments {item : Rule Expr} {parenthesized : Bool} {es : List Expr}
    (h : (s.arguments item parenthesized).run ts = .ok es rest) :
    ∃ mid, (es = [] ∧ mid = ts ∨ listFrom item ts = .ok es mid) ∧
      if parenthesized then Closes mid rest else rest = mid := by
  by_cases hnone : (s.front ts).kind = .eof ∨ (parenthesized ∧ (s.front ts).kind = .rightParen)
  · rw [s.run_arguments_none hnone] at h
    obtain ⟨rfl, hclosed⟩ := s.of_run_closed h
    exact ⟨ts, .inl ⟨rfl, rfl⟩, hclosed⟩
  · rw [s.run_arguments_some hnone] at h
    cases hl : listFrom item ts with
    | fail fault behind => rw [hl] at h; cases h
    | ok es' mid =>
      rw [hl] at h
      obtain ⟨rfl, hclosed⟩ := s.of_run_closed h
      exact ⟨mid, .inr rfl, hclosed⟩

/-! ## Operands -/

/-- The ways to read an operand. -/
inductive ReadsOperand (nested : Nat → Rule Expr) : List Token → Expr → List Token → Prop where
  | integer {t : Token} {ts : List Token} (kind : t.kind = .integer) :
    ReadsOperand nested (t :: ts) (.literal .integer t.lexeme) ts
  | float {t : Token} {ts : List Token} (kind : t.kind = .float) :
    ReadsOperand nested (t :: ts) (.literal .float t.lexeme) ts
  | var {t : Token} {ts : List Token} (kind : t.kind = .var) :
    ReadsOperand nested (t :: ts) (.var t.lexeme) ts
  | group {t : Token} {ts mid rest : List Token} {inner : Expr} (kind : t.kind = .leftParen)
    (h : (nested Level.lowest.rank).run ts = .ok inner mid) (close : Closes mid rest) :
    ReadsOperand nested (t :: ts) (.group inner) rest
  | call {t : Token} {ts rest : List Token} {es : List Expr} {d : FunctionEntry}
    (kind : t.kind = .function) (known : s.grammar.function? t.lexeme = some d)
    (h : (s.arguments (nested Level.lowest.rank) true).run ts = .ok es rest)
    (accepts : d.args.accepts es.length) :
    ReadsOperand nested (t :: ts) (.call t.lexeme es) rest
  | unary {t : Token} {ts rest : List Token} {operand : Expr} {d : OperatorEntry}
    (kind : t.kind = .operator)
    (known : s.grammar.operators.operator? t.lexeme .prefixOp = some d)
    (h : (nested d.level.rank).run ts = .ok operand rest) :
    ReadsOperand nested (t :: ts) (.unary t.lexeme operand) rest

theorem readsOperand_of_group {t : Token} (kind : t.kind = .leftParen)
    (h : (s.group nested).run ts = .ok e rest) : s.ReadsOperand nested (t :: ts) e rest := by
  by_cases hr : (s.front ts).kind = .rightParen
  · rw [s.run_group_empty hr] at h
    cases h
  · rw [s.run_group hr] at h
    cases hi : (nested Level.lowest.rank).run ts with
    | fail fault behind => rw [hi] at h; cases h
    | ok inner mid =>
      rw [hi] at h
      cases hc : (s.close .closer).run mid with
      | fail fault behind => simp only [hc] at h; cases h
      | ok u behind =>
        simp only [hc] at h
        cases h
        exact .group kind hi (s.closes_of_run hc)

theorem readsOperand_of_call {t : Token} (kind : t.kind = .function)
    (h : (s.call nested t).run ts = .ok e rest) : s.ReadsOperand nested (t :: ts) e rest := by
  cases hd : s.grammar.function? t.lexeme with
  | none => rw [s.run_call_unknown hd] at h; cases h
  | some d =>
    rw [s.run_call hd] at h
    cases ha : (s.arguments (nested Level.lowest.rank) true).run ts with
    | fail fault behind => rw [ha] at h; cases h
    | ok es behind =>
      simp only [ha] at h
      by_cases hcount : d.args.accepts es.length = true
      · rw [if_pos hcount] at h
        cases h
        exact .call kind hd ha hcount
      · rw [if_neg hcount] at h
        cases h

theorem readsOperand_of_run (h : (s.operand nested).run ts = .ok e rest) :
    s.ReadsOperand nested ts e rest := by
  cases hk : beginsOperand (s.front ts).kind with
  | false => rw [s.run_operand_fail hk] at h; cases h
  | true =>
    cases ts with
    | nil => cases hk
    | cons t ts =>
      rw [front_cons] at hk
      cases ht : t.kind with
      | integer => rw [s.run_operand_integer ht] at h; cases h; exact .integer ht
      | float => rw [s.run_operand_float ht] at h; cases h; exact .float ht
      | var => rw [s.run_operand_var ht] at h; cases h; exact .var ht
      | leftParen =>
        rw [s.run_operand_leftParen ht] at h
        exact s.readsOperand_of_group ht h
      | function =>
        rw [s.run_operand_function ht] at h
        exact s.readsOperand_of_call ht h
      | operator =>
        cases hd : s.grammar.operators.operator? t.lexeme .prefixOp with
        | none => rw [s.run_operand_operator_fail ht hd] at h; cases h
        | some d =>
          rw [s.run_operand_prefixOp ht hd] at h
          cases hi : (nested d.level.rank).run ts with
          | fail fault behind => rw [hi] at h; cases h
          | ok operand behind =>
            rw [hi] at h
            cases h
            exact .unary ht hd hi
      | _ => rw [ht] at hk; cases hk

/-! ## Statements -/

/-- The ways to read what follows a keyword. -/
inductive ReadsCommand (levels : Nat) (keyword : Token) (d : CommandEntry) :
    List Token → Command → Prop where
  | label {t : Token} {rest : List Token} (takes : d.args = .label) (kind : t.kind = .label)
    (ends : Ends rest) :
    ReadsCommand levels keyword d (t :: rest) (.withLabel keyword.lexeme t.lexeme)
  | arguments {ts rest : List Token} {es : List Expr} (takes : d.args ≠ .label)
    (h : (s.arguments (s.expression levels Level.lowest.rank) d.opensParen).run ts = .ok es rest)
    (ends : Ends rest) (accepts : d.args.accepts es.length) :
    ReadsCommand levels keyword d ts (.withArguments keyword.lexeme es)

theorem readsCommand_of_run {keyword : Token} {d : CommandEntry} {c : Command}
    (h : (s.operands levels keyword d).run ts = .ok c rest) :
    s.ReadsCommand levels keyword d ts c := by
  cases hd : d.takesLabel with
  | true =>
    rw [s.run_operands_label levels hd] at h
    by_cases hk : (s.front ts).kind = .label
    · obtain ⟨t, ts, rfl, ht⟩ := s.exists_cons_of_front hk (by decide)
      rw [s.run_expect .labelName (by decide) ht] at h
      cases he : s.expectEnd.run ts with
      | fail fault behind => simp only [he] at h; cases h
      | ok u behind =>
        simp only [he] at h
        cases h
        exact .label (eq_of_beq hd) ht (s.ends_of_expectEnd he)
    · simp only [s.run_expect_fail .labelName hk] at h
      cases h
  | false =>
    rw [s.run_operands_arguments levels hd] at h
    cases ha : (s.arguments (s.expression levels Level.lowest.rank) d.opensParen).run ts with
    | fail fault behind => rw [ha] at h; cases h
    | ok es mid =>
      simp only [ha] at h
      cases he : s.expectEnd.run mid with
      | fail fault behind => simp only [he] at h; cases h
      | ok u behind =>
        simp only [he] at h
        by_cases hcount : d.args.accepts es.length = true
        · rw [if_pos hcount] at h
          cases h
          exact .arguments (ne_of_beq_false hd) ha (s.ends_of_expectEnd he) hcount
        · rw [if_neg hcount] at h
          cases h

/-- The ways to read a statement. -/
inductive ReadsStatement (levels : Nat) : List Token → StatementKind → Prop where
  | empty {ts : List Token} (ends : Ends ts) : ReadsStatement levels ts .empty
  | command {t : Token} {ts : List Token} {d : CommandEntry} {c : Command}
    (kind : t.kind = .command) (known : s.grammar.command? t.lexeme = some d)
    (h : s.ReadsCommand levels t d ts c) : ReadsStatement levels (t :: ts) (.command c)
  | expression {ts rest : List Token} {e : Expr} (noCommand : (s.front ts).kind ≠ .command)
    (h : (s.expression levels Level.lowest.rank).run ts = .ok e rest) (ends : Ends rest) :
    ReadsStatement levels ts (.expression e)

theorem readsStatement_of_run {k : StatementKind}
    (h : (s.statement levels).run ts = .ok k rest) : s.ReadsStatement levels ts k := by
  by_cases he : (s.front ts).kind = .eof
  · rw [s.run_statement_end levels he] at h
    cases h
    exact .empty (s.ends_iff_front.mpr he)
  by_cases hc : (s.front ts).kind = .command
  · obtain ⟨t, ts, rfl, ht⟩ := s.exists_cons_of_front hc (by decide)
    rw [s.run_statement_command levels ht] at h
    cases hd : s.grammar.command? t.lexeme with
    | none => rw [s.run_command_unknown levels ht hd] at h; cases h
    | some d =>
      rw [s.run_command levels ht hd] at h
      cases ho : (s.operands levels t d).run ts with
      | fail fault behind => rw [ho] at h; cases h
      | ok c behind =>
        rw [ho] at h
        cases h
        exact .command ht hd (s.readsCommand_of_run ho)
  · rw [s.run_statement_expression levels he hc] at h
    cases hi : (s.expression levels Level.lowest.rank).run ts with
    | fail fault behind => rw [hi] at h; cases h
    | ok e mid =>
      simp only [hi] at h
      cases hend : s.expectEnd.run mid with
      | fail fault behind => rw [hend] at h; cases h
      | ok u behind =>
        rw [hend] at h
        cases h
        exact .expression hc hi (s.ends_of_expectEnd hend)

/-! ## Every way in the lists is an answer -/

/-- Where an expression is read, it begins. -/
theorem begins_of_run {min : Nat} (h : (s.expression levels min).run ts = .ok e rest) :
    beginsOperand (s.front ts).kind = true := by
  cases levels with
  | zero => rw [run_expression_zero] at h; cases h
  | succ levels =>
    cases hb : beginsOperand (s.front ts).kind with
    | true => rfl
    | false => rw [run_expression_succ, s.run_operand_fail hb] at h; cases h

theorem run_of_readsCommand {keyword : Token} {d : CommandEntry} {c : Command}
    (h : s.ReadsCommand levels keyword d ts c) :
    ∃ rest, (s.operands levels keyword d).run ts = .ok c rest := by
  cases h with
  | @label t rest takes kind ends =>
    refine ⟨rest, ?_⟩
    rw [s.run_operands_label levels (beq_of_eq takes), s.run_expect .labelName (by decide) kind]
    simp only [s.run_expectEnd (s.ends_iff_front.mp ends)]
    rfl
  | @arguments _ rest es takes ha ends accepts =>
    refine ⟨rest, ?_⟩
    rw [s.run_operands_arguments levels (beq_false_of_ne takes), ha]
    simp only [s.run_expectEnd (s.ends_iff_front.mp ends), accepts, ↓reduceIte]

theorem run_of_readsStatement {k : StatementKind} (h : s.ReadsStatement levels ts k) :
    ∃ rest, (s.statement levels).run ts = .ok k rest := by
  cases h with
  | empty ends => exact ⟨ts, s.run_statement_end levels (s.ends_iff_front.mp ends)⟩
  | @command t ts d c kind known hc =>
    obtain ⟨rest, hrun⟩ := s.run_of_readsCommand hc
    refine ⟨rest, ?_⟩
    rw [s.run_statement_command levels kind, s.run_command levels kind known, hrun]
    rfl
  | @expression _ rest e noCommand hrun ends =>
    have hfront : (s.front ts).kind ≠ .eof := kind_ne_of_beginsOperand (s.begins_of_run hrun) rfl
    refine ⟨rest, ?_⟩
    rw [s.run_statement_expression levels hfront noCommand, hrun]
    simp only [s.run_expectEnd (s.ends_iff_front.mp ends)]
    rfl

end Setting

theorem readsStatement_of_readStatement {g : Grammar} {tokens : List Token} {closing : Span}
    {k : StatementKind} (h : readStatement g tokens closing = .ok k) :
    (⟨g, closing⟩ : Setting).ReadsStatement maxNesting tokens k := by
  unfold readStatement at h
  cases hr : ((⟨g, closing⟩ : Setting).statement maxNesting).run tokens with
  | ok k' rest => rw [hr] at h; cases h; exact Setting.readsStatement_of_run _ hr
  | fail fault rest => rw [hr] at h; cases h

/-- **Statements are read in the ways of the list**, and in all of them. -/
theorem readStatement_eq_ok_iff {g : Grammar} {tokens : List Token} {closing : Span}
    {k : StatementKind} : readStatement g tokens closing = .ok k ↔
      (⟨g, closing⟩ : Setting).ReadsStatement maxNesting tokens k := by
  refine ⟨readsStatement_of_readStatement, fun h => ?_⟩
  obtain ⟨rest, hrun⟩ := Setting.run_of_readsStatement _ h
  rw [readStatement, hrun]
  rfl

end CalcSyntax
