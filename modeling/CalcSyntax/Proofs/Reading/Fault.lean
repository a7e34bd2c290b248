import CalcSyntax.Proofs.Reading.Agreement
import CalcSyntax.Proofs.Reading.Answers

/-!
# Fault — a fault says what is so

A fault names a token and says what is wrong with it. The token is one of the
statement, or its end, and it is as the fault says: it is not what was wanted, no
table lists it, or its word takes another number of arguments.

`Rule.Justifies` says this of the faults of one rule. It is closed under `bind`,
since what a rule leaves is a part of what there was. A rule that has looked at a
token goes on with what it knows of it.

## What is proved

- `due_of_readStatement` — the faults of statements.
-/

set_option autoImplicit false

namespace CalcSyntax

variable {α β : Type} {g : Grammar} {P : Token → Prop}

/-- Whether a token of that kind is what was wanted. The caller of a rule may have
wanted anything. -/
def Wanted.allows : Wanted → TokenKind → Bool
  | expression, kind => Setting.beginsOperand kind
  | command, kind => kind == .command
  | labelName, kind => kind == .label
  | endOfStatement, kind => kind == .eof
  | closer, kind => kind == .rightParen || kind == .eof
  | commaOrCloser, kind => kind == .comma || kind == .rightParen || kind == .eof
  | named _, _ => false

/-- The grammar lists a word as one that takes these arguments. -/
def Token.Takes (g : Grammar) (t : Token) (args : Arity) : Prop :=
  (t.kind = .command ∧ ∃ d, g.command? t.lexeme = some d ∧ d.args = args) ∨
    (t.kind = .function ∧ ∃ d, g.function? t.lexeme = some d ∧ d.args = args)

/-- The token of the fault is as the fault says. -/
def Fault.IsDue (g : Grammar) : Fault → Prop
  | unexpected wanted t => wanted.allows t.kind = false
  | noLeftOperand t => t.kind = .operator ∧ g.operators.operator? t.lexeme .prefixOp = none
  | emptyGroup t => t.kind = .rightParen
  | unknownCommand t => t.kind = .command ∧ g.command? t.lexeme = none
  | unknownFunction t => t.kind = .function ∧ g.function? t.lexeme = none
  | wrongCount t args count => t.Takes g args ∧ args.accepts count = false
  | tooDeep _ => True

namespace Rule

/-- On tokens that meet a condition the rule finds no fault but a due one, with a token that
meets the condition. -/
def Justifies (g : Grammar) (P : Token → Prop) (x : Rule α) : Prop :=
  ∀ ts, (∀ t ∈ ts, P t) → ∀ fault rest, x.run ts = .fail fault rest →
    fault.IsDue g ∧ P fault.token

theorem justifies_pure (a : α) : Justifies g P (pure a) := by
  rintro ts _ fault rest ⟨⟩

theorem justifies_refuse {fault : Fault} (hdue : fault.IsDue g) (hp : P fault.token) :
    Justifies g P (refuse fault : Rule α) := by
  rintro ts _ _ _ ⟨⟩
  exact ⟨hdue, hp⟩

theorem justifies_skip : Justifies g P skip := by
  rintro ts _ fault rest ⟨⟩

/-- Rules in sequence find due faults if each of them does. -/
theorem justifies_bind {x : Rule α} {k : α → Rule β} (hx : Justifies g P x)
    (hk : ∀ a, Justifies g P (k a)) : Justifies g P (x >>= k) := by
  intro ts hts fault rest h
  rw [run_bind] at h
  cases hrun : x.run ts with
  | fail fault' behind =>
    rw [hrun] at h
    cases h
    exact hx ts hts _ _ hrun
  | ok a behind =>
    have hbehind := x.forall_mem_rest hts
    rw [hrun] at h hbehind
    exact hk a behind hbehind _ _ h

theorem justifies_ite {p : Prop} [Decidable p] {x y : Rule α} (hx : p → Justifies g P x)
    (hy : ¬ p → Justifies g P y) : Justifies g P (if p then x else y) := by
  split
  · next h => exact hx h
  · next h => exact hy h

end Rule

namespace Setting

open Rule

variable (s : Setting) {nested : Nat → Rule Expr} {item : Rule Expr}

theorem justifies_peek_bind (hend : P (.closing s.closing)) {k : Token → Rule α}
    (hk : ∀ t, P t → Justifies g P (k t)) : Justifies g P (s.peek >>= k) :=
  fun ts hts => hk _ (s.forall_front hend hts) ts hts

theorem justifies_take (hend : P (.closing s.closing)) : Justifies g P s.take :=
  s.justifies_peek_bind hend fun t _ =>
    justifies_ite (fun _ => justifies_pure t) fun _ =>
      justifies_bind justifies_skip fun _ => justifies_pure t

theorem justifies_expect (hend : P (.closing s.closing)) (kind : TokenKind) {wanted : Wanted}
    (hwanted : ∀ k, k ≠ kind → wanted.allows k = false) :
    Justifies g P (s.expect kind wanted) :=
  s.justifies_peek_bind hend fun t ht =>
    justifies_ite (fun _ => s.justifies_take hend) fun hkind =>
      justifies_refuse (hwanted t.kind hkind) ht

theorem justifies_expectEnd (hend : P (.closing s.closing)) : Justifies g P s.expectEnd :=
  s.justifies_peek_bind hend fun _ ht =>
    justifies_ite (fun _ => justifies_pure ()) fun hkind =>
      justifies_refuse (beq_false_of_ne hkind) ht

/-- Closing finds no fault where the parenthesis may close or be left out. -/
theorem run_close_eq_fail {wanted : Wanted} {ts rest : List Token} {fault : Fault}
    (h : (s.close wanted).run ts = .fail fault rest) :
    fault = .unexpected wanted (s.front ts) ∧ (s.front ts).kind ≠ .rightParen ∧
      (s.front ts).kind ≠ .eof := by
  by_cases hcloser : (s.front ts).kind = .rightParen
  · rw [s.run_close wanted hcloser] at h
    cases h
  by_cases heof : (s.front ts).kind = .eof
  · rw [s.run_close_end wanted heof] at h
    cases h
  rw [s.run_close_fail wanted hcloser heof] at h
  cases h
  exact ⟨rfl, hcloser, heof⟩

theorem justifies_close (hend : P (.closing s.closing)) : Justifies g P (s.close .closer) := by
  intro ts hts fault rest h
  obtain ⟨rfl, hcloser, heof⟩ := s.run_close_eq_fail h
  refine ⟨?_, s.forall_front hend hts⟩
  rw [Fault.IsDue, Wanted.allows, beq_false_of_ne hcloser, beq_false_of_ne heof]
  rfl

/-! ## Loops -/

/-- The loop along a chain finds no fault of its own. -/
theorem justifies_chain (hn : ∀ min, Justifies g P (nested min)) (min : Nat) (left : Expr) :
    Justifies g P (s.chain nested min left) := by
  intro ts hts fault rest h
  replace h : s.chainFrom nested min left ts = .fail fault rest := h
  fun_induction chainFrom s nested min left ts with
  | case1 => cases h
  | case2 => cases h
  | case3 left t ts _ ih => exact ih (List.forall_mem_cons.mp hts).2 h
  | case4 left t ts least _ fault' behind hfail =>
    cases h
    exact hn least ts (List.forall_mem_cons.mp hts).2 _ _ hfail
  | case5 left t ts least _ right behind hok ih =>
    have hbehind := (nested least).forall_mem_rest (List.forall_mem_cons.mp hts).2
    rw [hok] at hbehind
    exact ih hbehind h

/-- The loop along a list finds no fault of its own. -/
theorem justifies_listOf (hi : Justifies g P item) : Justifies g P (listOf item) := by
  intro ts hts fault rest h
  replace h : listFrom item ts = .fail fault rest := h
  fun_induction listFrom item ts with
  | case1 ts fault' behind hfail =>
    cases h
    exact hi ts hts _ _ hfail
  | case2 => cases h
  | case3 ts e t behind hitem _ ih =>
    have hbehind := item.forall_mem_rest hts
    rw [hitem] at hbehind
    cases hl : listFrom item behind with
    | ok es last => rw [hl] at h; cases h
    | fail fault' last =>
      rw [hl] at h
      cases h
      exact ih (List.forall_mem_cons.mp hbehind).2 hl
  | case4 => cases h

/-- A list goes on where a comma stands, so there is none behind it. -/
theorem front_ne_comma_of_listFrom {ts rest : List Token} {es : List Expr}
    (h : listFrom item ts = .ok es rest) : (s.front rest).kind ≠ .comma := by
  fun_induction listFrom item ts generalizing es with
  | case1 => cases h
  | case2 =>
    cases h
    show TokenKind.eof ≠ .comma
    decide
  | case3 ts e t behind _ _ ih =>
    cases hl : listFrom item behind with
    | ok es' last =>
      rw [hl] at h
      cases h
      exact ih hl
    | fail fault last => rw [hl] at h; cases h
  | case4 ts e t behind _ hcomma =>
    cases h
    exact hcomma

/-- Where arguments that were read are not closed, the list cannot go on either. -/
theorem due_of_closed {parenthesized : Bool} {es : List Expr} {ts rest : List Token}
    {fault : Fault} (hcomma : (s.front ts).kind ≠ .comma)
    (h : (s.closed parenthesized es).run ts = .fail fault rest) :
    fault.IsDue g ∧ fault.token = s.front ts := by
  cases parenthesized with
  | false => cases h
  | true =>
    rw [run_closed_true] at h
    cases hc : (s.close .commaOrCloser).run ts with
    | ok u behind => rw [hc] at h; cases h
    | fail fault' behind =>
      rw [hc] at h
      cases h
      obtain ⟨rfl, hcloser, heof⟩ := s.run_close_eq_fail hc
      refine ⟨?_, rfl⟩
      rw [Fault.IsDue, Wanted.allows, beq_false_of_ne hcomma, beq_false_of_ne hcloser,
        beq_false_of_ne heof]
      rfl

theorem justifies_arguments (hend : P (.closing s.closing)) (hi : Justifies g P item)
    (parenthesized : Bool) : Justifies g P (s.arguments item parenthesized) := by
  intro ts hts fault rest h
  by_cases hnone : (s.front ts).kind = .eof ∨ (parenthesized ∧ (s.front ts).kind = .rightParen)
  · rw [s.run_arguments_none hnone] at h
    have hcomma : (s.front ts).kind ≠ .comma := by
      rcases hnone with hk | ⟨_, hk⟩ <;> rw [hk] <;> decide
    obtain ⟨hdue, htoken⟩ := s.due_of_closed hcomma h
    exact ⟨hdue, htoken ▸ s.forall_front hend hts⟩
  · rw [s.run_arguments_some hnone] at h
    have hmid := (listOf item).forall_mem_rest hts
    replace hmid : ∀ t ∈ (listFrom item ts).rest, P t := hmid
    cases hl : listFrom item ts with
    | fail fault' behind =>
      rw [hl] at h
      cases h
      exact justifies_listOf hi ts hts _ _ hl
    | ok es mid =>
      rw [hl] at h hmid
      obtain ⟨hdue, htoken⟩ := s.due_of_closed (s.front_ne_comma_of_listFrom hl) h
      exact ⟨hdue, htoken ▸ s.forall_front hend hmid⟩

/-! ## Operands -/

theorem justifies_group (hend : P (.closing s.closing)) (hn : ∀ min, Justifies g P (nested min)) :
    Justifies g P (s.group nested) :=
  s.justifies_peek_bind hend fun _ ht =>
    justifies_ite (fun hkind => justifies_refuse hkind ht) fun _ =>
      justifies_bind (hn _) fun inner =>
        justifies_bind (s.justifies_close hend) fun _ => justifies_pure (Expr.group inner)

theorem justifies_call (hend : P (.closing s.closing))
    (hn : ∀ min, Justifies s.grammar P (nested min)) {name : Token} (hkind : name.kind = .function)
    (hname : P name) : Justifies s.grammar P (s.call nested name) := by
  unfold call
  cases hd : s.grammar.function? name.lexeme with
  | none => exact justifies_refuse ⟨hkind, hd⟩ hname
  | some d =>
    refine justifies_bind (s.justifies_arguments hend (hn _) true) fun es => ?_
    refine justifies_ite (fun _ => justifies_pure _) fun hcount => ?_
    exact justifies_refuse ⟨.inr ⟨hkind, d, hd, rfl⟩, Bool.not_eq_true _ ▸ hcount⟩ hname

theorem justifies_operand (hend : P (.closing s.closing))
    (hn : ∀ min, Justifies s.grammar P (nested min)) :
    Justifies s.grammar P (s.operand nested) := by
  refine s.justifies_peek_bind hend fun t ht => ?_
  have leaf (e : Expr) : Justifies s.grammar P (skip >>= fun _ => pure e) :=
    justifies_bind justifies_skip fun _ => justifies_pure e
  have unexpected (h : beginsOperand t.kind = false) :
      Justifies s.grammar P (Rule.refuse (.unexpected .expression t) : Rule Expr) :=
    justifies_refuse h ht
  cases hk : t.kind with
  | integer | float | var => exact leaf _
  | leftParen => exact justifies_bind justifies_skip fun _ => s.justifies_group hend hn
  | function => exact justifies_bind justifies_skip fun _ => s.justifies_call hend hn hk ht
  | operator =>
    dsimp only
    cases hd : s.grammar.operators.operator? t.lexeme .prefixOp with
    | none => exact justifies_refuse ⟨hk, hd⟩ ht
    | some d =>
      exact justifies_bind justifies_skip fun _ =>
        justifies_bind (hn _) fun inner => justifies_pure (Expr.unary t.lexeme inner)
  | _ => exact unexpected (by rw [hk]; rfl)

/-- By induction on the levels that are left. -/
theorem justifies_expression (hend : P (.closing s.closing)) (levels min : Nat) :
    Justifies s.grammar P (s.expression levels min) := by
  induction levels generalizing min with
  | zero => exact s.justifies_peek_bind hend fun t ht => justifies_refuse trivial ht
  | succ levels ih =>
    exact justifies_bind (s.justifies_operand hend ih) fun left => s.justifies_chain ih min left

/-! ## Statements -/

theorem justifies_operands (hend : P (.closing s.closing)) (levels : Nat) {keyword : Token}
    {d : CommandEntry} (hkind : keyword.kind = .command)
    (known : s.grammar.command? keyword.lexeme = some d) (hkeyword : P keyword) :
    Justifies s.grammar P (s.operands levels keyword d) := by
  refine justifies_ite (fun _ => ?_) fun _ => ?_
  · exact justifies_bind (s.justifies_expect hend .label fun _ hk => beq_false_of_ne hk)
      fun label => justifies_bind (s.justifies_expectEnd hend) fun _ => justifies_pure _
  · refine justifies_bind (s.justifies_arguments hend (s.justifies_expression hend levels _) _)
      fun es => justifies_bind (s.justifies_expectEnd hend) fun _ => ?_
    refine justifies_ite (fun _ => justifies_pure _) fun hcount => ?_
    exact justifies_refuse ⟨.inl ⟨hkind, d, known, rfl⟩, Bool.not_eq_true _ ▸ hcount⟩ hkeyword

theorem justifies_command (hend : P (.closing s.closing)) (levels : Nat) :
    Justifies s.grammar P (s.command levels) := by
  intro ts hts fault rest h
  by_cases hk : (s.front ts).kind = .command
  · obtain ⟨t, ts, rfl, ht⟩ := s.exists_cons_of_front hk (by decide)
    obtain ⟨hkeyword, hrest⟩ := List.forall_mem_cons.mp hts
    cases hd : s.grammar.command? t.lexeme with
    | none =>
      rw [s.run_command_unknown levels ht hd] at h
      cases h
      exact ⟨⟨ht, hd⟩, hkeyword⟩
    | some d =>
      rw [s.run_command levels ht hd] at h
      exact s.justifies_operands hend levels ht hd hkeyword ts hrest _ _ h
  · rw [command, run_bind, s.run_expect_fail .command hk] at h
    cases h
    exact ⟨beq_false_of_ne hk, s.forall_front hend hts⟩

theorem justifies_statement (hend : P (.closing s.closing)) (levels : Nat) :
    Justifies s.grammar P (s.statement levels) := by
  refine s.justifies_peek_bind hend fun t _ => ?_
  cases t.kind with
  | eof => exact justifies_pure _
  | command => exact justifies_bind (s.justifies_command hend levels) fun c => justifies_pure _
  | _ =>
    exact justifies_bind (s.justifies_expression hend levels _) fun e =>
      justifies_bind (s.justifies_expectEnd hend) fun _ => justifies_pure _

end Setting

/-- **A fault says what is so**, of a token of the statement or of its end. -/
theorem due_of_readStatement {tokens : List Token} {closing : Span} {fault : Fault}
    (h : readStatement g tokens closing = .error fault) :
    fault.IsDue g ∧ (fault.token = .closing closing ∨ fault.token ∈ tokens) := by
  unfold readStatement at h
  cases hr : ((⟨g, closing⟩ : Setting).statement maxNesting).run tokens with
  | ok k rest => rw [hr] at h; cases h
  | fail fault' rest =>
    rw [hr] at h
    cases h
    exact Setting.justifies_statement (P := fun t => t = .closing closing ∨ t ∈ tokens) _
      (.inl rfl) maxNesting tokens (fun _ ht => .inr ht) _ _ hr

end CalcSyntax
