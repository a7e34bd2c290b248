import CalcSyntax.Proofs.Grammar.Registration
import CalcSyntax.Proofs.Reading.Steps

/-!
# Agreement — reading asks the grammar about its tokens

A rule looks up nothing but the lexemes of the tokens in front of it: the command
of a keyword, the function of a name, what an operator does before, between and
behind operands. Where two grammars give the same answers about all of these, they
read the same statement, or find the same fault at the same token.

`Rule.Alike` says of two rules that they do the same on tokens that meet a
condition. It is closed under `bind`, since what a rule leaves is a part of what
there was, and the loops follow by the induction they end by.

## What is proved

- `readStatement_eq` — a statement reads the same with either grammar.
-/

set_option autoImplicit false

namespace CalcSyntax

variable {α β : Type} {P : Token → Prop}

namespace Rule

/-- Two rules do the same where all tokens meet the condition. -/
def Alike (P : Token → Prop) (x y : Rule α) : Prop :=
  ∀ ts, (∀ t ∈ ts, P t) → x.run ts = y.run ts

theorem alike_refl (x : Rule α) : Alike P x x := fun _ _ => rfl

/-- What a rule leaves meets the condition as well. -/
theorem forall_mem_rest (x : Rule α) {ts : List Token} (hts : ∀ t ∈ ts, P t) :
    ∀ t ∈ (x.run ts).rest, P t :=
  fun t ht => hts t ((x.rest_suffix ts).subset ht)

/-- Rules in sequence do the same if each of them does. -/
theorem alike_bind {x y : Rule α} {k l : α → Rule β} (hx : Alike P x y)
    (hk : ∀ a, Alike P (k a) (l a)) : Alike P (x >>= k) (y >>= l) := by
  intro ts hts
  have hrest := x.forall_mem_rest hts
  rw [run_bind, run_bind, ← hx ts hts]
  cases hrun : x.run ts with
  | ok a rest =>
    rw [hrun] at hrest
    exact hk a rest hrest
  | fail e rest => rfl

end Rule

namespace Setting

open Rule

variable (s : Setting) (h : Grammar)

/-- The setting with another grammar. -/
def withGrammar (s : Setting) (h : Grammar) : Setting := { s with grammar := h }

/-- What is known of all tokens and of the end is known of the token in front. -/
theorem forall_front (hend : P (.closing s.closing)) {ts : List Token} (hts : ∀ t ∈ ts, P t) :
    P (s.front ts) := by
  cases ts with
  | nil => exact hend
  | cons t ts => exact hts t List.mem_cons_self

theorem alike_peek_bind (hend : P (.closing s.closing)) {k l : Token → Rule α}
    (hk : ∀ t, P t → Alike P (k t) (l t)) : Alike P (s.peek >>= k) (s.peek >>= l) := by
  intro ts hts
  exact hk _ (s.forall_front hend hts) ts hts

/-! ## Rules that ask about operators -/

/-- The grammars give the same answers about the lexeme of a token. -/
def Known (s : Setting) (h : Grammar) (t : Token) : Prop := s.grammar.AgreesAt h t.lexeme

variable {s h}

theorem Known.continuation {t : Token} (ht : s.Known h t) (min : Nat) :
    (s.withGrammar h).continuation min t = s.continuation min t := by
  simp only [Setting.continuation, withGrammar, ht.operator]

variable {nested nested' : Nat → Rule Expr}

/-- The loop along a chain does the same. The induction is that of the loop. -/
theorem alike_chain (hn : ∀ min, Alike (s.Known h) (nested min) (nested' min)) (min : Nat)
    (left : Expr) :
    Alike (s.Known h) (s.chain nested min left) ((s.withGrammar h).chain nested' min left) := by
  intro ts hts
  show s.chainFrom nested min left ts = (s.withGrammar h).chainFrom nested' min left ts
  fun_induction chainFrom s nested min left ts with
  | case1 left => exact (chainFrom_nil _ _ _ _).symm
  | case2 left t rest hstop =>
    have ht := hts t List.mem_cons_self
    exact (chainFrom_stop _ ((ht.continuation min).trans hstop)).symm
  | case3 left t rest hsuffix ih =>
    obtain ⟨ht, hrest⟩ := List.forall_mem_cons.mp hts
    rw [chainFrom_suffix _ ((ht.continuation min).trans hsuffix)]
    exact ih hrest
  | case4 left t rest least hop fault behind hfail =>
    obtain ⟨ht, hrest⟩ := List.forall_mem_cons.mp hts
    have hother := (hn least rest hrest).symm.trans hfail
    rw [chainFrom_operand_fail _ ((ht.continuation min).trans hop) hother]
  | case5 left t rest least hop right behind hok ih =>
    obtain ⟨ht, hrest⟩ := List.forall_mem_cons.mp hts
    have hother := (hn least rest hrest).symm.trans hok
    have hbehind := (nested least).forall_mem_rest hrest
    rw [hok] at hbehind
    rw [chainFrom_operand _ ((ht.continuation min).trans hop) hother]
    exact ih hbehind

/-! ## Rules that ask through others -/

/-- The loop along a list does the same. -/
theorem alike_listOf {item item' : Rule Expr} (hitem : Alike P item item') :
    Alike P (listOf item) (listOf item') := by
  intro ts hts
  show listFrom item ts = listFrom item' ts
  fun_induction listFrom item ts with
  | case1 ts fault rest hfail => exact (listFrom_fail ((hitem ts hts).symm.trans hfail)).symm
  | case2 ts e hend => exact (listFrom_end ((hitem ts hts).symm.trans hend)).symm
  | case3 ts e t rest hrun hcomma ih =>
    have hbehind := item.forall_mem_rest hts
    rw [hrun] at hbehind
    rw [listFrom_comma ((hitem ts hts).symm.trans hrun) hcomma,
      ih (List.forall_mem_cons.mp hbehind).2]
  | case4 ts e t rest hrun hcomma =>
    refine (listFrom_last ((hitem ts hts).symm.trans hrun) ?_).symm
    rintro u ⟨⟩
    exact hcomma

theorem alike_arguments {item item' : Rule Expr} (hitem : Alike P item item')
    (parenthesized : Bool) :
    Alike P (s.arguments item parenthesized) ((s.withGrammar h).arguments item' parenthesized) := by
  refine alike_bind (alike_refl _) fun t => ?_
  dsimp only
  split
  · exact alike_refl _
  · exact alike_bind (alike_listOf hitem) fun es => alike_refl _

theorem alike_group (hn : ∀ min, Alike P (nested min) (nested' min)) :
    Alike P (s.group nested) ((s.withGrammar h).group nested') := by
  refine alike_bind (alike_refl _) fun t => ?_
  split
  · exact alike_refl _
  · exact alike_bind (hn _) fun inner => alike_refl _

theorem alike_call (hn : ∀ min, Alike P (nested min) (nested' min)) {name : Token}
    (hname : s.Known h name) :
    Alike P (s.call nested name) ((s.withGrammar h).call nested' name) := by
  unfold call
  have hfunction : (s.withGrammar h).grammar.function? name.lexeme =
      s.grammar.function? name.lexeme := hname.function.symm
  rw [hfunction]
  cases s.grammar.function? name.lexeme with
  | none => exact alike_refl _
  | some d => exact alike_bind (alike_arguments (hn _) true) fun es => alike_refl _

theorem alike_operand (hend : s.Known h (.closing s.closing))
    (hn : ∀ min, Alike (s.Known h) (nested min) (nested' min)) :
    Alike (s.Known h) (s.operand nested) ((s.withGrammar h).operand nested') := by
  refine s.alike_peek_bind hend fun t ht => ?_
  have hoperator : (s.withGrammar h).grammar.operators.operator? t.lexeme .prefixOp =
      s.grammar.operators.operator? t.lexeme .prefixOp := (ht.operator _).symm
  rw [hoperator]
  cases t.kind with
  | leftParen => exact alike_bind (alike_refl _) fun _ => alike_group hn
  | function => exact alike_bind (alike_refl _) fun _ => alike_call hn ht
  | operator =>
    dsimp only
    cases s.grammar.operators.operator? t.lexeme .prefixOp with
    | none => exact alike_refl _
    | some d =>
      exact alike_bind (alike_refl _) fun _ => alike_bind (hn _) fun inner => alike_refl _
  | _ => exact alike_refl _

/-- By induction on the levels that are left: each operand is read one level further in. -/
theorem alike_expression (hend : s.Known h (.closing s.closing)) (levels min : Nat) :
    Alike (s.Known h) (s.expression levels min) ((s.withGrammar h).expression levels min) := by
  induction levels generalizing min with
  | zero => exact alike_refl _
  | succ levels ih => exact alike_bind (alike_operand hend ih) fun left => alike_chain ih min left

/-! ## Statements -/

theorem alike_operands (hend : s.Known h (.closing s.closing)) (levels : Nat) (keyword : Token)
    (d : CommandEntry) :
    Alike (s.Known h) (s.operands levels keyword d)
      ((s.withGrammar h).operands levels keyword d) := by
  unfold operands
  split
  · exact alike_refl _
  · exact alike_bind (alike_arguments (alike_expression hend levels _) _) fun es => alike_refl _

theorem alike_command (hend : s.Known h (.closing s.closing)) (levels : Nat) :
    Alike (s.Known h) (s.command levels) ((s.withGrammar h).command levels) := by
  intro ts hts
  by_cases hk : (s.front ts).kind = .command
  · cases ts with
    | nil => cases hk
    | cons t rest =>
      obtain ⟨ht, hrest⟩ := List.forall_mem_cons.mp hts
      rw [front_cons] at hk
      cases hd : s.grammar.command? t.lexeme with
      | none => rw [s.run_command_unknown levels hk hd,
          run_command_unknown _ levels hk (ht.command.symm.trans hd)]
      | some d =>
        rw [s.run_command levels hk hd, run_command _ levels hk (ht.command.symm.trans hd)]
        exact alike_operands hend levels t d rest hrest
  · have hfail := s.run_expect_fail .command hk
    have hother : ((s.withGrammar h).expect .command .command).run ts = _ := hfail
    rw [command, run_bind, hfail, command, run_bind, hother]

theorem alike_statement (hend : s.Known h (.closing s.closing)) (levels : Nat) :
    Alike (s.Known h) (s.statement levels) ((s.withGrammar h).statement levels) := by
  refine alike_bind (alike_refl _) fun t => ?_
  cases t.kind with
  | eof => exact alike_refl _
  | command => exact alike_bind (alike_command hend levels) fun c => alike_refl _
  | _ => exact alike_bind (alike_expression hend levels _) fun e => alike_refl _

end Setting

/-- **A statement reads the same** with a grammar that gives the same answers about its
tokens, and about the empty text: the end of a statement has no lexeme. -/
theorem readStatement_eq {g h : Grammar} {tokens : List Token}
    (htokens : ∀ t ∈ tokens, g.AgreesAt h t.lexeme) (hend : g.AgreesAt h "") (closing : Span) :
    readStatement g tokens closing = readStatement h tokens closing := by
  have halike := Setting.alike_statement (s := ⟨g, closing⟩) hend maxNesting tokens htokens
  exact congrArg Outcome.result halike

end CalcSyntax
