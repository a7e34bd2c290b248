import CalcSyntax.Proofs.Reading.Lookahead
import CalcSyntax.Proofs.Span.Relocation

/-!
# Viability — a fault stands at the earliest token that cannot be right

Some tokens are viable if others go on from them to a statement (`Viable`). Numbers of
arguments do not matter, nor does nesting. A rule that finds a token in the place of
another has used viable tokens. Where an operand is missing, a number goes on from them;
where a parenthesis, a comma or the end is missing, nothing has to, since the end closes
everything; where a label is missing, a label does. Whatever encloses the rule is then
complete as well.

With the token that was found, the tokens are not viable any more: what goes on from
there would be read up to the same token, and refused there again.

## What is proved

- `Derives.rebases` — a phrase stays one in front of other tokens.
- `Setting.staysViable_expression` — expressions, by induction on the levels.
- `viable_of_mismatch` — both halves, for statements.
-/

set_option autoImplicit false

namespace CalcSyntax

/-! ## Going on -/

/-- Other tokens go on from these to tokens of the language. -/
def Viable (P : List Token → Prop) (ts : List Token) : Prop :=
  ∃ more, (∀ t ∈ more, t.kind ≠ .eof) ∧ P (ts ++ more)

section

variable {P Q : List Token → Prop} {ts : List Token}

theorem viable_of (h : P ts) : Viable P ts := ⟨[], nofun, by rwa [List.append_nil]⟩

theorem Viable.imp (h : Viable P ts) (himp : ∀ ts, P ts → Q ts) : Viable Q ts := by
  obtain ⟨more, hmore, hP⟩ := h
  exact ⟨more, hmore, himp _ hP⟩

/-- What goes on from some tokens goes on from them behind others. -/
theorem Viable.behind (first : List Token) (h : Viable P ts)
    (himp : ∀ more, P (ts ++ more) → Q (first ++ (ts ++ more))) : Viable Q (first ++ ts) := by
  obtain ⟨more, hmore, hP⟩ := h
  refine ⟨more, hmore, ?_⟩
  rw [List.append_assoc]
  exact himp more hP

end

/-! ## Phrases in front of other tokens -/

section

variable {g : Grammar} {p : Phrase} {first ts mid rest rest' : List Token} {t : Token}

theorem ends_append (h : Ends rest → Ends rest') (hends : Ends (first ++ rest)) :
    Ends (first ++ rest') := by
  cases first with
  | nil => exact h hends
  | cons t first => exact hends

/-- The tokens in front of the rest are related to any other rest as they are to this one. If
the tokens end in front of it, so they must in front of the other. -/
def Rebases (R : List Token → List Token → Prop) (ts rest : List Token) : Prop :=
  ∃ used, ts = used ++ rest ∧ ∀ rest', (Ends rest → Ends rest') → R (used ++ rest') rest'

namespace Rebases

variable {R S T : List Token → List Token → Prop}

theorem refl (h : ∀ rest', (Ends rest → Ends rest') → R rest' rest') : Rebases R rest rest :=
  ⟨[], rfl, h⟩

theorem cons (h : Rebases (fun ts rest => R (t :: ts) rest) ts rest) :
    Rebases R (t :: ts) rest := by
  obtain ⟨used, rfl, hused⟩ := h
  exact ⟨t :: used, rfl, hused⟩

theorem imp (h : Rebases R ts rest) (himp : ∀ {ts rest}, R ts rest → S ts rest) :
    Rebases S ts rest := by
  obtain ⟨used, rfl, hused⟩ := h
  exact ⟨used, rfl, fun rest' hends => himp (hused rest' hends)⟩

theorem seq (h : Rebases R ts mid) (h' : Rebases S mid rest)
    (himp : ∀ {ts mid rest}, R ts mid → S mid rest → T ts rest) : Rebases T ts rest := by
  obtain ⟨first, rfl, hfirst⟩ := h
  obtain ⟨second, rfl, hsecond⟩ := h'
  refine ⟨first ++ second, by simp, fun rest' hends => ?_⟩
  rw [List.append_assoc]
  exact himp (hfirst _ (ends_append hends)) (hsecond _ hends)

end Rebases

/-- A parenthesis stays closed, or left open where the end stays one. -/
theorem Closes.rebases (h : Closes mid rest) : Rebases Closes mid rest := by
  cases h with
  | closed kind => exact .cons (.refl fun _ _ => .closed kind)
  | leftOpen ends => exact .refl fun _ hends => .leftOpen (hends ends)

/-- **A phrase stays one in front of other tokens.** They need not begin like those that it
stood in front of. -/
theorem Derives.rebases (h : Derives g p ts rest) : Rebases (Derives g p) ts rest := by
  induction h with
  | integer kind => exact .cons (.refl fun _ _ => .integer kind)
  | float kind => exact .cons (.refl fun _ _ => .float kind)
  | var kind => exact .cons (.refl fun _ _ => .var kind)
  | group kind _ close ih => exact .cons (ih.seq close.rebases (.group kind))
  | call kind known _ close accepts ih =>
    refine .cons (ih.seq close.rebases fun arguments close => ?_)
    exact .call kind known arguments close accepts
  | noPostfix => exact .refl fun _ _ => .noPostfix
  | postfixed op _ ih => exact .cons (ih.imp (.postfixed op))
  | prefixed op _ ih => exact .cons (ih.imp (.prefixed op))
  | operand _ _ ih ih' => exact ih.seq ih' .operand
  | noInfix => exact .refl fun _ _ => .noInfix
  | infixed op _ _ ih ih' => exact .cons (ih.seq ih' (.infixed op))
  | expr _ _ ih ih' => exact ih.seq ih' .expr
  | last _ ih => exact ih.imp .last
  | @comma t _ _ _ count _ kind _ ih ih' =>
    let more (ts rest : List Token) : Prop :=
      ∃ mid, ts = t :: mid ∧ Derives g (.list count) mid rest
    have hmore : Rebases more (t :: _) _ := .cons (ih'.imp fun h => ⟨_, rfl, h⟩)
    refine ih.seq hmore ?_
    rintro ts _ rest e ⟨mid, rfl, h⟩
    exact .comma e kind h
  | noArgument => exact .refl fun _ _ => .noArgument
  | arguments _ ih => exact ih.imp .arguments

/-- Arguments stay what they are, and what closes them does. -/
theorem Derives.rebases_closed {count : Nat} {parenthesized : Bool}
    (h : Derives g (.arguments count) ts mid)
    (hclosed : if parenthesized then Closes mid rest else rest = mid) :
    Rebases (fun ts rest => ∃ mid, Derives g (.arguments count) ts mid ∧
      if parenthesized then Closes mid rest else rest = mid) ts rest := by
  cases parenthesized with
  | true =>
    have hclosed : Closes mid rest := hclosed
    exact h.rebases.seq hclosed.rebases fun arguments close => ⟨_, arguments, close⟩
  | false =>
    obtain rfl : rest = mid := hclosed
    exact h.rebases.imp fun arguments => ⟨_, arguments, rfl⟩

end

namespace Grammar

variable (g : Grammar)

/-- The tokens are a phrase, and nothing follows. -/
def IsWhole (p : Phrase) (ts : List Token) : Prop := Derives g p ts []

/-- The tokens are the arguments of a word, and nothing follows. -/
def AreArguments (ts : List Token) : Prop := ∃ count, g.IsWhole (.arguments count) ts

/-- A number is an expression. -/
theorem viable_expr_nil : Viable (g.IsWhole .expr) [] := by
  refine ⟨[.bare .integer "0"], by decide, ?_⟩
  exact derives_expr_atom (.integer rfl)

end Grammar

theorem viable_of_derives {g : Grammar} {p : Phrase} {ts rest : List Token}
    (h : Derives g p ts rest) :
    ∃ used, ts = used ++ rest ∧ Viable (g.uncounted.IsWhole p) used := by
  obtain ⟨used, rfl, hused⟩ := h.uncounted.rebases
  refine ⟨used, rfl, [], nofun, hused [] fun _ => nofun⟩

@[simp] theorem Outcome.map_eq_fail_iff {α β : Type} {o : Outcome α} {k : α → β} {f : Fault}
    {rest : List Token} : o.map k = .fail f rest ↔ o = .fail f rest := by
  cases o <;> simp [Outcome.map]

namespace Setting

variable (s : Setting) {α : Type} {nested : Nat → Rule Expr} {ts rest : List Token} {f : Fault}

/-! ## Rules -/

/-- Where the rule finds a token in the place of another, it has used viable tokens, and the
fault is about the one that comes next. -/
def StaysViable (P : List Token → Prop) (x : Rule α) : Prop :=
  ∀ ts f rest, x.run ts = .fail f rest → f.isMismatch = true →
    f.token = s.front rest ∧ ∃ used, ts = used ++ rest ∧ Viable P used

theorem of_expectEnd_fail (h : s.expectEnd.run ts = .fail f rest) :
    rest = ts ∧ f.token = s.front ts := by
  by_cases he : (s.front ts).kind = .eof
  · rw [s.run_expectEnd he] at h
    cases h
  · rw [s.run_expectEnd_fail he] at h
    cases h
    exact ⟨rfl, rfl⟩

theorem of_close_fail {wanted : Wanted} (h : (s.close wanted).run ts = .fail f rest) :
    rest = ts ∧ f.token = s.front ts := by
  by_cases hr : (s.front ts).kind = .rightParen
  · rw [s.run_close wanted hr] at h
    cases h
  by_cases he : (s.front ts).kind = .eof
  · rw [s.run_close_end wanted he] at h
    cases h
  · rw [s.run_close_fail wanted hr he] at h
    cases h
    exact ⟨rfl, rfl⟩

theorem of_closed_fail {parenthesized : Bool} {es : List Expr}
    (h : (s.closed parenthesized es).run ts = .fail f rest) :
    parenthesized = true ∧ (s.close .commaOrCloser).run ts = .fail f rest := by
  cases parenthesized with
  | false => rw [run_closed_false] at h; cases h
  | true =>
    rw [run_closed_true, Outcome.map_eq_fail_iff] at h
    exact ⟨rfl, h⟩

/-- Where the end is, a chain does not fail. -/
theorem not_ends_of_chainFrom_fail {min : Nat} {left : Expr}
    (h : s.chainFrom nested min left ts = .fail f rest) : ¬ Ends ts := by
  intro hends
  have hstop : s.continuation min (s.front ts) = .stop :=
    s.continuation_of_kind (by rw [s.ends_iff_front.mp hends]; decide)
  rw [s.chainFrom_settled hstop] at h
  cases h

/-! ## Expressions -/

variable (hn : ∀ min, ReadsExprs s.grammar (nested min))
  (hs : ∀ min, s.StaysViable (s.grammar.uncounted.IsWhole .expr) (nested min))

include hn hs

/-- The loop along a chain goes on with another operator where it fails, so the tokens did not
end there. -/
theorem staysViable_chain (min : Nat) (left : Expr) :
    s.StaysViable (Trail s.grammar.uncounted · []) (s.chain nested min left) := by
  intro ts f rest h hf
  replace h : s.chainFrom nested min left ts = .fail f rest := h
  fun_induction chainFrom s nested min left ts with
  | case1 => cases h
  | case2 => cases h
  | case3 left t ts hsuffix ih =>
    obtain ⟨htoken, used, rfl, hused⟩ := ih h
    refine ⟨htoken, t :: used, rfl, hused.behind [t] fun more htrail => ?_⟩
    exact .postfixed (s.isOperator_of_suffix hsuffix) htrail
  | case4 left t ts least hop fault behind hfail =>
    cases h
    obtain ⟨htoken, used, rfl, hused⟩ := hs least _ _ _ hfail hf
    refine ⟨htoken, t :: used, rfl, hused.behind [t] fun more hexpr => ?_⟩
    exact trail_infixed (s.joins_of_operand hop) hexpr .nil
  | case5 left t ts least hop right behind hok ih =>
    obtain ⟨htoken, second, rfl, hsecond⟩ := ih h
    obtain ⟨first, rfl, hfirst⟩ := (hn least _ _ _ hok).uncounted.rebases
    refine ⟨htoken, t :: (first ++ second), by simp, ?_⟩
    refine hsecond.behind (t :: first) fun more htrail => ?_
    have hright := hfirst (second ++ more) fun hends =>
      absurd hends (s.not_ends_of_chainFrom_fail h)
    exact trail_infixed (s.joins_of_operand hop) hright htrail

theorem staysViable_list :
    s.StaysViable (fun ts => ∃ count, s.grammar.uncounted.IsWhole (.list count) ts)
      (listOf (nested Level.lowest.rank)) := by
  intro ts f rest h hf
  replace h : listFrom (nested Level.lowest.rank) ts = .fail f rest := h
  fun_induction listFrom (nested Level.lowest.rank) ts with
  | case1 ts fault behind hfail =>
    cases h
    obtain ⟨htoken, used, rfl, hused⟩ := hs _ _ _ _ hfail hf
    exact ⟨htoken, used, rfl, hused.imp fun more he => ⟨1, .last he⟩⟩
  | case2 => cases h
  | case3 ts e t behind hitem hcomma ih =>
    rw [Outcome.map_eq_fail_iff] at h
    obtain ⟨htoken, second, rfl, hsecond⟩ := ih h
    obtain ⟨first, rfl, hfirst⟩ := (hn _ _ _ _ hitem).uncounted.rebases
    refine ⟨htoken, first ++ t :: second, by simp, ?_⟩
    rw [List.append_cons]
    refine hsecond.behind _ ?_
    intro more hwhole
    obtain ⟨count, hmore⟩ := hwhole
    rw [← List.append_cons]
    exact ⟨count + 1, .comma (hfirst _ id) hcomma hmore⟩
  | case4 => cases h

theorem staysViable_arguments (parenthesized : Bool) :
    s.StaysViable s.grammar.uncounted.AreArguments
      (s.arguments (nested Level.lowest.rank) parenthesized) := by
  intro ts f rest h hf
  by_cases hnone : (s.front ts).kind = .eof ∨ (parenthesized ∧ (s.front ts).kind = .rightParen)
  · rw [s.run_arguments_none hnone] at h
    obtain ⟨_, hclose⟩ := s.of_closed_fail h
    obtain ⟨rfl, htoken⟩ := s.of_close_fail hclose
    exact ⟨htoken, [], rfl, viable_of ⟨0, .noArgument⟩⟩
  · rw [s.run_arguments_some hnone] at h
    cases hl : listFrom (nested Level.lowest.rank) ts with
    | fail fault behind =>
      rw [hl] at h
      cases h
      obtain ⟨htoken, used, rfl, hused⟩ := s.staysViable_list hn hs _ _ _ hl hf
      refine ⟨htoken, used, rfl, hused.imp fun more ⟨count, hlist⟩ => ?_⟩
      exact ⟨count, .arguments hlist⟩
    | ok es mid =>
      rw [hl] at h
      obtain ⟨_, hclose⟩ := s.of_closed_fail h
      obtain ⟨rfl, htoken⟩ := s.of_close_fail hclose
      obtain ⟨used, rfl, hused⟩ := viable_of_derives (list_of_listFrom (hn _) hl)
      refine ⟨htoken, used, rfl, hused.imp fun more hlist => ?_⟩
      exact ⟨_, .arguments hlist⟩

theorem staysViable_group :
    s.StaysViable (s.grammar.uncounted.IsWhole .expr) (s.group nested) := by
  intro ts f rest h hf
  by_cases hr : (s.front ts).kind = .rightParen
  · rw [s.run_group_empty hr] at h
    cases h
    exact ⟨rfl, [], rfl, s.grammar.uncounted.viable_expr_nil⟩
  · rw [s.run_group hr] at h
    cases hi : (nested Level.lowest.rank).run ts with
    | fail fault behind =>
      rw [hi] at h
      cases h
      exact hs _ _ _ _ hi hf
    | ok inner mid =>
      simp only [hi, Outcome.map_eq_fail_iff] at h
      obtain ⟨rfl, htoken⟩ := s.of_close_fail h
      exact ⟨htoken, viable_of_derives (hn _ _ _ _ hi)⟩

theorem staysViable_call (name : Token) :
    s.StaysViable s.grammar.uncounted.AreArguments (s.call nested name) := by
  intro ts f rest h hf
  cases hd : s.grammar.function? name.lexeme with
  | none =>
    rw [s.run_call_unknown hd] at h
    cases h
    cases hf
  | some d =>
    rw [s.run_call hd] at h
    cases ha : (s.arguments (nested Level.lowest.rank) true).run ts with
    | fail fault behind =>
      rw [ha] at h
      cases h
      exact s.staysViable_arguments hn hs true _ _ _ ha hf
    | ok es behind =>
      simp only [ha] at h
      split at h
      · cases h
      · cases h
        cases hf

/-- What an operand is read from begins an expression, and is one where nothing follows. -/
theorem staysViable_operand :
    s.StaysViable (s.grammar.uncounted.IsWhole .expr) (s.operand nested) := by
  intro ts f rest h hf
  cases hk : beginsOperand (s.front ts).kind with
  | false =>
    rw [s.run_operand_fail hk] at h
    cases h
    exact ⟨rfl, [], rfl, s.grammar.uncounted.viable_expr_nil⟩
  | true =>
    cases ts with
    | nil => cases hk
    | cons t ts =>
      rw [front_cons] at hk
      cases ht : t.kind with
      | integer => rw [s.run_operand_integer ht] at h; cases h
      | float => rw [s.run_operand_float ht] at h; cases h
      | var => rw [s.run_operand_var ht] at h; cases h
      | leftParen =>
        rw [s.run_operand_leftParen ht] at h
        obtain ⟨htoken, used, rfl, hused⟩ := s.staysViable_group hn hs _ _ _ h hf
        refine ⟨htoken, t :: used, rfl, hused.behind [t] fun more hexpr => ?_⟩
        exact derives_expr_atom (.group ht hexpr (.leftOpen nofun))
      | function =>
        cases hd : s.grammar.function? t.lexeme with
        | none =>
          rw [s.run_operand_function ht, s.run_call_unknown hd] at h
          cases h
          cases hf
        | some d =>
          rw [s.run_operand_function ht] at h
          obtain ⟨htoken, used, rfl, hused⟩ := s.staysViable_call hn hs t _ _ _ h hf
          refine ⟨htoken, t :: used, rfl, hused.behind [t] ?_⟩
          rintro more ⟨count, harguments⟩
          have hknown : s.grammar.uncounted.function? t.lexeme = some d.uncounted := by simp [hd]
          have hcall := Derives.call ht hknown harguments (.leftOpen nofun)
            (d.accepts_uncounted count)
          exact derives_expr_atom hcall
      | operator =>
        cases hd : s.grammar.operators.operator? t.lexeme .prefixOp with
        | none =>
          rw [s.run_operand_operator_fail ht hd] at h
          cases h
          exact ⟨rfl, [], rfl, s.grammar.uncounted.viable_expr_nil⟩
        | some d =>
          rw [s.run_operand_prefixOp ht hd, Outcome.map_eq_fail_iff] at h
          obtain ⟨htoken, used, rfl, hused⟩ := hs _ _ _ _ h hf
          refine ⟨htoken, t :: used, rfl, hused.behind [t] fun more hexpr => ?_⟩
          exact derives_expr_prefixed ⟨ht, by simp [hd]⟩ hexpr
      | _ => rw [ht] at hk; cases hk

omit hn hs

/-- **An expression fails behind viable tokens**, at any level and with any number of levels
left. -/
theorem staysViable_expression (levels min : Nat) :
    s.StaysViable (s.grammar.uncounted.IsWhole .expr) (s.expression levels min) := by
  induction levels generalizing min with
  | zero =>
    intro ts f rest h hf
    rw [run_expression_zero] at h
    cases h
    cases hf
  | succ levels ih =>
    intro ts f rest h hf
    have hn := s.derives_of_expression levels
    rw [run_expression_succ] at h
    cases ho : (s.operand (s.expression levels)).run ts with
    | fail fault behind =>
      rw [ho] at h
      cases h
      exact s.staysViable_operand hn ih _ _ _ ho hf
    | ok left behind =>
      rw [ho] at h
      have hexpr := s.expr_of_readsOperand hn (s.readsOperand_of_run ho)
      obtain ⟨htoken, second, rfl, hsecond⟩ := s.staysViable_chain hn ih min left _ _ _ h hf
      obtain ⟨first, rfl, hfirst⟩ := hexpr.uncounted.rebases
      refine ⟨htoken, first ++ second, by simp, hsecond.behind first fun more htrail => ?_⟩
      have hleft := hfirst (second ++ more) fun hends =>
        absurd hends (s.not_ends_of_chainFrom_fail h)
      exact derives_expr_append hleft htrail

/-! ## Statements -/

theorem staysViable_operands (levels : Nat) (keyword : Token) (d : CommandEntry) :
    s.StaysViable (IsCommandBody s.grammar.uncounted d.uncounted)
      (s.operands levels keyword d) := by
  intro ts f rest h hf
  cases hd : d.takesLabel with
  | true =>
    have takes : d.uncounted.args = .label := d.args_uncounted_eq_label.mpr (eq_of_beq hd)
    rw [s.run_operands_label levels hd] at h
    by_cases hk : (s.front ts).kind = .label
    · obtain ⟨t, ts, rfl, ht⟩ := s.exists_cons_of_front hk (by decide)
      simp only [s.run_expect .labelName (by decide) ht, Outcome.map_eq_fail_iff] at h
      obtain ⟨rfl, htoken⟩ := s.of_expectEnd_fail h
      exact ⟨htoken, [t], rfl, viable_of (.label takes ht nofun)⟩
    · simp only [s.run_expect_fail .labelName hk] at h
      cases h
      refine ⟨rfl, [], rfl, [.bare .label "A"], by decide, ?_⟩
      exact .label takes rfl nofun
  | false =>
    have takes : d.args ≠ .label := ne_of_beq_false hd
    have takes' : d.uncounted.args ≠ .label := fun h => takes (d.args_uncounted_eq_label.mp h)
    have accepts := CommandEntry.accepts_uncounted takes
    have hn := s.derives_of_expression levels
    rw [s.run_operands_arguments levels hd] at h
    cases ha : (s.arguments (s.expression levels Level.lowest.rank) d.opensParen).run ts with
    | fail fault behind =>
      rw [ha] at h
      cases h
      obtain ⟨htoken, used, rfl, hused⟩ :=
        s.staysViable_arguments hn (s.staysViable_expression levels) _ _ _ _ ha hf
      refine ⟨htoken, used, rfl, hused.imp ?_⟩
      rintro more ⟨count, harguments⟩
      have ends : Ends [] := nofun
      refine isCommandBody_of_arguments takes' harguments ?_ ends (accepts count)
      split
      · exact .leftOpen ends
      · rfl
    | ok es behind =>
      simp only [ha] at h
      cases hend : s.expectEnd.run behind with
      | ok u behind' =>
        simp only [hend] at h
        split at h
        · cases h
        · cases h
          cases hf
      | fail fault behind' =>
        simp only [hend] at h
        cases h
        obtain ⟨rfl, htoken⟩ := s.of_expectEnd_fail hend
        obtain ⟨mid, harguments, hclosed⟩ := s.arguments_of_run (hn _) ha
        obtain ⟨used, rfl, hused⟩ := harguments.uncounted.rebases_closed hclosed
        obtain ⟨mid', harguments', hclosed'⟩ := hused [] fun _ => nofun
        refine ⟨htoken, used, rfl, [], nofun, ?_⟩
        exact isCommandBody_of_arguments takes' harguments' hclosed' nofun (accepts _)

theorem staysViable_statement (levels : Nat) :
    s.StaysViable (IsStatement s.grammar.uncounted) (s.statement levels) := by
  intro ts f rest h hf
  by_cases he : (s.front ts).kind = .eof
  · rw [s.run_statement_end levels he] at h
    cases h
  by_cases hc : (s.front ts).kind = .command
  · obtain ⟨t, ts, rfl, ht⟩ := s.exists_cons_of_front hc (by decide)
    rw [s.run_statement_command levels ht, Outcome.map_eq_fail_iff] at h
    cases hd : s.grammar.command? t.lexeme with
    | none =>
      rw [s.run_command_unknown levels ht hd] at h
      cases h
      cases hf
    | some d =>
      rw [s.run_command levels ht hd] at h
      obtain ⟨htoken, used, rfl, hused⟩ := s.staysViable_operands levels t d _ _ _ h hf
      refine ⟨htoken, t :: used, rfl, hused.behind [t] fun more hbody => ?_⟩
      have hknown : s.grammar.uncounted.command? t.lexeme = some d.uncounted := by simp [hd]
      exact .command ht hknown hbody
  · have whole {ts : List Token} (h : s.grammar.uncounted.IsWhole .expr ts) :
        IsStatement s.grammar.uncounted ts := by
      obtain ⟨t, ts, rfl, ht⟩ := begins_of_expr h
      refine .expression ?_ h nofun
      rintro u ⟨⟩
      exact kind_ne_of_beginsOperand ht rfl
    rw [s.run_statement_expression levels he hc] at h
    cases hi : (s.expression levels Level.lowest.rank).run ts with
    | fail fault behind =>
      rw [hi] at h
      cases h
      obtain ⟨htoken, used, rfl, hused⟩ := s.staysViable_expression levels _ _ _ _ hi hf
      exact ⟨htoken, used, rfl, hused.imp fun more hexpr => whole hexpr⟩
    | ok e behind =>
      simp only [hi, Outcome.map_eq_fail_iff] at h
      obtain ⟨rfl, htoken⟩ := s.of_expectEnd_fail h
      obtain ⟨used, rfl, hused⟩ := viable_of_derives (s.derives_of_expression levels _ _ _ _ hi)
      exact ⟨htoken, used, rfl, hused.imp fun more hexpr => whole hexpr⟩

end Setting

/-- **A fault stands at the earliest token that cannot be right.** The tokens in front of it are
viable, with it they are not, and where it is the end they are no statement. -/
theorem viable_of_mismatch {g : Grammar} {tokens rest : List Token} {closing : Span} {f : Fault}
    (h : ((⟨g, closing⟩ : Setting).statement maxNesting).run tokens = .fail f rest)
    (hf : ∃ wanted : String, f.report.message = s!"expected {wanted}, found {f.token.phrase}") :
    ∃ read, tokens = read ++ rest ∧ f.token = (⟨g, closing⟩ : Setting).front rest ∧
      Viable (IsStatement g.uncounted) read ∧
      (∀ t after, rest = t :: after → ¬ Viable (IsStatement g.uncounted) (read ++ [t])) ∧
      (rest = [] → ¬ IsStatement g.uncounted tokens) := by
  let s : Setting := ⟨g, closing⟩
  have hmismatch := Fault.isMismatch_iff.mpr hf
  obtain ⟨htoken, read, rfl, hread⟩ := s.staysViable_statement maxNesting _ _ _ h hmismatch
  refine ⟨read, rfl, htoken, hread, ?_, ?_⟩
  · rintro t after rfl ⟨more, _, hstatement⟩
    rw [List.append_assoc, List.singleton_append] at hstatement
    have hnext : (t :: more).head? = (t :: after).head? := rfl
    exact s.not_isStatement_of_fail h hmismatch hnext hstatement
  · rintro rfl
    exact s.not_isStatement_of_fail h hmismatch rfl

/-- The tokens of `max(1`. -/
def openCall : List Token := [.bare .function "max(", .bare .integer "1"]

/-- The second of two commas is the first token that cannot be right. Without an argument behind
the first one, the call is no statement. -/
theorem viable_of_mismatch_comma :
    Viable (IsStatement Grammar.calculator.uncounted) (openCall ++ [.bare .comma ","]) ∧
      ¬ Viable (IsStatement Grammar.calculator.uncounted)
        (openCall ++ [.bare .comma ",", .bare .comma ","]) ∧
      ¬ IsStatement Grammar.calculator.uncounted (openCall ++ [.bare .comma ","]) := by
  let s : Setting := ⟨.calculator, .origin⟩
  have hcomma : (s.statement maxNesting).run (openCall ++ [.bare .comma ",", .bare .comma ","]) =
      .fail (.unexpected .expression (.bare .comma ",")) [.bare .comma ","] := by
    decide +kernel
  have hend : (s.statement maxNesting).run (openCall ++ [.bare .comma ","]) =
      .fail (.unexpected .expression (.closing .origin)) [] := by
    decide +kernel
  obtain ⟨read, hread, _, hviable, hnext, _⟩ := viable_of_mismatch hcomma ⟨"expression", rfl⟩
  obtain ⟨_, _, _, _, _, hwhole⟩ := viable_of_mismatch hend ⟨"expression", rfl⟩
  obtain rfl : read = openCall ++ [.bare .comma ","] :=
    List.append_cancel_right (hread.symm.trans (List.append_assoc _ [_] [_]).symm)
  exact ⟨hviable, hnext _ _ rfl, hwhole rfl⟩

end CalcSyntax
