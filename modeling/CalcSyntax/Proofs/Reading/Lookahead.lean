import CalcSyntax.Proofs.Grammar.Uncounted
import CalcSyntax.Proofs.Reading.Acceptance

/-!
# Lookahead — reading looks at what it has used, and one token further

A rule sees the tokens in front of it one at a time. What it has not used when it stops,
it has not seen, the first of it apart. Put other tokens there that begin the same way,
and it stops in the same place with the same answer.

That is so with another grammar too, one without the numbers of arguments. A rule of it
goes on where a count was wrong, and does the same otherwise. `Rule.Follows` says both of
two rules at once. It is closed under `bind`: what the first rule leaves is what the
second one uses, and what that one leaves.

## What is proved

- `Setting.follows_statement` — statements.
- `Setting.not_isStatement_of_fail` — so no statement, counted or not, goes on from
  what was used with the token that was found.
-/

set_option autoImplicit false

namespace CalcSyntax

variable {α β : Type}

/-- Whether the fault is about a token that stands in the place of another. -/
def Fault.isMismatch : Fault → Bool
  | unexpected _ _ | noLeftOperand _ | emptyGroup _ => true
  | unknownCommand _ | unknownFunction _ | wrongCount _ _ _ | tooDeep _ => false

/-- These are the faults that say what was expected and what was found. -/
theorem Fault.isMismatch_iff {f : Fault} : f.isMismatch = true ↔
    ∃ wanted : String, f.report.message = s!"expected {wanted}, found {f.token.phrase}" := by
  have other {message : String} (h : message.toList.take 5 ≠ "expec".toList) :
      ¬ ∃ wanted : String, message = s!"expected {wanted}, found {f.token.phrase}" := by
    rintro ⟨wanted, rfl⟩
    exact h (by simp [toString])
  cases f with
  | unexpected | noLeftOperand | emptyGroup => exact iff_of_true rfl ⟨_, rfl⟩
  | unknownCommand | unknownFunction | wrongCount | tooDeep =>
    refine iff_of_false Bool.false_ne_true (other ?_)
    simp [report, Diagnostic.ofKind, Diagnostic.withHint, toString]

namespace Outcome

/-- There is a value, or a token stands in the place of another. -/
def IsPlain : Outcome α → Prop
  | ok _ _ => True
  | fail f _ => f.isMismatch = true

/-- The outcome with other tokens left. -/
def leaving (o : Outcome α) (rest : List Token) : Outcome α :=
  match o with
  | ok a _ => ok a rest
  | fail f _ => fail f rest

@[simp] theorem isPlain_map (f : α → β) (o : Outcome α) : (o.map f).IsPlain ↔ o.IsPlain := by
  cases o <;> rfl

@[simp] theorem leaving_map (f : α → β) (o : Outcome α) (rest : List Token) :
    (o.map f).leaving rest = (o.leaving rest).map f := by
  cases o <;> rfl

end Outcome

namespace Rule

/-- Where the first rule stops, the second one stops with the same answer, if what comes next
begins with the same token. -/
def Follows (x y : Rule α) : Prop :=
  ∀ used rest rest' o, x.run (used ++ rest) = o → o.rest = rest → o.IsPlain →
    rest'.head? = rest.head? → y.run (used ++ rest') = o.leaving rest'

theorem follows_pure (a : α) : Follows (pure a) (pure a) := by
  rintro used rest rest' _ rfl hrest _ _
  obtain rfl : used = [] := List.append_left_eq_self.mp hrest
  rfl

theorem follows_refuse (f : Fault) : Follows (refuse f : Rule α) (refuse f) := by
  rintro used rest rest' _ rfl hrest _ _
  obtain rfl : used = [] := List.append_left_eq_self.mp hrest
  rfl

/-- Where the fault is another one, there is nothing to follow. -/
theorem follows_of_not_mismatch {f : Fault} (h : f.isMismatch = false) (y : Rule α) :
    Follows (refuse f) y := by
  rintro used rest rest' _ rfl _ hplain _
  rw [show f.isMismatch = true from hplain] at h
  cases h

theorem follows_skip : Follows skip skip := by
  rintro used rest rest' _ rfl hrest _ hhead
  cases used with
  | cons t used =>
    obtain rfl : used = [] := List.append_left_eq_self.mp hrest
    rfl
  | nil =>
    -- nothing was there to be left out
    cases rest with
    | nil => rw [List.head?_eq_none_iff.mp hhead]; rfl
    | cons t rest => exact absurd (congrArg List.length hrest) (by simp)

/-- The second rule stops in the middle where the first one does. -/
theorem Follows.exists_ok {x y : Rule α} (h : Follows x y) {used rest rest' mid : List Token}
    {a : α} (hrun : x.run (used ++ rest) = .ok a mid) (hrest : rest <:+ mid)
    (hhead : rest'.head? = rest.head?) :
    ∃ more, mid = more ++ rest ∧ y.run (used ++ rest') = .ok a (more ++ rest') := by
  have hmid := x.rest_suffix (used ++ rest)
  rw [hrun] at hmid
  obtain ⟨more, rfl⟩ := hrest
  obtain ⟨first, heq⟩ := hmid
  obtain rfl : first ++ more = used := by
    rw [Outcome.rest_ok, ← List.append_assoc] at heq
    exact List.append_cancel_right heq
  have hhead' : (more ++ rest').head? = (more ++ rest).head? := by
    rw [List.head?_append, List.head?_append, hhead]
  rw [List.append_assoc] at hrun
  rw [List.append_assoc]
  exact ⟨more, rfl, h _ _ _ _ hrun rfl trivial hhead'⟩

/-- Rules in sequence follow if each of them does. -/
theorem follows_bind {x y : Rule α} {k l : α → Rule β} (hx : Follows x y)
    (hk : ∀ a, Follows (k a) (l a)) : Follows (x >>= k) (y >>= l) := by
  intro used rest rest' o hrun hrest hplain hhead
  rw [run_bind] at hrun ⊢
  cases hfirst : x.run (used ++ rest) with
  | fail f behind =>
    rw [hfirst] at hrun
    subst hrun
    rw [hx _ _ _ _ hfirst hrest hplain hhead]
    rfl
  | ok a mid =>
    rw [hfirst] at hrun
    replace hrun : (k a).run mid = o := hrun
    have hmid : rest <:+ mid := by
      rw [← hrest, ← hrun]
      exact (k a).rest_suffix mid
    obtain ⟨more, rfl, hy⟩ := hx.exists_ok hfirst hmid hhead
    rw [hy]
    exact hk a _ _ _ _ hrun hrest hplain hhead

theorem follows_ite {p : Prop} [Decidable p] {x x' y y' : Rule α} (hx : Follows x y)
    (hx' : Follows x' y') : Follows (if p then x else x') (if p then y else y') := by
  split
  · exact hx
  · exact hx'

end Rule

namespace Setting

open Rule

variable (s : Setting) {nested nested' : Nat → Rule Expr}

/-- The setting without the numbers of arguments. -/
def uncounted : Setting := { s with grammar := s.grammar.uncounted }

theorem front_eq_of_head? {ts ts' : List Token} (h : ts'.head? = ts.head?) :
    s.front ts' = s.front ts := by
  simp [front, List.headD_eq_head?_getD, h]

theorem follows_peek : Follows s.peek s.uncounted.peek := by
  rintro used rest rest' _ rfl hrest _ hhead
  obtain rfl : used = [] := List.append_left_eq_self.mp hrest
  exact congrArg (Outcome.ok · rest') (s.front_eq_of_head? hhead)

theorem follows_take : Follows s.take s.uncounted.take :=
  follows_bind s.follows_peek fun t =>
    follows_ite (follows_pure t) (follows_bind follows_skip fun _ => follows_pure t)

theorem follows_expect (kind : TokenKind) (wanted : Wanted) :
    Follows (s.expect kind wanted) (s.uncounted.expect kind wanted) :=
  follows_bind s.follows_peek fun _ => follows_ite s.follows_take (follows_refuse _)

theorem follows_expectEnd : Follows s.expectEnd s.uncounted.expectEnd :=
  follows_bind s.follows_peek fun _ => follows_ite (follows_pure ()) (follows_refuse _)

theorem follows_close (wanted : Wanted) :
    Follows (s.close wanted) (s.uncounted.close wanted) :=
  follows_bind s.follows_peek fun _ =>
    follows_ite follows_skip (follows_ite (follows_pure ()) (follows_refuse _))

/-- What is left of a list behind its first token is not the whole list. -/
theorem exists_cons_of_suffix {t : Token} {used rest ts : List Token}
    (h : used ++ rest = t :: ts) (hrest : rest <:+ ts) :
    ∃ more, used = t :: more ∧ more ++ rest = ts := by
  cases used with
  | nil =>
    obtain rfl : rest = t :: ts := h
    exact absurd hrest.length_le (by simp)
  | cons u used =>
    obtain ⟨rfl, hmore⟩ := List.cons.inj h
    exact ⟨used, rfl, hmore⟩

/-- The loop along a chain follows. The induction is that of the loop: what is used of it is
an operator first. -/
theorem follows_chain (hn : ∀ min, Follows (nested min) (nested' min)) (min : Nat) (left : Expr) :
    Follows (s.chain nested min left) (s.uncounted.chain nested' min left) := by
  intro used rest rest' o hrun hrest hplain hhead
  show s.uncounted.chainFrom nested' min left (used ++ rest') = o.leaving rest'
  replace hrun : s.chainFrom nested min left (used ++ rest) = o := hrun
  have same (t : Token) : s.uncounted.continuation min t = s.continuation min t := rfl
  generalize hts : used ++ rest = ts at hrun
  fun_induction chainFrom s nested min left ts generalizing used with
  | case1 left =>
    subst hrun
    obtain ⟨rfl, rfl⟩ := List.append_eq_nil_iff.mp hts
    rw [List.head?_eq_none_iff.mp hhead, List.nil_append, chainFrom_nil]
    rfl
  | case2 left t ts hstop =>
    subst hrun
    obtain rfl : t :: ts = rest := hrest
    obtain rfl : used = [] := List.append_left_eq_self.mp hts
    obtain ⟨rest', rfl⟩ := List.head?_eq_some_iff.mp hhead
    exact chainFrom_stop _ ((same t).trans hstop)
  | case3 left t ts hsuffix ih =>
    have hused := s.rest_chainFrom nested min (.suffixed left t.lexeme) ts
    rw [hrun, hrest] at hused
    obtain ⟨more, rfl, rfl⟩ := exists_cons_of_suffix hts hused
    rw [List.cons_append, chainFrom_suffix _ ((same t).trans hsuffix)]
    exact ih _ rfl hrun
  | case4 left t ts least hop fault behind hfail =>
    subst hrun
    obtain rfl : behind = rest := hrest
    have hused := (nested least).rest_suffix ts
    rw [hfail] at hused
    obtain ⟨more, rfl, rfl⟩ := exists_cons_of_suffix hts hused
    rw [List.cons_append, chainFrom_operand_fail _ ((same t).trans hop)
      (hn least _ _ _ _ hfail rfl hplain hhead)]
    rfl
  | case5 left t ts least hop right behind hok ih =>
    have hbehind := s.rest_chainFrom nested min (.binary left t.lexeme right) behind
    rw [hrun, hrest] at hbehind
    have hused := (nested least).rest_suffix ts
    rw [hok] at hused
    obtain ⟨more, rfl, rfl⟩ := exists_cons_of_suffix hts (hbehind.trans hused)
    obtain ⟨last, rfl, hok'⟩ := (hn least).exists_ok hok hbehind hhead
    rw [List.cons_append, chainFrom_operand _ ((same t).trans hop) hok']
    exact ih _ rfl hrun

/-- The loop along a list follows. -/
theorem follows_listOf {item item' : Rule Expr} (hi : Follows item item') :
    Follows (listOf item) (listOf item') := by
  intro used rest rest' o hrun hrest hplain hhead
  show listFrom item' (used ++ rest') = o.leaving rest'
  replace hrun : listFrom item (used ++ rest) = o := hrun
  generalize hts : used ++ rest = ts at hrun
  fun_induction listFrom item ts generalizing used o with
  | case1 ts fault behind hfail =>
    subst hrun hts
    exact listFrom_fail (hi _ _ _ _ hfail hrest hplain hhead)
  | case2 ts e hend =>
    subst hrun hts
    obtain rfl : [] = rest := hrest
    obtain rfl : rest' = [] := List.head?_eq_none_iff.mp hhead
    exact listFrom_end (hi _ _ _ _ hend rfl trivial rfl)
  | case3 ts e t behind hitem hcomma ih =>
    subst hrun hts
    rw [Outcome.rest_map] at hrest
    rw [Outcome.isPlain_map] at hplain
    have hbehind := (listOf item).rest_suffix behind
    rw [show ((listOf item).run behind).rest = rest from hrest] at hbehind
    obtain ⟨more, hmore, hitem'⟩ := hi.exists_ok hitem (hbehind.trans (List.suffix_cons t _)) hhead
    obtain ⟨last, rfl, hlast⟩ := exists_cons_of_suffix hmore.symm hbehind
    rw [listFrom_comma hitem' hcomma, Outcome.leaving_map]
    exact congrArg _ (ih last _ hrest hplain hlast rfl)
  | case4 ts e t behind hitem hcomma =>
    subst hrun hts
    obtain rfl : t :: behind = rest := hrest
    refine listFrom_last (hi _ _ _ _ hitem rfl trivial hhead) ?_
    rw [hhead]
    rintro u ⟨⟩
    exact hcomma

theorem follows_arguments {item item' : Rule Expr} (hi : Follows item item')
    (parenthesized : Bool) :
    Follows (s.arguments item parenthesized) (s.uncounted.arguments item' parenthesized) := by
  refine follows_bind s.follows_peek fun t => ?_
  have closed (es : List Expr) :
      Follows (s.closed parenthesized es) (s.uncounted.closed parenthesized es) :=
    follows_ite (follows_bind (s.follows_close _) fun _ => follows_pure es) (follows_pure es)
  exact follows_ite (follows_bind (follows_pure []) closed)
    (follows_bind (follows_listOf hi) closed)

theorem follows_group (hn : ∀ min, Follows (nested min) (nested' min)) :
    Follows (s.group nested) (s.uncounted.group nested') :=
  follows_bind s.follows_peek fun _ => follows_ite (follows_refuse _)
    (follows_bind (hn _) fun inner =>
      follows_bind (s.follows_close _) fun _ => follows_pure (Expr.group inner))

/-- A function takes any number of arguments, so the second rule goes on where the first one
counts too few or too many. -/
theorem follows_call (hn : ∀ min, Follows (nested min) (nested' min)) (name : Token) :
    Follows (s.call nested name) (s.uncounted.call nested' name) := by
  unfold call
  have hknown : s.uncounted.grammar.function? name.lexeme =
      (s.grammar.function? name.lexeme).map FunctionEntry.uncounted :=
    s.grammar.function?_uncounted name.lexeme
  rw [hknown]
  cases s.grammar.function? name.lexeme with
  | none => exact follows_of_not_mismatch rfl _
  | some d =>
    refine follows_bind (s.follows_arguments (hn _) true) fun es => ?_
    rw [if_pos (d.accepts_uncounted es.length)]
    split
    · exact follows_pure _
    · exact follows_of_not_mismatch rfl _

theorem follows_operand (hn : ∀ min, Follows (nested min) (nested' min)) :
    Follows (s.operand nested) (s.uncounted.operand nested') := by
  refine follows_bind s.follows_peek fun t => ?_
  have leaf (e : Expr) : Follows (skip >>= fun _ => pure e) (skip >>= fun _ => pure e) :=
    follows_bind follows_skip fun _ => follows_pure e
  cases t.kind with
  | integer => exact leaf (.literal .integer t.lexeme)
  | float => exact leaf (.literal .float t.lexeme)
  | var => exact leaf (.var t.lexeme)
  | leftParen => exact follows_bind follows_skip fun _ => s.follows_group hn
  | function => exact follows_bind follows_skip fun _ => s.follows_call hn t
  | operator =>
    have hknown : s.uncounted.grammar.operators.operator? t.lexeme .prefixOp =
        s.grammar.operators.operator? t.lexeme .prefixOp := rfl
    rw [hknown]
    cases s.grammar.operators.operator? t.lexeme .prefixOp with
    | none => exact follows_refuse _
    | some d =>
      exact follows_bind follows_skip fun _ =>
        follows_bind (hn d.level.rank) fun inner => follows_pure (Expr.unary t.lexeme inner)
  | _ => exact follows_refuse _

/-- By induction on the levels that are left. -/
theorem follows_expression (levels min : Nat) :
    Follows (s.expression levels min) (s.uncounted.expression levels min) := by
  induction levels generalizing min with
  | zero => exact follows_bind s.follows_peek fun _ => follows_of_not_mismatch rfl _
  | succ levels ih =>
    exact follows_bind (s.follows_operand ih) fun left => s.follows_chain ih min left

/-! ## Statements -/

theorem follows_operands (levels : Nat) (keyword : Token) (d : CommandEntry) :
    Follows (s.operands levels keyword d) (s.uncounted.operands levels keyword d.uncounted) := by
  unfold operands
  rw [d.takesLabel_uncounted, d.opensParen_uncounted]
  cases htakes : d.takesLabel with
  | true =>
    exact follows_bind (s.follows_expect _ _) fun label =>
      follows_bind s.follows_expectEnd fun _ => follows_pure _
  | false =>
    have hany := CommandEntry.accepts_uncounted (ne_of_beq_false htakes)
    refine follows_bind (s.follows_arguments (s.follows_expression levels _) _) fun es =>
      follows_bind s.follows_expectEnd fun _ => ?_
    rw [if_pos (hany es.length)]
    split
    · exact follows_pure _
    · exact follows_of_not_mismatch rfl _

theorem follows_command (levels : Nat) :
    Follows (s.command levels) (s.uncounted.command levels) := by
  refine follows_bind (s.follows_expect _ _) fun keyword => ?_
  have hknown : s.uncounted.grammar.command? keyword.lexeme =
      (s.grammar.command? keyword.lexeme).map CommandEntry.uncounted :=
    s.grammar.command?_uncounted keyword.lexeme
  rw [hknown]
  cases s.grammar.command? keyword.lexeme with
  | none => exact follows_of_not_mismatch rfl _
  | some d => exact s.follows_operands levels keyword d

/-- **A statement is read up to the same place** with any tokens behind it that begin the same
way, and with any numbers of arguments. -/
theorem follows_statement (levels : Nat) :
    Follows (s.statement levels) (s.uncounted.statement levels) := by
  refine follows_bind s.follows_peek fun t => ?_
  cases t.kind with
  | eof => exact follows_pure _
  | command => exact follows_bind (s.follows_command levels) fun c => follows_pure _
  | _ =>
    exact follows_bind (s.follows_expression levels _) fun e =>
      follows_bind s.follows_expectEnd fun _ => follows_pure _

/-- **Where a token stands in the place of another, no statement goes on**: none has the used
tokens and then begins as the rest does. -/
theorem not_isStatement_of_fail {levels : Nat} {used rest rest' : List Token} {f : Fault}
    (h : (s.statement levels).run (used ++ rest) = .fail f rest) (hf : f.isMismatch = true)
    (hhead : rest'.head? = rest.head?) : ¬ IsStatement s.grammar.uncounted (used ++ rest') := by
  intro hstatement
  have hfail := s.follows_statement levels _ _ _ _ h rfl hf hhead
  rcases s.uncounted.reads_statement levels hstatement with ⟨_, t, behind, hdeep⟩ | ⟨k, behind, hk⟩
  · rw [hfail] at hdeep
    cases hdeep
    cases hf
  · rw [hfail] at hk
    cases hk

end Setting

end CalcSyntax
