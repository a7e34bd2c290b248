import CalcSyntax.Proofs.Reading.Answers
import CalcSyntax.Proofs.Reading.Reader

/-!
# Simulation — the machine does what the rules do

`Reader.Yields` compares one run of the machine with the outcome of a rule: the machine
moves over the tokens that the rule uses and answers what the rule answers, its counter
stands where it stood, and it has not crashed. Rules in sequence keep this (`Yields.seq`),
so the machine's rules are taken one by one. The loops come to an end because each round
takes a token, so a bound is large enough if there are fewer tokens.

The counter and the levels of a rule go in opposite directions. With `d` levels open the
machine reads an expression as the rule does that may open all others.

## What is proved

- `yields_climbFrom`, `yields_argumentsFrom` — the loops.
- `yields_expressionAt` — expressions, with the counter raised and lowered around them.
- `yields_statement` — statements.
-/

set_option autoImplicit false

namespace CalcSyntax

variable {α β : Type}

/-- Reads the token in front if it is of a kind, and says whether. -/
def Setting.takeIf (s : Setting) (kind : TokenKind) : Rule Bool := do
  let t ← s.peek
  if t.kind = kind then
    let _ ← s.take
    pure true
  else pure false

namespace Reader

/-- The machine moves over the tokens that a rule uses, none of which is an end marker, and
answers what the rule does. Nothing else of it changes. -/
def Yields (m : Reading α) (r : Reader) (o : Outcome α) : Prop :=
  ∃ used, r.rest = used ++ o.rest ∧ (∀ t ∈ used, t.kind ≠ .eof) ∧
    r.call m = some (.ok (o.result, r.moved used.length))

/-- The machine has the tables of the setting, so many levels open, and an end marker at the
cursor or behind it, and the bound is large enough for it. -/
structure Ready (s : Setting) (d bound : Nat) (r : Reader) : Prop where
  grammar : r.grammar = s.grammar
  depth : r.depth = d
  length_lt : r.tokens.length < bound
  nesting_lt : maxNesting < bound
  ends : ∃ t ∈ r.rest, t.kind = .eof

variable {s : Setting} {d bound : Nat} {r : Reader} {m : Reading α} {k : α → Reading β} {a : α}
  {fault : Fault} {t : Token} {ts rest used : List Token} {o : Outcome α} {o' : Outcome β}

theorem rest_moved (h : r.rest = used ++ rest) : (r.moved used.length).rest = rest := by
  have hdrop : (r.moved used.length).rest = r.rest.drop used.length := List.drop_drop.symm
  rw [hdrop, h, List.drop_left]

theorem moved_moved (r : Reader) (n k : Nat) : (r.moved n).moved k = r.moved (n + k) := by
  simp [moved, Nat.add_assoc]

theorem Ready.moved (h : r.Ready s d bound) (hrest : r.rest = used ++ rest)
    (hused : ∀ t ∈ used, t.kind ≠ .eof) : (r.moved used.length).Ready s d bound := by
  refine ⟨h.grammar, h.depth, h.length_lt, h.nesting_lt, ?_⟩
  obtain ⟨t, ht, hk⟩ := h.ends
  rw [hrest, List.mem_append] at ht
  rw [rest_moved hrest]
  exact ⟨t, ht.resolve_left fun hmem => hused t hmem hk, hk⟩

theorem Ready.exists_cons (h : r.Ready s d bound) : ∃ t ts, r.rest = t :: ts := by
  obtain ⟨t, ht, _⟩ := h.ends
  exact List.exists_cons_of_ne_nil (List.ne_nil_of_mem ht)

theorem Yields.pure (h : r.rest = rest) (a : α) : Yields (pure a) r (.ok a rest) :=
  ⟨[], h, nofun, rfl⟩

theorem Yields.throw (h : r.rest = rest) (fault : Fault) :
    Yields (throw fault : Reading α) r (.fail fault rest) :=
  ⟨[], h, nofun, rfl⟩

/-- Rules in sequence: the second one runs where the first one has left the machine. -/
theorem call_bind_ok {behind : Reader} (h : r.call m = some (.ok (.ok a, behind))) :
    r.call (m >>= k) = behind.call (k a) := by
  change (r.call m).bind _ = _
  rw [h]
  rfl

/-- Behind a fault nothing runs. -/
theorem call_bind_error {behind : Reader} (h : r.call m = some (.ok (.error fault, behind))) :
    r.call (m >>= k) = some (.ok (.error fault, behind)) := by
  change (r.call m).bind _ = _
  rw [h]
  rfl

theorem Yields.bind_ok (hr : r.Ready s d bound) (hm : Yields m r (.ok a rest))
    (hk : ∀ r' : Reader, r'.Ready s d bound → r'.rest = rest → Yields (k a) r' o') :
    Yields (m >>= k) r o' := by
  obtain ⟨used, hrest, hused, hcall⟩ := hm
  obtain ⟨used', hrest', hused', hcall'⟩ := hk _ (hr.moved hrest hused) (rest_moved hrest)
  refine ⟨used ++ used', ?_, List.forall_mem_append.mpr ⟨hused, hused'⟩, ?_⟩
  · rw [rest_moved hrest] at hrest'
    rw [hrest, List.append_assoc]
    exact congrArg (used ++ ·) hrest'
  · rw [call_bind_ok hcall, hcall', moved_moved, List.length_append]

theorem Yields.bind_fail (hm : Yields m r (.fail fault rest)) :
    Yields (m >>= k) r (.fail fault rest) := by
  obtain ⟨used, hrest, hused, hcall⟩ := hm
  refine ⟨used, hrest, hused, ?_⟩
  exact call_bind_error hcall

/-- **Rules in sequence**, on both sides. -/
theorem Yields.seq {x : Rule α} {f : α → Rule β} (hr : r.Ready s d bound) (hm : Yields m r (x.run r.rest))
    (hk : ∀ (a : α) (r' : Reader), r'.Ready s d bound → Yields (k a) r' ((f a).run r'.rest)) :
    Yields (m >>= k) r ((x >>= f).run r.rest) := by
  rw [Rule.run_bind]
  cases hx : x.run r.rest with
  | fail fault rest =>
    rw [hx] at hm
    exact hm.bind_fail
  | ok a rest =>
    rw [hx] at hm
    refine .bind_ok hr hm fun r' hr' h' => ?_
    subst h'
    exact hk a r' hr'

/-- A rule that only looks leaves the next one where it was. -/
theorem Yields.look (hm : r.call m = some (.ok (.ok a, r))) (hk : Yields (k a) r o') :
    Yields (m >>= k) r o' := by
  obtain ⟨used, hrest, hused, hcall⟩ := hk
  exact ⟨used, hrest, hused, (call_bind_ok hm).trans hcall⟩

/-! ## Tokens -/

open Reading

theorem call_get (r : Reader) : r.call (get : Reading Reader) = some (.ok (.ok r, r)) := rfl

theorem call_peek (hr : r.Ready s d bound) : r.call peek = some (.ok (.ok (s.front r.rest), r)) := by
  obtain ⟨t, ts, h⟩ := hr.exists_cons
  have ht : r.tokens[r.position]? = some t := by
    rw [← List.head?_drop]
    exact congrArg List.head? h
  rw [peek, call_bind_ok (call_get r), ht, h]
  rfl

theorem call_isAtEnd (hr : r.Ready s d bound) :
    r.call isAtEnd = some (.ok (.ok ((s.front r.rest).kind == .eof), r)) := by
  rw [isAtEnd, call_bind_ok (call_peek hr)]
  rfl

theorem call_check (hr : r.Ready s d bound) (kind : TokenKind) :
    r.call (check kind) = some (.ok (.ok ((s.front r.rest).kind == kind), r)) := by
  rw [check, call_bind_ok (call_peek hr)]
  rfl

theorem yields_unexpected (hr : r.Ready s d bound) (wanted : Wanted) :
    Yields (unexpected wanted : Reading α) r
      (.fail (.unexpected wanted (s.front r.rest)) r.rest) := by
  rw [unexpected]
  apply Yields.look (call_peek hr)
  apply Yields.throw rfl

theorem yields_tooDeep (hr : r.Ready s d bound) : Yields tooDeep r (s.tooDeep.run r.rest) := by
  rw [tooDeep]
  apply Yields.look (call_peek hr)
  apply Yields.throw rfl

theorem yields_advance (hr : r.Ready s d bound) (ht : (s.front r.rest).kind ≠ .eof) :
    Yields advance r (.ok (s.front r.rest) r.rest.tail) := by
  obtain ⟨t, ts, h⟩ := hr.exists_cons
  rw [h] at ht
  refine ⟨[t], by rw [h]; rfl, List.forall_mem_singleton.mpr ht, ?_⟩
  rw [advance, call_bind_ok (call_peek hr), h]
  exact congrFun (if_neg ht) r

/-- An end marker is not passed. -/
theorem yields_advance_end (hr : r.Ready s d bound) (ht : (s.front r.rest).kind = .eof) :
    Yields advance r (.ok (s.front r.rest) r.rest) := by
  rw [advance]
  apply Yields.look (call_peek hr)
  rw [if_pos ht]
  exact .pure rfl _

theorem yields_take (hr : r.Ready s d bound) : Yields advance r (s.take.run r.rest) := by
  by_cases ht : (s.front r.rest).kind = .eof
  · simp only [Setting.take, Rule.run_bind, Setting.run_peek, if_pos ht]
    exact yields_advance_end hr ht
  · simp only [Setting.take, Rule.run_bind, Setting.run_peek, if_neg ht]
    exact yields_advance hr ht

theorem yields_consume (hr : r.Ready s d bound) (kind : TokenKind) (wanted : Wanted) :
    Yields (consume kind wanted) r ((s.expect kind wanted).run r.rest) := by
  rw [consume]
  apply Yields.look (call_check hr kind)
  by_cases ht : (s.front r.rest).kind = kind
  · simp only [Setting.expect, Rule.run_bind, Setting.run_peek, if_pos ht,
      if_pos (beq_iff_eq.mpr ht)]
    exact yields_take hr
  · rw [if_neg (by simpa using ht), s.run_expect_fail wanted ht]
    exact yields_unexpected hr wanted

theorem yields_expectEnd (hr : r.Ready s d bound) : Yields expectEnd r (s.expectEnd.run r.rest) := by
  rw [expectEnd]
  apply Yields.look (call_isAtEnd hr)
  by_cases ht : (s.front r.rest).kind = .eof
  · rw [if_pos (beq_iff_eq.mpr ht), s.run_expectEnd ht]
    exact .pure rfl ()
  · rw [if_neg (by simpa using ht), s.run_expectEnd_fail ht]
    exact yields_unexpected hr _

theorem yields_takeIf (hr : r.Ready s d bound) (kind : TokenKind) :
    Yields (matchKind kind) r ((s.takeIf kind).run r.rest) := by
  rw [matchKind, Setting.takeIf, Rule.run_bind, Setting.run_peek]
  apply Yields.look (call_check hr kind)
  dsimp only
  by_cases ht : (s.front r.rest).kind = kind
  · rw [if_pos (beq_iff_eq.mpr ht), if_pos ht]
    exact .seq hr (yields_take hr) fun _ _ _ => .pure rfl _
  · rw [if_neg (by simpa using ht), if_neg ht]
    exact .pure rfl _

/-- A token of the kind is taken. -/
theorem yields_matchKind (hr : r.Ready s d bound) {kind : TokenKind} (hk : kind ≠ .eof)
    (ht : (s.front r.rest).kind = kind) : Yields (matchKind kind) r (.ok true r.rest.tail) := by
  subst ht
  rw [matchKind]
  apply Yields.look (call_check hr _)
  rw [if_pos (beq_self_eq_true _)]
  apply Yields.bind_ok hr (yields_advance hr hk)
  exact fun r' _ h' => .pure h' true

/-- A token of another kind is left. -/
theorem call_matchKind_ne (hr : r.Ready s d bound) {kind : TokenKind}
    (ht : (s.front r.rest).kind ≠ kind) :
    r.call (matchKind kind) = some (.ok (.ok false, r)) := by
  rw [matchKind, call_bind_ok (call_check hr kind), if_neg (by simpa using ht)]
  rfl

theorem yields_closeParen (hr : r.Ready s d bound) :
    Yields closeParen r ((s.close .closer).run r.rest) := by
  rw [closeParen]
  by_cases hclose : (s.front r.rest).kind = .rightParen
  · rw [s.run_close .closer hclose]
    apply Yields.bind_ok hr (yields_matchKind hr (by decide) hclose)
    exact fun r' _ h' => .pure h' ()
  apply Yields.look (call_matchKind_ne hr hclose)
  rw [if_neg Bool.false_ne_true]
  apply Yields.look (call_isAtEnd hr)
  by_cases hend : (s.front r.rest).kind = .eof
  · rw [if_pos (beq_iff_eq.mpr hend), s.run_close_end .closer hend]
    exact .pure rfl ()
  · rw [if_neg (by simpa using hend), s.run_close_fail .closer hclose hend]
    exact yields_unexpected hr _

/-! ## Loops -/

variable {nested : Nat → Rule Expr} {inner : Nat → Reading Expr} {min rounds : Nat} {left : Expr}

/-- The machine reads nested expressions as the rules do, with so many levels open. -/
def ReadsNested (s : Setting) (d bound : Nat) (inner : Nat → Reading Expr)
    (nested : Nat → Rule Expr) : Prop :=
  ∀ (min : Nat) (r : Reader), r.Ready s d bound → Yields (inner min) r ((nested min).run r.rest)

theorem ReadsNested.yields {oe : Outcome Expr} (hn : ReadsNested s d bound inner nested)
    (hr : r.Ready s d bound) (h : r.rest = ts) (hrun : (nested min).run ts = oe) :
    Yields (inner min) r oe := by
  subst h
  rw [← hrun]
  exact hn min r hr

theorem Ready.rest_ne_nil (hr : r.Ready s d bound) : r.rest ≠ [] := by
  obtain ⟨t, ts, h⟩ := hr.exists_cons
  simp [h]

/-- The bound is a round more than there are tokens left. -/
theorem Ready.exists_rounds (hr : r.Ready s d bound) :
    ∃ rounds, bound = rounds + 1 ∧ r.rest.length ≤ rounds := by
  have hbound := hr.length_lt
  refine ⟨bound - 1, by omega, ?_⟩
  rw [rest, List.length_drop]
  omega

/-- A token that does not go on with the expression is left. -/
theorem yields_climbFrom_stop (hr : r.Ready s d bound) (hc : s.continuation min (s.front r.rest) = .stop) :
    Yields (climbFrom inner min (rounds + 1) left) r (.ok left r.rest) := by
  rw [climbFrom]
  apply Yields.look (call_peek hr)
  by_cases hk : (s.front r.rest).kind = .operator
  · rw [if_neg (not_not_intro hk)]
    apply Yields.look (call_get r)
    rw [hr.grammar]
    cases hp : s.grammar.operators.operator? (s.front r.rest).lexeme .postfixOp with
    | some e =>
      dsimp only
      rw [if_pos ((s.stop_iff_of_postfixOp hk hp).mp hc)]
      exact .pure rfl left
    | none =>
      cases hi : s.grammar.operators.operator? (s.front r.rest).lexeme .infixOp with
      | some e =>
        dsimp only
        rw [if_pos ((s.stop_iff_of_infixOp hk hp hi).mp hc)]
        exact .pure rfl left
      | none => exact .pure rfl left
  · rw [if_pos hk]
    exact .pure rfl left

/-- An operator behind the operand is taken. -/
theorem yields_climbFrom_suffix {o : Outcome Expr} (hr : r.Ready s d bound)
    (hc : s.continuation min (s.front r.rest) = .suffix)
    (hk : ∀ r' : Reader, r'.Ready s d bound → r'.rest = r.rest.tail →
      Yields (climbFrom inner min rounds (.suffixed left (s.front r.rest).lexeme)) r' o) :
    Yields (climbFrom inner min (rounds + 1) left) r o := by
  obtain ⟨e, hkind, hp, hle⟩ := s.exists_of_suffix hc
  rw [climbFrom]
  apply Yields.look (call_peek hr)
  rw [if_neg (not_not_intro hkind)]
  apply Yields.look (call_get r)
  simp only [hr.grammar, hp, if_neg (Nat.not_lt.mpr hle)]
  exact .bind_ok hr (yields_advance hr (by rw [hkind]; decide)) hk

/-- An operator that wants an operand is taken, and the operand behind it. -/
theorem yields_climbFrom_operand {least : Nat} {o : Outcome Expr} (hr : r.Ready s d bound)
    (hc : s.continuation min (s.front r.rest) = .operand least)
    (hk : ∀ r' : Reader, r'.Ready s d bound → r'.rest = r.rest.tail →
      Yields (inner least >>= fun right =>
        climbFrom inner min rounds (.binary left (s.front r.rest).lexeme right)) r' o) :
    Yields (climbFrom inner min (rounds + 1) left) r o := by
  obtain ⟨e, hkind, hp, hi, hle, rfl⟩ := s.exists_of_operand hc
  rw [climbFrom]
  apply Yields.look (call_peek hr)
  rw [if_neg (not_not_intro hkind)]
  apply Yields.look (call_get r)
  simp only [hr.grammar, hp, hi, if_neg (Nat.not_lt.mpr hle)]
  exact .bind_ok hr (yields_advance hr (by rw [hkind]; decide)) hk

/-- The machine goes on behind an operand as the rules do. Each round takes a token. -/
theorem yields_climbFrom (hn : ReadsNested s d bound inner nested) (min : Nat) (left : Expr)
    (hr : r.Ready s d bound) (hrounds : r.rest.length ≤ rounds) :
    Yields (climbFrom inner min (rounds + 1) left) r (s.chainFrom nested min left r.rest) := by
  generalize h : r.rest = ts at hrounds
  fun_induction Setting.chainFrom s nested min left ts generalizing r rounds with
  | case1 => exact absurd h hr.rest_ne_nil
  | case2 left t rest hc => exact h ▸ yields_climbFrom_stop hr (by rwa [h])
  | case3 left t rest hc ih =>
    rw [List.length_cons] at hrounds
    obtain ⟨rounds, rfl⟩ : ∃ n, rounds = n + 1 := ⟨rounds - 1, by omega⟩
    apply yields_climbFrom_suffix hr (by rwa [h])
    intro r' hr' h'
    rw [h] at h' ⊢
    exact ih hr' h' (by omega)
  | case4 left t rest least hc fault behind hfail =>
    apply yields_climbFrom_operand hr (by rwa [h])
    intro r' hr' h'
    rw [h] at h'
    exact (hn.yields hr' h' hfail).bind_fail
  | case5 left t rest least hc right behind hok ih =>
    rw [List.length_cons] at hrounds
    obtain ⟨rounds, rfl⟩ : ∃ n, rounds = n + 1 := ⟨rounds - 1, by omega⟩
    have hle := (nested least).length_rest_le rest
    rw [hok, Outcome.rest_ok] at hle
    apply yields_climbFrom_operand hr (by rwa [h])
    intro r' hr' h'
    rw [h] at h' ⊢
    refine .bind_ok hr' (hn.yields hr' h' hok) fun r'' hr'' h'' => ?_
    exact ih hr'' h'' (by omega)

/-- The machine reads a list as the rules do. Each round takes a comma. -/
theorem yields_argumentsFrom (hn : ReadsNested s d bound inner nested) (es : List Expr)
    (hr : r.Ready s d bound) (hrounds : r.rest.length ≤ rounds) :
    Yields (argumentsFrom inner (rounds + 1) es) r
      ((Setting.listFrom (nested Level.lowest.rank) r.rest).map (es ++ ·)) := by
  generalize h : r.rest = ts at hrounds
  fun_induction Setting.listFrom (nested Level.lowest.rank) ts generalizing r es rounds with
  | case1 ts fault rest hfail =>
    rw [argumentsFrom]
    exact (hn.yields hr h hfail).bind_fail
  | case2 ts e hok =>
    rw [argumentsFrom]
    exact .bind_ok hr (hn.yields hr h hok) fun r' hr' h' => absurd h' hr'.rest_ne_nil
  | case3 ts e t rest hok hcomma ih =>
    have hle := (nested Level.lowest.rank).length_rest_le ts
    rw [hok, Outcome.rest_ok, List.length_cons] at hle
    obtain ⟨rounds, rfl⟩ : ∃ n, rounds = n + 1 := ⟨rounds - 1, by omega⟩
    rw [argumentsFrom]
    refine .bind_ok hr (hn.yields hr h hok) fun r' hr' h' => ?_
    have hfront : (s.front r'.rest).kind = .comma := by rwa [h']
    refine .bind_ok hr' (yields_matchKind hr' (by decide) hfront) fun r'' hr'' h'' => ?_
    have happend : ((Setting.listFrom (nested Level.lowest.rank) rest).map (e :: ·)).map (es ++ ·) =
        (Setting.listFrom (nested Level.lowest.rank) rest).map (es ++ [e] ++ ·) := by
      cases Setting.listFrom (nested Level.lowest.rank) rest <;> simp [Outcome.map]
    rw [if_pos rfl, happend]
    exact ih (es ++ [e]) hr'' (by rw [h'', h']; rfl) (by omega)
  | case4 ts e t rest hok hcomma =>
    rw [argumentsFrom]
    refine .bind_ok hr (hn.yields hr h hok) fun r' hr' h' => ?_
    have hfront : (s.front r'.rest).kind ≠ .comma := by rwa [h']
    apply Yields.look (call_matchKind_ne hr' hfront)
    exact .pure h' _

/-! ## Expressions -/

/-- What a rule answers may be put into something. -/
theorem Yields.bind_pure (hr : r.Ready s d bound) (hm : Yields m r o) (f : α → β) :
    Yields (m >>= fun a => Pure.pure (f a)) r (o.map f) := by
  cases o with
  | ok a rest => exact .bind_ok hr hm fun r' _ h' => .pure h' (f a)
  | fail fault rest => exact hm.bind_fail

/-- Where a parenthesis can be closed, it does not matter what else was wanted. -/
theorem yields_closed (hr : r.Ready s d bound)
    (h : (s.front r.rest).kind = .rightParen ∨ (s.front r.rest).kind = .eof) (es : List Expr) :
    Yields (closeParen >>= fun _ => Pure.pure es) r ((s.closed true es).run r.rest) := by
  have hclose : (s.close .commaOrCloser).run r.rest = (s.close .closer).run r.rest := by
    rcases h with hk | hk
    · rw [s.run_close _ hk, s.run_close _ hk]
    · rw [s.run_close_end _ hk, s.run_close_end _ hk]
  rw [s.run_closed_true, hclose]
  exact (yields_closeParen hr).bind_pure hr fun _ => es

theorem yields_arguments (hn : ReadsNested s d bound inner nested) (hr : r.Ready s d bound) (parenthesized : Bool) :
    Yields (arguments bound inner parenthesized) r
      ((s.arguments (nested Level.lowest.rank) parenthesized).run r.rest) := by
  rw [arguments]
  apply Yields.look (call_isAtEnd hr)
  apply Yields.look (call_check hr _)
  by_cases hnone : (s.front r.rest).kind = .eof ∨
      (parenthesized ∧ (s.front r.rest).kind = .rightParen)
  · rw [if_pos (by simpa using hnone), s.run_arguments_none hnone]
    cases parenthesized with
    | false => exact .pure rfl []
    | true => exact yields_closed hr (hnone.symm.imp_left And.right) []
  · rw [if_neg (by simpa using hnone), s.run_arguments_some hnone]
    obtain ⟨rounds, rfl, hrounds⟩ := hr.exists_rounds
    have hlist := yields_argumentsFrom hn [] hr hrounds
    cases hl : Setting.listFrom (nested Level.lowest.rank) r.rest with
    | fail fault rest =>
      rw [hl] at hlist
      exact hlist.bind_fail
    | ok es rest =>
      rw [hl] at hlist
      refine .bind_ok hr hlist fun r' hr' h' => ?_
      cases parenthesized with
      | false => exact .pure h' es
      | true =>
        rw [if_pos rfl]
        apply Yields.look (call_check hr' _)
        apply Yields.look (call_isAtEnd hr')
        subst h'
        by_cases hclose : (s.front r'.rest).kind = .rightParen ∨ (s.front r'.rest).kind = .eof
        · rw [if_neg (by rcases hclose with hk | hk <;> simp [hk])]
          exact yields_closed hr' hclose es
        · obtain ⟨hparen, hend⟩ := not_or.mp hclose
          dsimp only
          rw [if_pos (by simp [hparen, hend]), s.run_closed_true, s.run_close_fail _ hparen hend]
          exact yields_unexpected hr' _

/-- The machine reads a group together with its parenthesis. -/
theorem yields_grouping (hn : ReadsNested s d bound inner nested) (hr : r.Ready s d bound)
    (ht : (s.front r.rest).kind = .leftParen) :
    Yields (grouping inner) r ((s.group nested).run r.rest.tail) := by
  have hconsume := yields_consume hr .leftParen (.named "'('")
  obtain ⟨t, ts, h, hkind⟩ := s.exists_cons_of_front ht (by decide)
  rw [h, s.run_expect _ (by decide) hkind] at hconsume
  rw [grouping, h, List.tail_cons]
  refine .bind_ok hr hconsume fun r₁ hr₁ h₁ => ?_
  subst h₁
  apply Yields.look (call_check hr₁ _)
  rw [Setting.group, Rule.run_bind, Setting.run_peek]
  dsimp only
  by_cases hclose : (s.front r₁.rest).kind = .rightParen
  · rw [if_pos (beq_iff_eq.mpr hclose), if_pos hclose]
    apply Yields.look (call_peek hr₁)
    exact .throw rfl _
  · rw [if_neg (by simpa using hclose), if_neg hclose]
    refine .seq hr₁ (hn _ r₁ hr₁) fun inner r₂ hr₂ => ?_
    refine .seq hr₂ (yields_closeParen hr₂) fun _ r₃ _ => ?_
    exact .pure rfl _

/-- The machine reads a call together with its name. -/
theorem yields_invocation (hn : ReadsNested s d bound inner nested) (hr : r.Ready s d bound)
    (ht : (s.front r.rest).kind = .function) :
    Yields (invocation bound inner) r ((s.call nested (s.front r.rest)).run r.rest.tail) := by
  have hconsume := yields_consume hr .function (.named "function")
  obtain ⟨t, ts, h, hkind⟩ := s.exists_cons_of_front ht (by decide)
  rw [h, s.run_expect _ (by decide) hkind] at hconsume
  rw [invocation, h, List.tail_cons, s.front_cons]
  refine .bind_ok hr hconsume fun r₁ hr₁ h₁ => ?_
  subst h₁
  apply Yields.look (call_get r₁)
  rw [hr₁.grammar, Setting.call]
  cases s.grammar.function? t.lexeme with
  | none => exact .throw rfl _
  | some e =>
    refine .seq hr₁ (yields_arguments hn hr₁ true) fun es r₂ _ => ?_
    split
    · exact .pure rfl _
    · exact .throw rfl _

theorem yields_operand (hn : ReadsNested s d bound inner nested) (hr : r.Ready s d bound) :
    Yields (operand bound inner) r ((s.operand nested).run r.rest) := by
  obtain ⟨t, ts, h⟩ := hr.exists_cons
  have hfront : s.front r.rest = t := congrArg s.front h
  have htail : r.rest.tail = ts := congrArg List.tail h
  have taken (ht : t.kind ≠ .eof) : Yields advance r (.ok t ts) := by
    rw [← hfront] at ht
    simpa only [hfront, htail] using yields_advance hr ht
  have leaf (ht : t.kind ≠ .eof) (e : Expr) :
      Yields (advance >>= fun _ => Pure.pure e) r (.ok e ts) :=
    (taken ht).bind_pure hr fun _ => e
  have other (ht : Setting.beginsOperand t.kind = false) :
      Yields (throw (.unexpected .expression t)) r ((s.operand nested).run (t :: ts)) := by
    have hfail : (s.operand nested).run (t :: ts) = .fail (.unexpected .expression t) (t :: ts) :=
      s.run_operand_fail ht
    rw [hfail]
    exact .throw h _
  rw [operand]
  apply Yields.look (call_peek hr)
  rw [hfront, h]
  cases hk : t.kind with
  | integer =>
    rw [s.run_operand_integer hk]
    exact leaf (by simp [hk]) _
  | float =>
    rw [s.run_operand_float hk]
    exact leaf (by simp [hk]) _
  | var =>
    rw [s.run_operand_var hk]
    exact leaf (by simp [hk]) _
  | leftParen =>
    rw [s.run_operand_leftParen hk, ← htail]
    exact yields_grouping hn hr (hfront ▸ hk)
  | function =>
    rw [s.run_operand_function hk, ← htail, ← hfront]
    exact yields_invocation hn hr (hfront ▸ hk)
  | operator =>
    apply Yields.look (call_get r)
    rw [hr.grammar]
    cases hd : s.grammar.operators.operator? t.lexeme .prefixOp with
    | none =>
      rw [s.run_operand_operator_fail hk hd]
      exact .throw h _
    | some e =>
      rw [s.run_operand_prefixOp hk hd]
      refine .bind_ok hr (taken (by simp [hk])) fun r' hr' h' => ?_
      exact (hn.yields hr' h' rfl).bind_pure hr' _
  | _ => exact other (by rw [hk]; rfl)

theorem yields_climb (hn : ReadsNested s d bound inner nested) (min : Nat) (hr : r.Ready s d bound) :
    Yields (climb bound inner min) r ((s.operand nested >>= s.chain nested min).run r.rest) := by
  rw [climb]
  refine .seq hr (yields_operand hn hr) fun left r' hr' => ?_
  obtain ⟨rounds, rfl, hrounds⟩ := hr'.exists_rounds
  exact yields_climbFrom hn min left hr' hrounds

/-! ## Levels -/

/-- The machine with another number of levels open. -/
def withDepth (r : Reader) (d : Nat) : Reader := { r with depth := d }

variable {inside : Nat}

theorem call_nestedAt_deep (h : maxNesting ≤ r.depth) (min : Nat) :
    r.call (nestedAt bound (inside + 1) min) = r.call tooDeep := by
  rw [call, nestedAt]
  exact if_pos h

/-- Whatever is found inside, the level is closed again. -/
theorem call_nestedAt (h : r.depth < maxNesting) (min n : Nat) {result : Except Fault Expr}
    (hclimb : (r.withDepth (r.depth + 1)).call (climb bound (nestedAt bound inside) min) =
      some (.ok (result, (r.withDepth (r.depth + 1)).moved n))) :
    r.call (nestedAt bound (inside + 1) min) = some (.ok (result, r.moved n)) := by
  have hraise : r.raise = pure (r.withDepth (r.depth + 1)) :=
    if_pos (Nat.lt_of_le_of_lt h r.roomy)
  rw [call, nestedAt]
  refine (if_neg (Nat.not_le.mpr h)).trans ?_
  rw [hraise]
  change ((r.withDepth (r.depth + 1)).call (climb bound (nestedAt bound inside) min)).bind _ = _
  rw [hclimb]
  rfl

/-- **An expression is read as by the rules**, with as many levels as are left to open. By
induction on these. -/
theorem yields_nestedAt (levels : Nat) (h : maxNesting - d = levels) (hinside : levels < inside) :
    ReadsNested s d bound (nestedAt bound inside) (s.expression levels) := by
  intro min r hr
  induction levels generalizing d inside min r with
  | zero =>
    obtain ⟨inside, rfl⟩ := Nat.exists_eq_add_one_of_ne_zero (Nat.ne_zero_of_lt hinside)
    have hdeep : maxNesting ≤ r.depth := by
      rw [hr.depth]
      omega
    obtain ⟨used, hrest, hused, hcall⟩ := yields_tooDeep hr
    exact ⟨used, hrest, hused, (call_nestedAt_deep hdeep min).trans hcall⟩
  | succ levels ih =>
    obtain ⟨inside, rfl⟩ := Nat.exists_eq_add_one_of_ne_zero (Nat.ne_zero_of_lt hinside)
    have hinner : (r.withDepth (r.depth + 1)).Ready s (d + 1) bound :=
      ⟨hr.grammar, congrArg (· + 1) hr.depth, hr.length_lt, hr.nesting_lt, hr.ends⟩
    have hlt : r.depth < maxNesting := by
      rw [hr.depth]
      omega
    have hn : ReadsNested s (d + 1) bound (nestedAt bound inside) (s.expression levels) :=
      ih (by omega) (by omega)
    obtain ⟨used, hrest, hused, hcall⟩ := yields_climb hn min hinner
    exact ⟨used, hrest, hused, call_nestedAt hlt min _ hcall⟩

theorem yields_expressionAt : ReadsNested s d bound (expressionAt bound) (s.expression (maxNesting - d)) :=
  fun min r hr => yields_nestedAt _ rfl (Nat.lt_of_le_of_lt (Nat.sub_le _ _) hr.nesting_lt) min r hr

/-! ## Statements -/

theorem yields_expression (hr : r.Ready s d bound) :
    Yields (expression bound) r ((s.expression (maxNesting - d) Level.lowest.rank).run r.rest) :=
  yields_expressionAt Level.lowest.rank r hr

theorem yields_expressionStatement (hr : r.Ready s d bound) :
    Yields (expressionStatement bound) r ((s.expressionStatement (maxNesting - d)).run r.rest) := by
  rw [expressionStatement, Setting.expressionStatement]
  refine .seq hr (yields_expression hr) fun e r₁ hr₁ => ?_
  refine .seq hr₁ (yields_expectEnd hr₁) fun _ r₂ _ => ?_
  exact .pure rfl _

theorem yields_command (hr : r.Ready s d bound) :
    Yields (command bound) r ((s.command (maxNesting - d)).run r.rest) := by
  rw [command, Setting.command]
  refine .seq hr (yields_consume hr _ _) fun keyword r₁ hr₁ => ?_
  apply Yields.look (call_get r₁)
  rw [hr₁.grammar]
  cases s.grammar.command? keyword.lexeme with
  | none => exact .throw rfl _
  | some e =>
    dsimp only
    rw [Setting.operands]
    split
    · refine .seq hr₁ (yields_consume hr₁ _ _) fun label r₂ hr₂ => ?_
      refine .seq hr₂ (yields_expectEnd hr₂) fun _ r₃ _ => ?_
      exact .pure rfl _
    · refine .seq hr₁ (yields_arguments yields_expressionAt hr₁ _) fun es r₂ hr₂ => ?_
      refine .seq hr₂ (yields_expectEnd hr₂) fun _ r₃ _ => ?_
      split
      · exact .pure rfl _
      · exact .throw rfl _

theorem yields_statement (hr : r.Ready s d bound) :
    Yields (statement bound) r ((s.statement (maxNesting - d)).run r.rest) := by
  rw [statement]
  apply Yields.look (call_isAtEnd hr)
  by_cases hend : (s.front r.rest).kind = .eof
  · rw [if_pos (beq_iff_eq.mpr hend), s.run_statement_end _ hend]
    exact .pure rfl _
  rw [if_neg (by simpa using hend)]
  apply Yields.look (call_check hr _)
  by_cases hcommand : (s.front r.rest).kind = .command
  · obtain ⟨t, ts, h, ht⟩ := s.exists_cons_of_front hcommand (by decide)
    rw [if_pos (beq_iff_eq.mpr hcommand), h, s.run_statement_command _ ht, ← h]
    exact (yields_command hr).bind_pure hr _
  · have hrun : (s.statement (maxNesting - d)).run r.rest =
        (s.expressionStatement (maxNesting - d)).run r.rest := by
      simp only [Setting.statement, Rule.run_bind, Setting.run_peek]
    rw [if_neg (by simpa using hcommand), hrun]
    exact yields_expressionStatement hr

end Reader

end CalcSyntax
