import CalcSyntax.Proofs.Reading.Session
import CalcSyntax.Proofs.Reading.Simulation
import CalcSyntax.Proofs.Span.Relocation
import Mathlib.Control.Monad.Basic

/-!
# Discipline — whatever is asked, a machine is left in order

A caller may ask a machine for any rule at any place, also behind a fault and with any
number of levels open. One end marker at the cursor or behind it is enough: no rule
passes it, so every rule comes to an end, finds all the tokens that it looks at, and
leaves the counter as it was. Any bound will do that is more than the number of tokens and
the number of levels. A session, whose rules have neither a cursor to move nor a counter to
raise, nor a bound, answers the same.

## What is proved

- `Reader.call_query` — one query.
- `Reader.run_queries` — one query after the other.
- `reader_disciplined` — the state and the answers of a machine behind any queries.
-/

set_option autoImplicit false

namespace CalcSyntax

/-! ## The rule of a query -/

namespace Query

/-- The rule that a query asks for, with so many levels to open. -/
def rule (s : Setting) (levels : Nat) : Query → Rule Reply
  | peek => do return .token (← s.peek)
  | advance => do return .token (← s.take)
  | isAtEnd => do return .flag ((← s.peek).kind == .eof)
  | check kind => do return .flag ((← s.peek).kind == kind)
  | matchKind kind => do return .flag (← s.takeIf kind)
  | consume kind phrase => do return .token (← s.expect kind (.named phrase))
  | expectEnd => do
    s.expectEnd
    return .nothing
  | closeParen => do
    s.close .closer
    return .nothing
  | arguments parenthesized => do
    return .exprs (← s.arguments (s.expression levels Level.lowest.rank) parenthesized)
  | expression => do return .expr (← s.expression levels Level.lowest.rank)
  | expressionAt min => do return .expr (← s.expression levels min)
  | statement => do return .statement (← s.statement levels)
  | expressionStatement => do return .statement (← s.expressionStatement levels)
  | command => do return .command (← s.command levels)

end Query

open Reader in
/-- The machine does what the rule of a query does. -/
theorem Query.yields_reading {s : Setting} {d bound : Nat} {r : Reader} (hr : r.Ready s d bound)
    (q : Query) : Yields (q.reading bound) r ((q.rule s (maxNesting - d)).run r.rest) := by
  cases q with
  | peek => exact .look (call_peek hr) (.pure rfl _)
  | isAtEnd => exact .look (call_isAtEnd hr) (.pure rfl _)
  | check kind => exact .look (call_check hr kind) (.pure rfl _)
  | advance => exact .seq hr (yields_take hr) fun _ _ _ => .pure rfl _
  | matchKind kind => exact .seq hr (yields_takeIf hr kind) fun _ _ _ => .pure rfl _
  | consume kind phrase => exact .seq hr (yields_consume hr kind _) fun _ _ _ => .pure rfl _
  | expectEnd => exact .seq hr (yields_expectEnd hr) fun _ _ _ => .pure rfl _
  | closeParen => exact .seq hr (yields_closeParen hr) fun _ _ _ => .pure rfl _
  | arguments parenthesized =>
    have harguments := yields_arguments yields_expressionAt hr parenthesized
    exact .seq hr harguments fun _ _ _ => .pure rfl _
  | expression => exact .seq hr (yields_expression hr) fun _ _ _ => .pure rfl _
  | expressionAt min => exact .seq hr (yields_expressionAt min r hr) fun _ _ _ => .pure rfl _
  | statement => exact .seq hr (yields_statement hr) fun _ _ _ => .pure rfl _
  | expressionStatement => exact .seq hr (yields_expressionStatement hr) fun _ _ _ => .pure rfl _
  | command => exact .seq hr (yields_command hr) fun _ _ _ => .pure rfl _

/-! ## Progress -/

theorem Rule.exists_of_run_bind_pure {α β : Type} {x : Rule α} {f : α → β} {b : β}
    {ts rest : List Token} (h : (x >>= fun a => pure (f a)).run ts = .ok b rest) :
    ∃ a, x.run ts = .ok a rest ∧ f a = b := by
  rw [Rule.run_bind] at h
  cases hx : x.run ts with
  | fail fault behind =>
    rw [hx] at h
    cases h
  | ok a behind =>
    rw [hx] at h
    cases h
    exact ⟨a, rfl, rfl⟩

theorem Closes.length_le {mid rest : List Token} (h : Closes mid rest) :
    rest.length ≤ mid.length := by
  cases h with
  | closed kind => exact Nat.le_succ _
  | leftOpen ends => exact Nat.le_refl _

namespace Setting

variable {s : Setting} {nested : Nat → Rule Expr} {ts rest : List Token} {e : Expr}

/-- An operand has its first token at least. -/
theorem ReadsOperand.length_lt (h : s.ReadsOperand nested ts e rest) :
    rest.length < ts.length := by
  cases h with
  | integer kind | float kind | var kind => exact Nat.lt_succ_self _
  | @group t ts mid rest inner kind hinner close =>
    have hmid := (nested Level.lowest.rank).length_rest_le ts
    rw [hinner] at hmid
    exact Nat.lt_succ_of_le (Nat.le_trans close.length_le hmid)
  | @call t ts rest es d kind known harguments accepts =>
    have hrest := (s.arguments (nested Level.lowest.rank) true).length_rest_le ts
    rw [harguments] at hrest
    exact Nat.lt_succ_of_le hrest
  | @unary t ts rest operand d kind known hoperand =>
    have hrest := (nested d.level.rank).length_rest_le ts
    rw [hoperand] at hrest
    exact Nat.lt_succ_of_le hrest

/-- **An expression takes a token at least**, at any level. -/
theorem length_lt_of_expression {levels min : Nat}
    (h : (s.expression levels min).run ts = .ok e rest) : rest.length < ts.length := by
  cases levels with
  | zero =>
    rw [run_expression_zero] at h
    cases h
  | succ levels =>
    rw [run_expression_succ] at h
    cases hoperand : (s.operand (s.expression levels)).run ts with
    | fail fault mid =>
      rw [hoperand] at h
      cases h
    | ok left mid =>
      rw [hoperand] at h
      have hchain := (s.chain (s.expression levels) min left).length_rest_le mid
      have hrest : ((s.chain (s.expression levels) min left).run mid).rest = rest :=
        congrArg Outcome.rest h
      rw [hrest] at hchain
      exact Nat.lt_of_le_of_lt hchain (s.readsOperand_of_run hoperand).length_lt

end Setting

/-- Where an expression is answered, a token is taken. -/
theorem Query.length_lt_of_expr {s : Setting} {levels : Nat} {q : Query} {ts rest : List Token}
    {e : Expr} (h : (q.rule s levels).run ts = .ok (.expr e) rest) : rest.length < ts.length := by
  cases q with
  | expression | expressionAt =>
    obtain ⟨_, hrun, _⟩ := Rule.exists_of_run_bind_pure h
    exact Setting.length_lt_of_expression hrun
  | _ =>
    obtain ⟨_, _, hother⟩ := Rule.exists_of_run_bind_pure h
    cases hother

/-! ## Sessions -/

namespace Session

variable {α : Type} {s : Session}

/-- A session that only looks stays where it is. -/
theorem position_eq (h : s.position ≤ s.tokens.length) :
    s.tokens.length - s.rest.length = s.position := by
  rw [rest, List.length_drop]
  omega

theorem reply_eq_run (s : Session) (rule : Setting → Rule α) (f : α → Reply) :
    s.reply rule f = s.run fun st => do return f (← rule st) := by
  simp only [reply, run, Rule.run_bind]
  cases (rule s.setting).run s.rest <;> rfl

/-- A rule that leaves all tokens leaves the session where it is. -/
theorem run_eq_of_look (h : s.position ≤ s.tokens.length) {rule : Setting → Rule α} {a : α}
    (hrule : (rule s.setting).run s.rest = .ok a s.rest) : s.run rule = (.ok a, s) := by
  rw [run, hrule]
  simp only [Outcome.result, Outcome.rest_ok, position_eq h]

theorem takeKind_eq_run (h : s.position ≤ s.tokens.length) (kind : TokenKind) :
    (.ok (.flag (s.takeKind kind).1), (s.takeKind kind).2) =
      s.run fun st => do return Reply.flag (← st.takeIf kind) := by
  by_cases hk : (s.setting.front s.rest).kind = kind
  · rw [takeKind, if_pos (show s.check kind = true from beq_iff_eq.mpr hk)]
    simp only [run, Setting.takeIf, Setting.take, Rule.run_bind, Setting.run_peek, if_pos hk]
    split <;> rfl
  · rw [takeKind, if_neg (show ¬ s.check kind = true by simpa [check, peek] using hk)]
    refine (run_eq_of_look h ?_).symm
    simp only [Setting.takeIf, Rule.run_bind, Setting.run_peek, if_neg hk, Rule.run_pure]

/-- What a session answers is what the rule of the query does. -/
theorem answer_eq_run (h : s.position ≤ s.tokens.length) (q : Query) :
    s.answer q = s.run fun st => q.rule st s.levels := by
  cases q with
  | peek | isAtEnd | check => exact (run_eq_of_look h rfl).symm
  | matchKind kind => exact takeKind_eq_run h kind
  | advance => exact s.reply_eq_run Setting.take _
  | consume kind phrase => exact s.reply_eq_run (·.expect kind (.named phrase)) _
  | expectEnd => exact s.reply_eq_run Setting.expectEnd fun _ => .nothing
  | closeParen => exact s.reply_eq_run (·.close .closer) fun _ => .nothing
  | arguments parenthesized =>
    exact s.reply_eq_run
      (fun st => st.arguments (st.expression s.levels Level.lowest.rank) parenthesized) _
  | expression => exact s.reply_eq_run (·.expression s.levels Level.lowest.rank) _
  | expressionAt min => exact s.reply_eq_run (·.expression s.levels min) _
  | statement => exact s.reply_eq_run (·.statement s.levels) _
  | expressionStatement => exact s.reply_eq_run (·.expressionStatement s.levels) _
  | command => exact s.reply_eq_run (·.command s.levels) _

end Session

/-! ## Any queries -/

namespace Reader

variable {r here behind : Reader} {bound : Nat}

/-- An end marker stands at the cursor or behind it. -/
def HasEnd (r : Reader) : Prop :=
  ∃ (i : Nat) (t : Token), r.position ≤ i ∧ r.tokens[i]? = some t ∧ t.kind = .eof

/-- The machine is in order behind what it was asked: it has its tokens and its counter as
before, and its cursor stands no further back, and not behind an end marker. -/
structure Keeps (r behind : Reader) : Prop where
  grammar : behind.grammar = r.grammar
  tokens : behind.tokens = r.tokens
  depth : behind.depth = r.depth
  forward : r.position ≤ behind.position
  within : ∀ (i : Nat) (t : Token), r.position ≤ i → r.tokens[i]? = some t → t.kind = .eof →
    behind.position ≤ i

theorem Keeps.refl (r : Reader) : r.Keeps r :=
  ⟨rfl, rfl, rfl, Nat.le_refl _, fun _ _ hi _ _ => hi⟩

theorem Keeps.trans (h : r.Keeps here) (h' : here.Keeps behind) : r.Keeps behind where
  grammar := h'.grammar.trans h.grammar
  tokens := h'.tokens.trans h.tokens
  depth := h'.depth.trans h.depth
  forward := Nat.le_trans h.forward h'.forward
  within i t hi ht heof := h'.within i t (h.within i t hi ht heof) (by rwa [h.tokens]) heof

theorem Keeps.hasEnd (h : r.Keeps behind) (hend : r.HasEnd) : behind.HasEnd := by
  obtain ⟨i, t, hi, ht, heof⟩ := hend
  exact ⟨i, t, h.within i t hi ht heof, by rwa [h.tokens], heof⟩

theorem HasEnd.position_le (h : r.HasEnd) : r.position ≤ r.tokens.length := by
  obtain ⟨i, t, hi, ht, _⟩ := h
  have hlt := (List.getElem?_eq_some_iff.mp ht).1
  omega

theorem getElem?_rest {i : Nat} {t : Token} (hi : r.position ≤ i) (ht : r.tokens[i]? = some t) :
    r.rest[i - r.position]? = some t := by
  rwa [rest, List.getElem?_drop, Nat.add_sub_cancel' hi]

theorem HasEnd.ready (h : r.HasEnd) (closing : Span)
    (hbound : max r.tokens.length maxNesting < bound) :
    r.Ready ⟨r.grammar, closing⟩ r.depth bound := by
  obtain ⟨i, t, hi, ht, heof⟩ := h
  obtain ⟨hlength, hnesting⟩ := Nat.max_lt.mp hbound
  exact ⟨rfl, rfl, hlength, hnesting, t, List.mem_of_getElem? (getElem?_rest hi ht), heof⟩

/-- A cursor that moves over no end marker stays in front of all of them. -/
theorem keeps_moved {used left : List Token} (hrest : r.rest = used ++ left)
    (hused : ∀ t ∈ used, t.kind ≠ .eof) : r.Keeps (r.moved used.length) where
  grammar := rfl
  tokens := rfl
  depth := rfl
  forward := Nat.le_add_right _ _
  within i t hi ht heof := by
    apply Nat.le_of_not_lt
    intro hpast
    have hlt : i - r.position < used.length := by
      simp only [moved] at hpast
      omega
    have hget := getElem?_rest hi ht
    rw [hrest, List.getElem?_append_left hlt] at hget
    exact hused t (List.mem_of_getElem? hget) heof

/-- **One query**: the machine answers it as the session does, and is in order behind it. An
expression is answered only where the cursor has moved. -/
theorem call_query (hend : r.HasEnd) (closing : Span)
    (hbound : max r.tokens.length maxNesting < bound) (q : Query) :
    ∃ answer behind, r.call (q.reading bound) = some (.ok (answer, behind)) ∧ r.Keeps behind ∧
      (r.session closing).answer q = (answer, behind.session closing) ∧
      ∀ e, answer = .ok (.expr e) → r.position < behind.position := by
  obtain ⟨used, hrest, hused, hcall⟩ := Query.yields_reading (hend.ready closing hbound) q
  generalize ho : (q.rule ⟨r.grammar, closing⟩ (maxNesting - r.depth)).run r.rest = o at hrest hcall
  have hlength : r.tokens.length - r.position = used.length + o.rest.length := by
    rw [← List.length_append, ← hrest, rest, List.length_drop]
  refine ⟨o.result, r.moved used.length, hcall, keeps_moved hrest hused, ?_, fun e he => ?_⟩
  · have hposition : r.tokens.length - o.rest.length = r.position + used.length := by
      have := hend.position_le
      omega
    have hrun : (r.session closing).run (fun st => q.rule st (r.session closing).levels) =
        (o.result, { r.session closing with position := r.tokens.length - o.rest.length }) := by
      rw [← ho]
      rfl
    rw [Session.answer_eq_run hend.position_le, hrun, hposition]
    rfl
  · cases o with
    | fail fault left => cases he
    | ok reply left =>
      cases he
      have hlt := Query.length_lt_of_expr ho
      rw [hrest, List.length_append] at hlt
      simp only [moved, Outcome.rest_ok] at hlt ⊢
      omega

/-- One query after the other. By induction on the queries: the end marker that one query has
not passed is there for the next. -/
theorem run_queries (hend : r.HasEnd) (closing : Span)
    (hbound : max r.tokens.length maxNesting < bound) (queries : List Query) :
    ∃ answers behind, r.run bound queries = some (.ok (answers, behind)) ∧ r.Keeps behind ∧
      (r.session closing).answers queries = (answers, behind.session closing) := by
  induction queries generalizing r with
  | nil => exact ⟨[], r, rfl, .refl r, rfl⟩
  | cons q queries ih =>
    obtain ⟨answer, here, hcall, hkeeps, hanswer, _⟩ := call_query hend closing hbound q
    obtain ⟨answers, behind, hrun, hkeeps', hanswers⟩ :=
      ih (hkeeps.hasEnd hend) (by rwa [hkeeps.tokens])
    refine ⟨answer :: answers, behind, ?_, hkeeps.trans hkeeps', ?_⟩
    · simp only [run, hcall, hrun]
    · simp only [Session.answers, hanswer, hanswers]

end Reader

/-- **A machine is left in order**, by every query and behind any others, whether they find a
fault or not. It does not crash, it comes to an end, and it answers what a session answers,
with every bound that is large enough. -/
theorem reader_disciplined (r : Reader) (hend : r.HasEnd) (closing : Span) (bound : Nat)
    (hbound : max r.tokens.length maxNesting < bound) (queries : List Query) (q : Query) :
    ∃ answers here answer behind,
      r.run bound queries = some (.ok (answers, here)) ∧
      here.call (q.reading bound) = some (.ok (answer, behind)) ∧
      r.Keeps here ∧ here.Keeps behind ∧
      (∀ e, answer = .ok (.expr e) → here.position < behind.position) ∧
      (r.session closing).answers queries = (answers, here.session closing) ∧
      (here.session closing).answer q = (answer, behind.session closing) := by
  obtain ⟨answers, here, hrun, hkeeps, hanswers⟩ := Reader.run_queries hend closing hbound queries
  obtain ⟨answer, behind, hcall, hkeeps', hanswer, hmoved⟩ :=
    Reader.call_query (hkeeps.hasEnd hend) closing (by rwa [hkeeps.tokens]) q
  exact ⟨answers, here, answer, behind, hrun, hcall, hkeeps, hkeeps', hmoved, hanswers, hanswer⟩

/-- A machine at the first token of `1 + 2`, with more tokens behind the end, and one level
left to open. -/
def nearlyFull : Reader where
  grammar := .calculator
  tokens := [.bare .integer "1", .bare .operator "+", .bare .integer "2", .closing .origin,
    .bare .integer "3", .closing .origin]
  position := 0
  depth := maxNesting - 1
  word := UInt32.size
  roomy := by decide

/-- The operand behind the operator is too deep. Behind the fault the counter stands as
before, so the operand can be read by itself, and the end behind it is not passed. -/
theorem reader_disciplined_nearlyFull :
    nearlyFull.HasEnd ∧ max nearlyFull.tokens.length maxNesting < 1000 ∧
    ∃ here behind,
      nearlyFull.run 1000 [.expression] =
        some (.ok ([.error (.tooDeep (.bare .integer "2"))], here)) ∧
      here.call (Query.expression.reading 1000) =
        some (.ok (.ok (.expr (.literal .integer "2")), behind)) ∧
      nearlyFull.Keeps here ∧ here.Keeps behind ∧ here.position = 2 ∧ behind.position = 3 := by
  have hend : nearlyFull.HasEnd := ⟨3, .closing .origin, by decide, rfl, rfl⟩
  have hbound : max nearlyFull.tokens.length maxNesting < 1000 := by decide
  obtain ⟨answers, here, answer, behind, hrun, hcall, hkeeps, hkeeps', _, hanswers, hanswer⟩ :=
    reader_disciplined nearlyFull hend .origin 1000 hbound [.expression] .expression
  have hfault : ((nearlyFull.session .origin).answers [.expression]).1 =
      [.error (.tooDeep (.bare .integer "2"))] := by decide +kernel
  have hhere : ((nearlyFull.session .origin).answers [.expression]).2.position = 2 := by
    decide +kernel
  have hexpr : (((nearlyFull.session .origin).answers [.expression]).2.answer .expression).1 =
      .ok (.expr (.literal .integer "2")) := by decide +kernel
  have hbehind : (((nearlyFull.session .origin).answers [.expression]).2.answer
      .expression).2.position = 3 := by decide +kernel
  rw [hanswers] at hfault hhere hexpr hbehind
  rw [hanswer] at hexpr hbehind
  dsimp only at hfault hexpr
  subst hfault hexpr
  exact ⟨hend, hbound, here, behind, hrun, hcall, hkeeps, hkeeps', hhere, hbehind⟩

end CalcSyntax
