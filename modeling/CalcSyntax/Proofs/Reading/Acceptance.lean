import CalcSyntax.Proofs.Reading.Answers

/-!
# Acceptance — reading accepts the language, up to the limit of nesting

The rules go by levels, and the language knows none. An expression read at
a level stops in front of an operator that binds less tightly, and leaves
it to a rule that waits outside. At the lowest level there is no such
operator, so what was left is taken in the end.

## What is proved

- `Setting.derives_of_expression` — what is read is an expression,
  whatever the level.
- `Setting.reaches_expression` — an expression is read up to some place in
  its trail, and at the lowest level up to its end, unless the levels run
  out. Every level that is opened takes a token, so they run out only over
  more tokens than there are levels.
- `readStatement_isStatement` — the same for statements.
-/

set_option autoImplicit false

namespace CalcSyntax

namespace Setting

variable (s : Setting) {nested : Nat → Rule Expr} {ts rest : List Token}

/-! ## What is read belongs to the language -/

/-- The rule answers nothing but expressions. -/
def ReadsExprs (g : Grammar) (item : Rule Expr) : Prop :=
  ∀ ts e rest, item.run ts = .ok e rest → Derives g .expr ts rest

theorem isOperator_of_suffix {min : Nat} {t : Token} (h : s.continuation min t = .suffix) :
    s.grammar.IsOperator .postfixOp t := by
  obtain ⟨d, hk, hd, _⟩ := s.exists_of_suffix h
  exact ⟨hk, by rw [hd]; rfl⟩

theorem joins_of_operand {min least : Nat} {t : Token} (h : s.continuation min t = .operand least) :
    s.grammar.Joins t := by
  obtain ⟨d, hk, hp, hd, _⟩ := s.exists_of_operand h
  refine ⟨⟨hk, by rw [hd]; rfl⟩, fun hpost => ?_⟩
  have := hpost.2
  rw [hp] at this
  cases this

/-- Going on behind an operand takes a trail. -/
theorem trail_of_chainFrom (hn : ∀ least, ReadsExprs s.grammar (nested least)) {min : Nat}
    {left e : Expr} (h : s.chainFrom nested min left ts = .ok e rest) :
    Trail s.grammar ts rest := by
  fun_induction chainFrom s nested min left ts with
  | case1 => cases h; exact .nil
  | case2 => cases h; exact .nil
  | case3 left t ts hc ih => exact .postfixed (s.isOperator_of_suffix hc) (ih h)
  | case4 => cases h
  | case5 left t ts least hc right behind hright ih =>
    exact trail_infixed (s.joins_of_operand hc) (hn least _ _ _ hright) (ih h)

theorem list_of_listFrom {g : Grammar} {item : Rule Expr} (hi : ReadsExprs g item)
    {es : List Expr} (h : listFrom item ts = .ok es rest) :
    Derives g (.list es.length) ts rest := by
  fun_induction listFrom item ts generalizing es with
  | case1 => cases h
  | case2 ts e he => cases h; exact .last (hi _ _ _ he)
  | case3 ts e t mid he ht ih =>
    cases hm : listFrom item mid with
    | fail fault behind => rw [hm] at h; cases h
    | ok es' behind =>
      rw [hm] at h
      cases h
      exact .comma (hi _ _ _ he) ht (ih hm)
  | case4 ts e t mid he => cases h; exact .last (hi _ _ _ he)

theorem arguments_of_run {item : Rule Expr} (hi : ReadsExprs s.grammar item)
    {parenthesized : Bool} {es : List Expr}
    (h : (s.arguments item parenthesized).run ts = .ok es rest) :
    ∃ mid, Derives s.grammar (.arguments es.length) ts mid ∧
      if parenthesized then Closes mid rest else rest = mid := by
  obtain ⟨mid, ⟨rfl, rfl⟩ | hl, hclosed⟩ := s.exists_of_run_arguments h
  · exact ⟨mid, .noArgument, hclosed⟩
  · exact ⟨mid, .arguments (list_of_listFrom hi hl), hclosed⟩

/-- An operand is an expression, and behind a prefix operator a whole one. -/
theorem expr_of_readsOperand (hn : ∀ least, ReadsExprs s.grammar (nested least)) {e : Expr}
    (h : s.ReadsOperand nested ts e rest) : Derives s.grammar .expr ts rest := by
  cases h with
  | integer kind => exact derives_expr_atom (.integer kind)
  | float kind => exact derives_expr_atom (.float kind)
  | var kind => exact derives_expr_atom (.var kind)
  | group kind hi close => exact derives_expr_atom (.group kind (hn _ _ _ _ hi) close)
  | call kind known ha accepts =>
    obtain ⟨mid, arguments, close⟩ := s.arguments_of_run (hn _) ha
    exact derives_expr_atom (.call kind known arguments close accepts)
  | unary kind known hi =>
    exact derives_expr_prefixed ⟨kind, by rw [known]; rfl⟩ (hn _ _ _ _ hi)

/-- **What is read is an expression**, at any level and with any number of levels
left. -/
theorem derives_of_expression (levels min : Nat) :
    ReadsExprs s.grammar (s.expression levels min) := by
  induction levels generalizing min with
  | zero =>
    intro ts e rest h
    rw [run_expression_zero] at h
    cases h
  | succ levels ih =>
    intro ts e rest h
    rw [run_expression_succ] at h
    cases ho : (s.operand (s.expression levels)).run ts with
    | fail fault behind => rw [ho] at h; cases h
    | ok left behind =>
      rw [ho] at h
      have left := s.expr_of_readsOperand ih (s.readsOperand_of_run ho)
      exact derives_expr_append left (s.trail_of_chainFrom ih h)

/-! ## What belongs to the language is read -/

/-- The levels run out, and there are more tokens than levels. -/
def Exceeds {α : Type} (levels : Nat) (ts : List Token) (o : Outcome α) : Prop :=
  levels < ts.length ∧ ∃ t behind, o = .fail (.tooDeep t) behind

/-- No operator comes next that goes on with an expression. -/
def Settled (g : Grammar) (rest : List Token) : Prop :=
  ∀ t ∈ rest.head?, ¬ g.IsOperator .postfixOp t ∧ ¬ g.Joins t

theorem settled_of_kind {g : Grammar} (h : ∀ t ∈ rest.head?, t.kind ≠ .operator) :
    Settled g rest :=
  fun t ht => ⟨fun hp => h t ht hp.1, fun hj => h t ht hj.1.1⟩

theorem head_kind_of_closes {mid : List Token} (h : Closes mid rest) :
    ∀ t ∈ mid.head?, t.kind = .rightParen ∨ t.kind = .eof := by
  intro t ht
  cases h with
  | closed kind => exact .inl ((Option.some.inj ht) ▸ kind)
  | leftOpen ends => exact .inr (ends t ht)

/-- Where the lowest level stops, nothing goes on with the expression. -/
theorem settled_of_stop {mid : List Token}
    (h : s.continuation Level.lowest.rank (s.front mid) = .stop) : Settled s.grammar mid := by
  have hrank (l : Level) : ¬ l.rank < Level.lowest.rank := by cases l <;> decide
  intro t ht
  obtain ⟨behind, rfl⟩ := List.head?_eq_some_iff.mp ht
  rw [front_cons] at h
  constructor
  · intro ⟨hk, hp⟩
    obtain ⟨d, hd⟩ := Option.isSome_iff_exists.mp hp
    rw [s.continuation_postfixOp hk hd, if_neg (hrank _)] at h
    cases h
  · intro ⟨⟨hk, hi⟩, hp⟩
    obtain ⟨d, hd⟩ := Option.isSome_iff_exists.mp hi
    have hnone : s.grammar.operators.operator? t.lexeme .postfixOp = none := by
      refine Option.not_isSome_iff_eq_none.mp ?_
      intro h'
      exact hp ⟨hk, h'⟩
    rw [s.continuation_infixOp hk hnone hd, if_neg (hrank _)] at h
    cases h

theorem eq_of_trail_of_settled {g : Grammar} {mid : List Token} (h : Trail g mid rest)
    (hs : Settled g mid) : mid = rest := by
  cases h with
  | nil => rfl
  | postfixed op _ => exact absurd op (hs _ rfl).1
  | infixed op _ _ => exact absurd op (hs _ rfl).2

/-- The rules read every expression, up to a place in its trail where their level
stops. -/
def Reaches (levels : Nat) (nested : Nat → Rule Expr) : Prop :=
  ∀ min ts rest, Derives s.grammar .expr ts rest → Settled s.grammar rest →
    Exceeds levels ts ((nested min).run ts) ∨
      ∃ e mid, (nested min).run ts = .ok e mid ∧ Trail s.grammar mid rest ∧
        s.continuation min (s.front mid) = .stop

/-- The rule reads every expression to its end. -/
def ReadsAll (g : Grammar) (levels : Nat) (item : Rule Expr) : Prop :=
  ∀ ts rest, Derives g .expr ts rest → Settled g rest →
    Exceeds levels ts (item.run ts) ∨ ∃ e, item.run ts = .ok e rest

/-- At the lowest level nothing is left for others. -/
theorem readsAll_of_reaches {levels : Nat} (hn : s.Reaches levels nested) :
    ReadsAll s.grammar levels (nested Level.lowest.rank) := by
  intro ts rest h hs
  rcases hn Level.lowest.rank ts rest h hs with hdeep | ⟨e, mid, he, trail, hstop⟩
  · exact .inl hdeep
  · obtain rfl := eq_of_trail_of_settled trail (s.settled_of_stop hstop)
    exact .inr ⟨e, he⟩

theorem run_of_closes (wanted : Wanted) (h : Closes ts rest) :
    (s.close wanted).run ts = .ok () rest := by
  cases h with
  | closed kind => exact s.run_close wanted kind
  | leftOpen ends => exact s.run_close_end wanted (s.ends_iff_front.mp ends)

theorem begins_of_atom {g : Grammar} (h : Derives g .atom ts rest) :
    ∃ t ts', ts = t :: ts' ∧ beginsOperand t.kind = true := by
  cases h with
  | integer kind | float kind | var kind | group kind _ _ | call kind _ _ _ _ =>
    exact ⟨_, _, rfl, by rw [kind]; rfl⟩

theorem begins_of_head {g : Grammar} (h : Head g ts rest) :
    ∃ t ts', ts = t :: ts' ∧ beginsOperand t.kind = true := by
  cases h with
  | atom atom => exact begins_of_atom atom
  | prefixed op _ => exact ⟨_, _, rfl, by rw [op.1]; rfl⟩

theorem begins_of_expr {g : Grammar} (h : Derives g .expr ts rest) :
    ∃ t ts', ts = t :: ts' ∧ beginsOperand t.kind = true := by
  obtain ⟨mid, head, _⟩ := derives_expr_iff.mp h
  exact begins_of_head head

theorem begins_of_list {g : Grammar} {count : Nat} (h : Derives g (.list count) ts rest) :
    ∃ t ts', ts = t :: ts' ∧ beginsOperand t.kind = true := by
  cases h with
  | last e | comma e _ _ => exact begins_of_expr e

/-- A list is read to its end, unless the levels run out. -/
theorem reads_list {g : Grammar} {levels count : Nat} {item : Rule Expr}
    (hi : ReadsAll g levels item) (h : Derives g (.list count) ts rest)
    (hend : ∀ t ∈ rest.head?, t.kind ≠ .operator ∧ t.kind ≠ .comma) :
    Exceeds levels ts (listFrom item ts) ∨
      ∃ es, es.length = count ∧ listFrom item ts = .ok es rest := by
  generalize hp : Phrase.list count = p at h
  induction h generalizing count with
  | last e =>
    cases hp
    rcases hi _ _ e (settled_of_kind fun t ht => (hend t ht).1) with ⟨hlen, t, behind, hf⟩ | ⟨e, he⟩
    · exact .inl ⟨hlen, t, behind, listFrom_fail hf⟩
    · exact .inr ⟨[e], rfl, listFrom_last he fun t ht => (hend t ht).2⟩
  | @comma t ts mid rest _ e kind _ _ ih =>
    cases hp
    have hs : Settled g (t :: mid) := by
      refine settled_of_kind ?_
      intro u hu
      rw [← Option.some.inj hu, kind]
      decide
    rcases hi _ _ e hs with ⟨hlen, t, behind, hf⟩ | ⟨e, he⟩
    · exact .inl ⟨hlen, t, behind, listFrom_fail hf⟩
    · have hle := item.length_rest_le ts
      rw [he, Outcome.rest_ok, List.length_cons] at hle
      rcases ih hend rfl with ⟨hlen, t, behind, hf⟩ | ⟨es, hcount, hes⟩
      · refine .inl ⟨by omega, t, behind, ?_⟩
        rw [listFrom_comma he kind, hf]
        rfl
      · refine .inr ⟨e :: es, by rw [List.length_cons, hcount], ?_⟩
        rw [listFrom_comma he kind, hes]
        rfl
  | _ => cases hp

theorem run_closed_of {parenthesized : Bool} (es : List Expr)
    (h : if parenthesized then Closes ts rest else rest = ts) :
    (s.closed parenthesized es).run ts = .ok es rest := by
  cases parenthesized with
  | false => exact run_closed_false s es |>.trans (congrArg _ (Eq.symm h))
  | true =>
    rw [run_closed_true, s.run_of_closes .commaOrCloser h]
    rfl

/-- Arguments are read to the place where they are closed. -/
theorem reads_arguments {levels count : Nat} {item : Rule Expr} {mid : List Token}
    (hi : ReadsAll s.grammar levels item) (parenthesized : Bool)
    (h : Derives s.grammar (.arguments count) ts mid)
    (hclosed : if parenthesized then Closes mid rest else rest = mid)
    (hend : parenthesized = false → Ends mid) :
    Exceeds levels ts ((s.arguments item parenthesized).run ts) ∨
      ∃ es, es.length = count ∧ (s.arguments item parenthesized).run ts = .ok es rest := by
  have hmid : ∀ t ∈ mid.head?, (parenthesized = true ∧ t.kind = .rightParen) ∨ t.kind = .eof := by
    intro t ht
    cases parenthesized with
    | false => exact .inr (hend rfl t ht)
    | true => exact (head_kind_of_closes hclosed t ht).imp_left fun hk => ⟨rfl, hk⟩
  cases h with
  | noArgument =>
    have hnone : (s.front ts).kind = .eof ∨ (parenthesized ∧ (s.front ts).kind = .rightParen) := by
      cases ts with
      | nil => exact .inl rfl
      | cons t ts => exact (hmid t rfl).symm
    refine .inr ⟨[], rfl, ?_⟩
    rw [s.run_arguments_none hnone, s.run_closed_of [] hclosed]
  | arguments list =>
    have hsome : ¬ ((s.front ts).kind = .eof ∨
        (parenthesized ∧ (s.front ts).kind = .rightParen)) := by
      obtain ⟨t, ts, rfl, ht⟩ := begins_of_list list
      rw [front_cons]
      intro h
      rcases h with hk | ⟨_, hk⟩
      · exact kind_ne_of_beginsOperand ht rfl hk
      · exact kind_ne_of_beginsOperand ht rfl hk
    rw [s.run_arguments_some hsome]
    have hstop : ∀ t ∈ mid.head?, t.kind ≠ .operator ∧ t.kind ≠ .comma := by
      intro t ht
      rcases hmid t ht with ⟨_, hk⟩ | hk <;> rw [hk] <;> decide
    rcases reads_list hi list hstop with ⟨hlen, t, behind, hf⟩ | ⟨es, hcount, hes⟩
    · exact .inl ⟨hlen, t, behind, by rw [hf]⟩
    · refine .inr ⟨es, hcount, ?_⟩
      rw [hes]
      exact s.run_closed_of es hclosed

/-- An atom is read to its end. Its token is outside the level that is opened. -/
theorem reads_atom {levels : Nat} (hn : s.Reaches levels nested)
    (h : Derives s.grammar .atom ts rest) :
    Exceeds (levels + 1) ts ((s.operand nested).run ts) ∨
      ∃ e, (s.operand nested).run ts = .ok e rest := by
  have hall := s.readsAll_of_reaches hn
  cases h with
  | integer kind => exact .inr ⟨_, s.run_operand_integer kind⟩
  | float kind => exact .inr ⟨_, s.run_operand_float kind⟩
  | var kind => exact .inr ⟨_, s.run_operand_var kind⟩
  | @group _ _ mid _ kind inner close =>
    obtain ⟨t, ts, rfl, ht⟩ := begins_of_expr inner
    have hgroup : (s.front (t :: ts)).kind ≠ .rightParen := kind_ne_of_beginsOperand ht rfl
    have hs : Settled s.grammar mid := by
      refine settled_of_kind ?_
      intro u hu
      rcases head_kind_of_closes close u hu with hk | hk <;> rw [hk] <;> decide
    rw [s.run_operand_leftParen kind, s.run_group hgroup]
    rcases hall _ _ inner hs with ⟨hlen, u, behind, hf⟩ | ⟨e, he⟩
    · exact .inl ⟨Nat.succ_lt_succ hlen, u, behind, by rw [hf]⟩
    · refine .inr ⟨.group e, ?_⟩
      rw [he]
      simp only [s.run_of_closes .closer close]
      rfl
  | @call t _ _ _ _ _ kind known arguments close accepts =>
    rw [s.run_operand_function kind, s.run_call known]
    rcases s.reads_arguments hall true arguments close nofun with
      ⟨hlen, u, behind, hf⟩ | ⟨es, hcount, hes⟩
    · exact .inl ⟨Nat.succ_lt_succ hlen, u, behind, by rw [hf]⟩
    · refine .inr ⟨.call t.lexeme es, ?_⟩
      rw [hes]
      exact if_pos (hcount ▸ accepts)

/-- Behind prefix operators an atom is read, and some of the trail. -/
theorem reads_operand {levels : Nat} {mid : List Token} (hn : s.Reaches levels nested)
    (head : Head s.grammar ts mid) (trail : Trail s.grammar mid rest)
    (hs : Settled s.grammar rest) :
    Exceeds (levels + 1) ts ((s.operand nested).run ts) ∨
      ∃ e mid', (s.operand nested).run ts = .ok e mid' ∧ Trail s.grammar mid' rest := by
  cases head with
  | atom atom =>
    rcases s.reads_atom hn atom with hdeep | ⟨e, he⟩
    · exact .inl hdeep
    · exact .inr ⟨e, mid, he, trail⟩
  | prefixed op inner =>
    obtain ⟨d, hd⟩ := Option.isSome_iff_exists.mp op.2
    rw [s.run_operand_prefixOp op.1 hd]
    rcases hn d.level.rank _ _ (derives_expr_iff.mpr ⟨mid, inner, trail⟩) hs with
      ⟨hlen, u, behind, hf⟩ | ⟨e, mid', he, trail', _⟩
    · exact .inl ⟨Nat.succ_lt_succ hlen, u, behind, by rw [hf]; rfl⟩
    · exact .inr ⟨_, mid', by rw [he]; rfl, trail'⟩

/-- The chain behind an operand goes on along the trail until the level stops. -/
theorem reads_chain {levels : Nat} (hn : s.Reaches levels nested)
    (trail : Trail s.grammar ts rest) (hs : Settled s.grammar rest) (min : Nat) (left : Expr) :
    Exceeds (levels + 1) ts (s.chainFrom nested min left ts) ∨
      ∃ e mid, s.chainFrom nested min left ts = .ok e mid ∧ Trail s.grammar mid rest ∧
        s.continuation min (s.front mid) = .stop := by
  fun_induction chainFrom s nested min left ts with
  | case1 => exact .inr ⟨_, _, rfl, trail, s.continuation_end min⟩
  | case2 left t ts hc => exact .inr ⟨_, _, rfl, trail, hc⟩
  | case3 left t ts hc ih =>
    have hop := s.isOperator_of_suffix hc
    cases trail with
    | nil => exact absurd hop (hs _ rfl).1
    | infixed op _ _ => exact absurd hop op.2
    | postfixed _ more =>
      rcases ih more with ⟨hlen, hf⟩ | h
      · exact .inl ⟨Nat.lt_succ_of_lt hlen, hf⟩
      · exact .inr h
  | case4 left t ts least hc fault behind hright =>
    have hop := s.joins_of_operand hc
    cases trail with
    | nil => exact absurd hop (hs _ rfl).2
    | postfixed op _ => exact absurd op hop.2
    | infixed _ right more =>
      rcases hn least _ _ (derives_expr_iff.mpr ⟨_, right, more⟩) hs with
        ⟨hlen, u, behind, hf⟩ | ⟨e, mid, he, _⟩
      · rw [hright] at hf
        cases hf
        exact .inl ⟨Nat.succ_lt_succ hlen, u, _, rfl⟩
      · rw [hright] at he
        cases he
  | case5 left t ts least hc right behind hright ih =>
    have hop := s.joins_of_operand hc
    cases trail with
    | nil => exact absurd hop (hs _ rfl).2
    | postfixed op _ => exact absurd op hop.2
    | infixed _ head more =>
      have hle := (nested least).length_rest_le ts
      rw [hright, Outcome.rest_ok] at hle
      rcases hn least _ _ (derives_expr_iff.mpr ⟨_, head, more⟩) hs with
        ⟨_, u, behind, hf⟩ | ⟨e, mid, he, trail', _⟩
      · rw [hright] at hf
        cases hf
      · rw [hright] at he
        cases he
        rcases ih trail' with ⟨hlen, hf⟩ | h
        · exact .inl ⟨by rw [List.length_cons]; omega, hf⟩
        · exact .inr h

/-- **Every expression is read**, unless the levels run out. -/
theorem reaches_expression (levels : Nat) : s.Reaches levels (s.expression levels) := by
  induction levels with
  | zero =>
    intro min ts rest h _
    obtain ⟨t, ts, rfl, _⟩ := begins_of_expr h
    exact .inl ⟨Nat.succ_pos _, t, _, s.run_expression_zero⟩
  | succ levels ih =>
    intro min ts rest h hs
    obtain ⟨mid, head, trail⟩ := derives_expr_iff.mp h
    rw [run_expression_succ]
    rcases s.reads_operand ih head trail hs with ⟨hlen, u, behind, hf⟩ | ⟨left, mid', hleft, trail'⟩
    · exact .inl ⟨hlen, u, behind, by rw [hf]⟩
    · have hle := (s.operand (s.expression levels)).length_rest_le ts
      rw [hleft] at hle ⊢
      rcases s.reads_chain ih trail' hs min left with ⟨hlen, hf⟩ | h
      · exact .inl ⟨Nat.lt_of_lt_of_le hlen hle, hf⟩
      · exact .inr h

/-! ## Statements -/

theorem commandBody_of_readsCommand {levels : Nat} {keyword : Token} {d : CommandEntry}
    {c : Command} (h : s.ReadsCommand levels keyword d ts c) : IsCommandBody s.grammar d ts := by
  cases h with
  | label takes kind ends => exact .label takes kind ends
  | arguments takes ha ends accepts =>
    have hn := s.derives_of_expression levels Level.lowest.rank
    obtain ⟨mid, arguments, hclosed⟩ := s.arguments_of_run hn ha
    exact isCommandBody_of_arguments takes arguments hclosed ends accepts

/-- A statement that is read is one. -/
theorem isStatement_of_readsStatement {levels : Nat} {k : StatementKind}
    (h : s.ReadsStatement levels ts k) : IsStatement s.grammar ts := by
  cases h with
  | empty ends => exact .empty ends
  | command kind known hc => exact .command kind known (s.commandBody_of_readsCommand hc)
  | expression noCommand he ends =>
    refine .expression ?_ (s.derives_of_expression levels _ _ _ _ he) ends
    intro t ht
    obtain ⟨ts', rfl⟩ := List.head?_eq_some_iff.mp ht
    exact noCommand

/-- Arguments that a command accepts are read, unless the levels run out. -/
theorem reads_commandArguments (levels : Nat) (keyword : Token) {d : CommandEntry}
    {mid : List Token} {count : Nat} (takes : d.args ≠ .label)
    (arguments : Derives s.grammar (.arguments count) ts mid)
    (hclosed : if d.opensParen then Closes mid rest else rest = mid)
    (hend : d.opensParen = false → Ends mid) (ends : Ends rest)
    (accepts : d.args.accepts count = true) :
    Exceeds levels ts ((s.operands levels keyword d).run ts) ∨
      ∃ c rest, (s.operands levels keyword d).run ts = .ok c rest := by
  have hall := s.readsAll_of_reaches (s.reaches_expression levels)
  rw [s.run_operands_arguments levels (beq_false_of_ne takes)]
  rcases s.reads_arguments hall _ arguments hclosed hend with
    ⟨hlen, u, behind, hf⟩ | ⟨es, hcount, hes⟩
  · exact .inl ⟨hlen, u, behind, by rw [hf]⟩
  · refine .inr ⟨.withArguments keyword.lexeme es, rest, ?_⟩
    rw [hes]
    simp only [s.run_expectEnd (s.ends_iff_front.mp ends), hcount, accepts, ↓reduceIte]

theorem reads_commandBody (levels : Nat) (keyword : Token) {d : CommandEntry}
    (h : IsCommandBody s.grammar d ts) :
    Exceeds levels ts ((s.operands levels keyword d).run ts) ∨
      ∃ c rest, (s.operands levels keyword d).run ts = .ok c rest := by
  cases h with
  | @label t rest takes kind ends =>
    refine .inr ⟨.withLabel keyword.lexeme t.lexeme, rest, ?_⟩
    rw [s.run_operands_label levels (beq_of_eq takes), s.run_expect .labelName (by decide) kind]
    simp only [s.run_expectEnd (s.ends_iff_front.mp ends)]
    rfl
  | parenthesized takes opens arguments close ends accepts =>
    have hp : d.opensParen = true := opens
    refine s.reads_commandArguments levels keyword takes arguments ?_ ?_ ends accepts
    · rw [hp]
      exact close
    · intro h
      rw [hp] at h
      cases h
  | plain takes opens arguments ends accepts =>
    have hp : d.opensParen = false := Bool.eq_false_iff.mpr opens
    refine s.reads_commandArguments levels keyword takes arguments ?_ (fun _ => ends) ends accepts
    rw [hp]
    rfl

/-- A statement is read, unless the levels run out. -/
theorem reads_statement (levels : Nat) (h : IsStatement s.grammar ts) :
    Exceeds levels ts ((s.statement levels).run ts) ∨
      ∃ k rest, (s.statement levels).run ts = .ok k rest := by
  cases h with
  | empty ends => exact .inr ⟨.empty, ts, s.run_statement_end levels (s.ends_iff_front.mp ends)⟩
  | @command t ts d kind known body =>
    rw [s.run_statement_command levels kind, s.run_command levels kind known]
    rcases s.reads_commandBody levels t body with ⟨hlen, u, behind, hf⟩ | ⟨c, rest, hc⟩
    · exact .inl ⟨Nat.lt_succ_of_lt hlen, u, behind, by rw [hf]; rfl⟩
    · exact .inr ⟨.command c, rest, by rw [hc]; rfl⟩
  | @expression _ rest noCommand e ends =>
    have hall := s.readsAll_of_reaches (s.reaches_expression levels)
    have hs : Settled s.grammar rest := by
      refine settled_of_kind ?_
      intro t ht
      rw [ends t ht]
      decide
    obtain ⟨t, ts', rfl, ht⟩ := begins_of_expr e
    have he : (s.front (t :: ts')).kind ≠ .eof := kind_ne_of_beginsOperand ht rfl
    rw [s.run_statement_expression levels he (noCommand t rfl)]
    rcases hall _ _ e hs with ⟨hlen, u, behind, hf⟩ | ⟨e, he⟩
    · exact .inl ⟨hlen, u, behind, by rw [hf]⟩
    · refine .inr ⟨.expression e, rest, ?_⟩
      rw [he]
      simp only [s.run_expectEnd (s.ends_iff_front.mp ends)]
      rfl

end Setting

/-- **Reading accepts the language**, up to the limit of nesting. What is read is a
statement. A statement is read, or it has more tokens than there are levels
and is nested too deeply. -/
theorem readStatement_isStatement (g : Grammar) (tokens : List Token) (closing : Span) :
    (∀ k, readStatement g tokens closing = .ok k → IsStatement g tokens) ∧
      (IsStatement g tokens →
        (∃ k, readStatement g tokens closing = .ok k) ∨
          128 < tokens.length ∧ ∃ fault, readStatement g tokens closing = .error fault ∧
            fault.report.message = "expression nested too deeply") := by
  constructor
  · intro k h
    exact Setting.isStatement_of_readsStatement _ (readsStatement_of_readStatement h)
  · intro h
    unfold readStatement
    rcases Setting.reads_statement ⟨g, closing⟩ maxNesting h with
      ⟨hlen, t, rest, hf⟩ | ⟨k, rest, hk⟩
    · exact .inr ⟨hlen, .tooDeep t, by rw [hf]; rfl, rfl⟩
    · exact .inl ⟨k, by rw [hk]; rfl⟩

/-- A group that is left open at the end is a statement, and is read. -/
theorem readStatement_isStatement_leftOpen :
    IsStatement .calculator [⟨.leftParen, "(", .origin⟩, ⟨.integer, "2", .origin⟩] ∧
      ∃ k, readStatement .calculator [⟨.leftParen, "(", .origin⟩, ⟨.integer, "2", .origin⟩]
        .origin = .ok k := by
  have hend : Ends [] := nofun
  have inner : Derives .calculator .expr [⟨.integer, "2", .origin⟩] [] :=
    .expr (.operand (.integer rfl) .noPostfix) .noInfix
  have h : IsStatement .calculator [⟨.leftParen, "(", .origin⟩, ⟨.integer, "2", .origin⟩] :=
    .expression (fun t ht => by rw [← Option.some.inj ht]; decide)
      (.expr (.operand (.group rfl inner (.leftOpen hend)) .noPostfix) .noInfix) hend
  refine ⟨h, ?_⟩
  rcases (readStatement_isStatement .calculator _ .origin).2 h with hk | ⟨hlen, _⟩
  · exact hk
  · exact absurd hlen (by decide)

end CalcSyntax
