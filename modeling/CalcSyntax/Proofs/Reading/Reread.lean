import CalcSyntax.Proofs.Reading.Image
import CalcSyntax.Proofs.Span.Relocation

/-!
# Reread — the tokens of a tree are read as that tree

`Expr.tokens` writes a tree down token by token and adds nothing: no
parenthesis, no level. A tree that fits is read back from them, whatever
the grammar. The levels either suffice for all of it, or run out in the
middle (`Limited`).

## What is proved

- `Setting.climbs` — up to the loop. Reading the tokens of a tree leads to
  a loop that holds this tree, in front of whatever follows. The induction
  is on the tree, along its left edge.
- `Setting.rereads` — the loop then stops, if what follows lets it.
- `readStatement_tokens` — statements.
-/

set_option autoImplicit false

namespace CalcSyntax

/-- The kind of token that makes a number. -/
def LiteralKind.token : LiteralKind → TokenKind
  | integer => .integer
  | float => .float

namespace Expr

mutual

/-- The tokens of an expression. -/
def tokens : Expr → List Token
  | literal kind lexeme => [.bare kind.token lexeme]
  | var name => [.bare .var name]
  | binary left operator right => left.tokens ++ .bare .operator operator :: right.tokens
  | unary operator operand => .bare .operator operator :: operand.tokens
  | suffixed operand operator => operand.tokens ++ [.bare .operator operator]
  | call function arguments =>
    .bare .function function :: (listTokens arguments ++ [.bare .rightParen ")"])
  | group inner => .bare .leftParen "(" :: (inner.tokens ++ [.bare .rightParen ")"])

/-- The tokens of expressions with commas between them. -/
def listTokens : List Expr → List Token
  | [] => []
  | e :: es => e.tokens ++ moreTokens es

/-- The same behind an expression. -/
def moreTokens : List Expr → List Token
  | [] => []
  | e :: es => .bare .comma "," :: (e.tokens ++ moreTokens es)

end

theorem begins_tokens (e : Expr) (ts : List Token) :
    ∃ t rest, e.tokens ++ ts = t :: rest ∧ Setting.beginsOperand t.kind = true := by
  induction e using Expr.induction generalizing ts with
  | literal kind lexeme => exact ⟨_, ts, rfl, by cases kind <;> rfl⟩
  | var name => exact ⟨_, ts, rfl, rfl⟩
  | binary left operator right ihl _ =>
    rw [tokens, List.append_assoc]
    exact ihl _
  | unary operator operand => exact ⟨_, _, rfl, rfl⟩
  | suffixed operand operator ih =>
    rw [tokens, List.append_assoc]
    exact ih _
  | call function arguments => exact ⟨_, _, rfl, rfl⟩
  | group inner => exact ⟨_, _, rfl, rfl⟩

theorem tokens_ne_nil (e : Expr) : e.tokens ≠ [] := by
  obtain ⟨t, rest, h, _⟩ := e.begins_tokens []
  rw [List.append_nil] at h
  rw [h]
  exact List.cons_ne_nil t rest

/-- No operator lies below the lowest level. -/
theorem lowest_le_ranks (ops : Table OperatorEntry) (e : Expr) :
    ∀ r ∈ e.ranks ops, Level.lowest.rank ≤ r := by
  have hrank (symbol : String) (fixity : Fixity) :
      ∀ r ∈ (rank? ops symbol fixity).toList, Level.lowest.rank ≤ r := by
    intro r hr
    obtain ⟨d, _, rfl⟩ := Option.map_eq_some_iff.mp (Option.mem_toList.mp hr)
    cases d.level <;> decide
  induction e using Expr.induction with
  | binary left operator right ihl _ => exact List.forall_mem_append.mpr ⟨hrank _ _, ihl⟩
  | suffixed operand operator ih => exact List.forall_mem_append.mpr ⟨hrank _ _, ih⟩
  | _ => nofun

end Expr

/-- The outcome is this one if so many levels are enough, and otherwise that they
are not. -/
structure Limited {α : Type} (needed levels : Nat) (o value : Outcome α) : Prop where
  enough : needed ≤ levels → o = value
  short : levels < needed → ∃ t behind, o = .fail (.tooDeep t) behind

/-- What is built on an outcome and hands its failures on is limited as the outcome is. -/
theorem Limited.imp {α β : Type} {needed levels : Nat} {o value : Outcome α}
    {o' value' : Outcome β} (h : Limited needed levels o value) (enough : o = value → o' = value')
    (short : ∀ t behind, o = .fail (.tooDeep t) behind → o' = .fail (.tooDeep t) behind) :
    Limited needed levels o' value' := by
  constructor
  · intro hle
    exact enough (h.enough hle)
  · intro hlt
    obtain ⟨t, behind, hf⟩ := h.short hlt
    exact ⟨t, behind, short t behind hf⟩

namespace Setting

variable (s : Setting) {levels min : Nat} {e : Expr} {ts rest : List Token}

theorem front_tokens_ne (e : Expr) (ts : List Token) {k : TokenKind}
    (hk : beginsOperand k = false) : (s.front (e.tokens ++ ts)).kind ≠ k := by
  obtain ⟨t, rest, htokens, ht⟩ := e.begins_tokens ts
  rw [htokens, front_cons]
  exact kind_ne_of_beginsOperand ht hk

/-- Reading the tokens of the tree leads to a loop that holds it. -/
def Climbs (e : Expr) : Prop :=
  ∀ levels min rest, (∀ r ∈ e.ranks s.grammar.operators, min ≤ r) →
    (∀ m ∈ e.waiting s.grammar.operators, s.continuation m (s.front rest) = .stop) →
    Limited e.nested levels ((s.expression (levels + 1) min).run (e.tokens ++ rest))
      (s.chainFrom (s.expression levels) min e rest)

/-- Reading the tokens of the tree ends with it, if what follows lets it end. -/
def Rereads (e : Expr) : Prop :=
  ∀ levels min rest, (∀ r ∈ e.ranks s.grammar.operators, min ≤ r) →
    (∀ m ∈ e.waiting s.grammar.operators, s.continuation m (s.front rest) = .stop) →
    s.continuation min (s.front rest) = .stop →
    Limited e.levels levels ((s.expression levels min).run (e.tokens ++ rest)) (.ok e rest)

theorem Climbs.rereads (h : s.Climbs e) : s.Rereads e := by
  intro levels min rest hranks hwaiting hstop
  cases levels with
  | zero =>
    constructor
    · intro hle
      rw [Expr.levels] at hle
      omega
    · intro _
      exact ⟨_, _, s.run_expression_zero⟩
  | succ levels =>
    have hc := h levels min rest hranks hwaiting
    rw [s.chainFrom_settled hstop] at hc
    rw [Expr.levels]
    constructor
    · intro hle
      exact hc.enough (by omega)
    · intro hlt
      exact hc.short (by omega)

/-- A token that is no operator lets every tree end. -/
theorem Rereads.before (h : s.Rereads e) (rest : List Token)
    (hf : (s.front rest).kind ≠ .operator) (levels : Nat) :
    Limited e.levels levels
      ((s.expression levels Level.lowest.rank).run (e.tokens ++ rest)) (.ok e rest) :=
  h levels _ rest (Expr.lowest_le_ranks _ e) (fun _ _ => s.continuation_of_kind hf)
    (s.continuation_of_kind hf)

/-! ## Lists -/

theorem rereads_list {es : List Expr} (he : s.Rereads e) (hes : ∀ e ∈ es, s.Rereads e)
    (hf : (s.front rest).kind ≠ .operator ∧ (s.front rest).kind ≠ .comma) (levels : Nat) :
    Limited (Expr.nestedAll (e :: es)) levels
      (listFrom (s.expression levels Level.lowest.rank) (e.tokens ++ (Expr.moreTokens es ++ rest)))
      (.ok (e :: es) rest) := by
  induction es generalizing e with
  | nil =>
    have h := he.before s rest hf.1 levels
    rw [Expr.nestedAll, Expr.nestedAll, Nat.max_zero]
    refine h.imp (fun hr => listFrom_last hr ?_) (fun t behind hr => listFrom_fail hr)
    intro t ht
    obtain ⟨behind, rfl⟩ := List.head?_eq_some_iff.mp ht
    exact hf.2
  | cons e' es ih =>
    have ih := ih (hes e' List.mem_cons_self) fun a ha => hes a (List.mem_cons_of_mem _ ha)
    let behind := e'.tokens ++ (Expr.moreTokens es ++ rest)
    have h := he.before s (.bare .comma "," :: behind)
      (by decide : TokenKind.comma ≠ .operator) levels
    rw [Expr.moreTokens, List.cons_append, List.append_assoc, Expr.nestedAll]
    constructor
    · intro hle
      obtain ⟨hfirst, hmore⟩ := Nat.max_le.mp hle
      rw [listFrom_comma (h.enough hfirst) rfl, ih.enough hmore]
      rfl
    · intro hlt
      by_cases hfirst : 1 + e.nested ≤ levels
      · obtain ⟨t, rest', hr⟩ := ih.short (by omega)
        refine ⟨t, rest', ?_⟩
        rw [listFrom_comma (h.enough hfirst) rfl, hr]
        rfl
      · obtain ⟨t, rest', hr⟩ := h.short (Nat.lt_of_not_le hfirst)
        exact ⟨t, rest', listFrom_fail hr⟩

/-- Arguments are read up to the place where they are closed. -/
theorem rereads_arguments {es : List Expr} (h : ∀ e ∈ es, s.Rereads e) (parenthesized : Bool)
    (behind rest : List Token)
    (hclosed : if parenthesized then Closes behind rest else rest = behind)
    (hf : (s.front behind).kind = .eof ∨ (parenthesized ∧ (s.front behind).kind = .rightParen))
    (levels : Nat) :
    Limited (Expr.nestedAll es) levels
      ((s.arguments (s.expression levels Level.lowest.rank) parenthesized).run
        (Expr.listTokens es ++ behind)) (.ok es rest) := by
  cases es with
  | nil =>
    constructor
    · intro _
      rw [Expr.listTokens, List.nil_append, s.run_arguments_none hf, s.run_closed_of [] hclosed]
    · intro hlt
      exact absurd hlt (Nat.not_lt_zero levels)
  | cons e es =>
    have hstop : (s.front behind).kind ≠ .operator ∧ (s.front behind).kind ≠ .comma := by
      rcases hf with hk | ⟨_, hk⟩ <;> rw [hk] <;> decide
    have hl := s.rereads_list (h e List.mem_cons_self)
      (fun a ha => h a (List.mem_cons_of_mem _ ha)) hstop levels
    have hsome : ¬ ((s.front (e.tokens ++ (Expr.moreTokens es ++ behind))).kind = .eof ∨
        (parenthesized ∧
          (s.front (e.tokens ++ (Expr.moreTokens es ++ behind))).kind = .rightParen)) := by
      intro h
      rcases h with he | ⟨_, he⟩
      · exact s.front_tokens_ne e _ rfl he
      · exact s.front_tokens_ne e _ rfl he
    rw [Expr.listTokens, List.append_assoc, s.run_arguments_some hsome]
    refine hl.imp (fun hr => ?_) (fun t behind hr => by rw [hr])
    rw [hr]
    exact s.run_closed_of (e :: es) hclosed

/-! ## Trees -/

/-- What is read of an operand goes on as a loop. -/
theorem limited_operand {needed : Nat} {left : Expr}
    (h : Limited needed levels ((s.operand (s.expression levels)).run ts) (.ok left rest)) :
    Limited needed levels ((s.expression (levels + 1) min).run ts)
      (s.chainFrom (s.expression levels) min left rest) := by
  rw [run_expression_succ]
  exact h.imp (fun hr => by rw [hr]) (fun t behind hr => by rw [hr])

/-- An operand of one token needs no level. -/
theorem climbs_atom (h : ∀ levels rest,
    (s.operand (s.expression levels)).run (e.tokens ++ rest) = .ok e rest)
    (hnested : e.nested = 0) : s.Climbs e := by
  intro levels min rest _ _
  refine s.limited_operand ?_
  rw [hnested]
  constructor
  · intro _
    exact h levels rest
  · intro hlt
    exact absurd hlt (Nat.not_lt_zero levels)

theorem climbs_group {inner : Expr} (h : s.Rereads inner) : s.Climbs (.group inner) := by
  intro levels min rest _ _
  refine s.limited_operand ?_
  let behind := Token.bare .rightParen ")" :: rest
  have hl := h.before s behind (by decide : TokenKind.rightParen ≠ .operator) levels
  have hgroup : (s.front (inner.tokens ++ behind)).kind ≠ .rightParen :=
    s.front_tokens_ne inner behind rfl
  have hcloses : Closes behind rest := .closed rfl
  have htokens : (Expr.group inner).tokens ++ rest =
      .bare .leftParen "(" :: (inner.tokens ++ behind) := by
    simp only [Expr.tokens, List.cons_append, List.append_assoc, List.nil_append, behind]
  rw [htokens, s.run_operand_leftParen rfl, s.run_group hgroup]
  refine hl.imp (fun hr => ?_) (fun t rest' hr => by rw [hr])
  rw [hr]
  simp only [s.run_of_closes .closer hcloses]
  rfl

theorem climbs_call {function : String} {es : List Expr} {d : FunctionEntry}
    (registered : s.grammar.function? function = some d) (accepts : d.args.accepts es.length)
    (h : ∀ e ∈ es, s.Rereads e) : s.Climbs (.call function es) := by
  intro levels min rest _ _
  refine s.limited_operand ?_
  let behind := Token.bare .rightParen ")" :: rest
  have hl := s.rereads_arguments h true behind rest
    (.closed (t := .bare .rightParen ")") rfl) (.inr ⟨rfl, rfl⟩) levels
  have htokens : (Expr.call function es).tokens ++ rest =
      .bare .function function :: (Expr.listTokens es ++ behind) := by
    simp only [Expr.tokens, List.cons_append, List.append_assoc, List.nil_append, behind]
  rw [htokens, s.run_operand_function rfl, s.run_call (d := d) registered]
  refine hl.imp (fun hr => ?_) (fun t rest' hr => by rw [hr])
  rw [hr]
  exact if_pos accepts

theorem climbs_unary {operator : String} {operand : Expr} {d : OperatorEntry}
    (registered : s.grammar.operators.operator? operator .prefixOp = some d)
    (least : ∀ r ∈ operand.ranks s.grammar.operators, d.level.rank ≤ r) (h : s.Rereads operand) :
    s.Climbs (.unary operator operand) := by
  intro levels min rest _ hwaiting
  refine s.limited_operand ?_
  rw [Expr.waiting, Expr.rank?, registered] at hwaiting
  obtain ⟨hstop, hmore⟩ := List.forall_mem_cons.mp hwaiting
  have hl := h levels d.level.rank rest least hmore hstop
  rw [Expr.tokens, List.cons_append, s.run_operand_prefixOp (d := d) rfl registered]
  refine hl.imp (fun hr => ?_) (fun t rest' hr => ?_)
  · rw [hr]
    rfl
  · rw [hr]
    rfl

theorem climbs_suffixed {operator : String} {operand : Expr} {d : OperatorEntry}
    (registered : s.grammar.operators.operator? operator .postfixOp = some d)
    (above : ∀ m ∈ operand.waiting s.grammar.operators, d.level.rank < m) (h : s.Climbs operand) :
    s.Climbs (.suffixed operand operator) := by
  intro levels min rest hranks _
  let t := Token.bare .operator operator
  rw [Expr.ranks, Expr.rank?, registered] at hranks
  obtain ⟨hmin, hmore⟩ := List.forall_mem_cons.mp hranks
  have hwaiting : ∀ m ∈ operand.waiting s.grammar.operators, s.continuation m t = .stop := by
    intro m hm
    exact (s.stop_iff_of_postfixOp rfl registered).mpr (above m hm)
  have hgo : s.continuation min t = .suffix := by
    rw [s.continuation_postfixOp rfl registered, if_neg (Nat.not_lt.mpr hmin)]
  have hl := h levels min (t :: rest) hmore hwaiting
  rw [s.chainFrom_suffix hgo] at hl
  rw [Expr.tokens, List.append_assoc]
  exact hl

theorem climbs_binary {operator : String} {left right : Expr} {d : OperatorEntry}
    (noPostfix : s.grammar.operators.operator? operator .postfixOp = none)
    (registered : s.grammar.operators.operator? operator .infixOp = some d)
    (above : ∀ m ∈ left.waiting s.grammar.operators, d.level.rank < m)
    (least : ∀ r ∈ right.ranks s.grammar.operators, d.rightBinding ≤ r)
    (hl : s.Climbs left) (hr : s.Rereads right) : s.Climbs (.binary left operator right) := by
  intro levels min rest hranks hwaiting
  let t := Token.bare .operator operator
  rw [Expr.ranks, Expr.rank?, registered] at hranks
  obtain ⟨hmin, hleft⟩ := List.forall_mem_cons.mp hranks
  rw [Expr.waiting, registered] at hwaiting
  obtain ⟨hstop, hright⟩ := List.forall_mem_cons.mp hwaiting
  have hbelow : ∀ m ∈ left.waiting s.grammar.operators, s.continuation m t = .stop := by
    intro m hm
    exact (s.stop_iff_of_infixOp rfl noPostfix registered).mpr (above m hm)
  have hgo : s.continuation min t = .operand d.rightBinding := by
    rw [s.continuation_infixOp rfl noPostfix registered, if_neg (Nat.not_lt.mpr hmin)]
  have hl := hl levels min (t :: (right.tokens ++ rest)) hleft hbelow
  have hr := hr levels d.rightBinding rest least hright hstop
  rw [Expr.tokens, List.append_assoc, List.cons_append, Expr.nested]
  rw [Expr.levels] at hr
  constructor
  · intro hle
    obtain ⟨hle, hle'⟩ := Nat.max_le.mp hle
    rw [hl.enough hle, s.chainFrom_operand hgo (hr.enough hle')]
    rfl
  · intro hlt
    by_cases hle : left.nested ≤ levels
    · obtain ⟨u, behind, hf⟩ := hr.short (by omega)
      exact ⟨u, behind, by rw [hl.enough hle, s.chainFrom_operand_fail hgo hf]⟩
    · exact hl.short (Nat.lt_of_not_le hle)

/-- **Reading the tokens of a tree that fits leads to it.** -/
theorem climbs (h : e.Fits s.grammar) : s.Climbs e := by
  induction h with
  | @literal kind lexeme =>
    refine s.climbs_atom (fun levels rest => ?_) rfl
    cases kind with
    | integer => exact s.run_operand_integer rfl
    | float => exact s.run_operand_float rfl
  | var => exact s.climbs_atom (fun levels rest => s.run_operand_var rfl) rfl
  | binary noPostfix registered _ _ above least ihl ihr =>
    exact s.climbs_binary noPostfix registered above least ihl ihr.rereads
  | unary registered _ least ih => exact s.climbs_unary registered least ih.rereads
  | suffixed registered _ above ih => exact s.climbs_suffixed registered above ih
  | call registered accepts _ ih =>
    exact s.climbs_call registered accepts fun a ha => (ih a ha).rereads
  | group _ ih => exact s.climbs_group ih.rereads

/-- **A tree that fits is read back from its tokens.** -/
theorem rereads (h : e.Fits s.grammar) : s.Rereads e := (s.climbs h).rereads

end Setting

/-! ## Statements -/

/-- The tokens of a command. -/
def Command.tokens (c : Command) : List Token :=
  .bare .command c.name ::
    match c.label with
    | some label => [.bare .label label]
    | none =>
      Expr.listTokens c.arguments ++ if opensParen c.name then [.bare .rightParen ")"] else []

/-- The tokens of a statement that could be read. -/
def StatementKind.tokens : StatementKind → List Token
  | command c => c.tokens
  | expression e => e.tokens
  | empty => []
  | invalid _ => []

variable {g : Grammar} {e : Expr}

theorem front_tokens (s : Setting) (e : Expr) :
    (s.front e.tokens).kind ≠ .eof ∧ (s.front e.tokens).kind ≠ .command := by
  rw [← List.append_nil e.tokens]
  exact ⟨s.front_tokens_ne e [] rfl, s.front_tokens_ne e [] rfl⟩

/-- The tokens of an expression are a statement, if the levels are enough. -/
theorem limited_readStatement (h : e.Fits g) :
    (e.levels ≤ maxNesting → readStatement g e.tokens .origin = .ok (.expression e)) ∧
      (maxNesting < e.levels → ∃ t, readStatement g e.tokens .origin = .error (.tooDeep t)) := by
  let s : Setting := ⟨g, .origin⟩
  have hl := (s.rereads h).before s [] (by decide : TokenKind.eof ≠ .operator) maxNesting
  rw [List.append_nil] at hl
  obtain ⟨he, hc⟩ := front_tokens s e
  have hrun := s.run_statement_expression maxNesting he hc
  constructor
  · intro hle
    rw [hl.enough hle] at hrun
    rw [readStatement, hrun]
    rfl
  · intro hlt
    obtain ⟨u, behind, hf⟩ := hl.short hlt
    rw [hf] at hrun
    exact ⟨u, by rw [readStatement, hrun]; rfl⟩

/-- **The trees that are read from their own tokens** are those that fit and open no
more levels than there are. -/
theorem readStatement_tokens_iff :
    readStatement g e.tokens .origin = .ok (.expression e) ↔ e.Fits g ∧ e.levels ≤ maxNesting := by
  constructor
  · intro h
    obtain ⟨he, hc⟩ := front_tokens ⟨g, .origin⟩ e
    obtain ⟨e', heq, hs⟩ := shaped_of_readStatement h he hc
    cases heq
    exact ⟨hs.fits, hs.levels⟩
  · intro h
    exact (limited_readStatement h.1).1 h.2

theorem readStatement_label {name label : String} {d : CommandEntry}
    (known : g.command? name = some d) (takes : d.args = .label) :
    readStatement g [.bare .command name, .bare .label label] .origin =
      .ok (.command (.withLabel name label)) := by
  let s : Setting := ⟨g, .origin⟩
  have hend : s.expectEnd.run [] = .ok () [] := s.run_expectEnd rfl
  have hlabel : (s.expect .label .labelName).run [.bare .label label] =
      .ok (.bare .label label) [] := s.run_expect .labelName (by decide) rfl
  have hoperands := s.run_operands_label maxNesting (d := d) (beq_of_eq takes)
    (.bare .command name) [.bare .label label]
  rw [hlabel] at hoperands
  simp only [hend] at hoperands
  rw [readStatement, s.run_statement_command maxNesting rfl,
    s.run_command maxNesting rfl (d := d) known, hoperands]
  rfl

theorem readStatement_arguments {name : String} {es : List Expr} {d : CommandEntry}
    (known : g.command? name = some d) (takes : d.args ≠ .label)
    (accepts : d.args.accepts es.length) (h : ∀ e ∈ es, e.IsReadable g) :
    readStatement g (Command.withArguments name es).tokens .origin =
      .ok (.command (.withArguments name es)) := by
  let s : Setting := ⟨g, .origin⟩
  have hname : d.keyword = name := (Table.get?_eq_some_iff.mp known).2
  have hlevels : Expr.nestedAll es ≤ maxNesting :=
    Expr.nestedAll_le_iff.mpr fun e he => (h e he).levels
  have hre : ∀ e ∈ es, s.Rereads e := fun e he => s.rereads (h e he).fits
  have harguments : (s.arguments (s.expression maxNesting Level.lowest.rank) d.opensParen).run
      (Expr.listTokens es ++ if opensParen name then [.bare .rightParen ")"] else []) =
        .ok es [] := by
    rw [CommandEntry.opensParen, hname]
    cases opensParen name with
    | true =>
      have hl := s.rereads_arguments hre true [.bare .rightParen ")"] []
        (.closed (t := .bare .rightParen ")") rfl) (.inr ⟨rfl, rfl⟩) maxNesting
      exact hl.enough hlevels
    | false =>
      have hl := s.rereads_arguments hre false [] [] rfl
        (.inl rfl) maxNesting
      exact hl.enough hlevels
  have hoperands := s.run_operands_arguments maxNesting (d := d) (beq_false_of_ne takes)
    (.bare .command name)
    (Expr.listTokens es ++ if opensParen name then [.bare .rightParen ")"] else [])
  have hend : s.expectEnd.run [] = .ok () [] := s.run_expectEnd rfl
  rw [harguments] at hoperands
  simp only [hend, accepts, ↓reduceIte] at hoperands
  have htokens : (Command.withArguments name es).tokens = .bare .command name ::
      (Expr.listTokens es ++ if opensParen name then [.bare .rightParen ")"] else []) := rfl
  rw [htokens, readStatement, s.run_statement_command maxNesting rfl,
    s.run_command maxNesting rfl (d := d) known, hoperands]
  rfl

/-- **A statement that was read is read again from its tokens.** -/
theorem readStatement_tokens {k : StatementKind} (h : k.IsReadable g) :
    readStatement g k.tokens .origin = .ok k := by
  cases h with
  | empty => rfl
  | expression h => exact (limited_readStatement h.fits).1 h.levels
  | label known takes _ => exact readStatement_label known takes
  | arguments known takes accepts h => exact readStatement_arguments known takes accepts h

end CalcSyntax
