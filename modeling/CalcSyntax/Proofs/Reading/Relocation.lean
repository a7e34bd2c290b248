import CalcSyntax.Proofs.Reading.Steps
import CalcSyntax.Proofs.Span.Relocation

/-!
# Relocation — reading looks at kinds and lexemes alone

A rule decides by the kinds and the lexemes of its tokens. Their places
are carried along and never looked at: put every token elsewhere, the
closing one included, and the rule answers the same value or the same
fault, with the fault's token and the remaining tokens at their new
places.

`Rule.Carries` says this of one rule. It is closed under `bind`
(`Rule.carries_bind`), so each rule of the grammar follows from the rules
it is made of, and the loops by the induction they end by.

## What is proved

- `readStatement_relocate` — a statement reads the same wherever its tokens
  stand.
- `span_mem_of_readStatement` — so a fault stands at a token of the statement,
  or at its end.
-/

set_option autoImplicit false

namespace CalcSyntax

variable (φ : Span → Span) {α β : Type}

/-- The outcome with all its tokens at other places, and its value changed by
the given function. -/
def Outcome.relocate (f : α → β) : Outcome α → Outcome β
  | .ok a ts => .ok (f a) (ts.map (Token.relocate φ))
  | .fail e ts => .fail (e.relocate φ) (ts.map (Token.relocate φ))

/-- The setting whose statement ends elsewhere. -/
def Setting.relocate (s : Setting) : Setting := { s with closing := φ s.closing }

namespace Rule

/-- The second rule does elsewhere what the first one does here; `f` is what
becomes of the value. -/
def Carries (f : α → β) (x : Rule α) (y : Rule β) : Prop :=
  ∀ ts, y.run (ts.map (Token.relocate φ)) = (x.run ts).relocate φ f

theorem carries_pure (f : α → β) (a : α) : Carries φ f (pure a) (pure (f a)) := fun _ => rfl

theorem carries_refuse (f : α → β) (e : Fault) :
    Carries φ f (refuse e) (refuse (e.relocate φ)) := fun _ => rfl

theorem carries_skip : Carries φ id skip skip := by
  intro ts
  rw [run_skip, run_skip, ← List.map_tail]
  rfl

/-- Rules in sequence carry over if each of them does. -/
theorem carries_bind {γ δ : Type} {f : α → β} {g : γ → δ} {x : Rule α} {y : Rule β}
    {k : α → Rule γ} {l : β → Rule δ} (hx : Carries φ f x y)
    (hk : ∀ a, Carries φ g (k a) (l (f a))) : Carries φ g (x >>= k) (y >>= l) := by
  intro ts
  rw [run_bind, run_bind, hx ts]
  cases x.run ts with
  | ok a rest => exact hk a rest
  | fail e rest => rfl

theorem carries_ite {p : Prop} [Decidable p] {f : α → β} {x x' : Rule α} {y y' : Rule β}
    (hx : Carries φ f x y) (hx' : Carries φ f x' y') :
    Carries φ f (if p then x else x') (if p then y else y') := by
  split
  · exact hx
  · exact hx'

end Rule

namespace Setting

open Rule

variable (s : Setting)

@[simp] theorem grammar_relocate : (s.relocate φ).grammar = s.grammar := rfl

theorem front_relocate (ts : List Token) :
    (s.relocate φ).front (ts.map (Token.relocate φ)) = (s.front ts).relocate φ := by
  cases ts <;> rfl

theorem carries_peek : Carries φ (Token.relocate φ) s.peek (s.relocate φ).peek := by
  intro ts
  rw [run_peek, run_peek, front_relocate]
  rfl

theorem carries_take : Carries φ (Token.relocate φ) s.take (s.relocate φ).take :=
  carries_bind φ (carries_peek φ s) fun t =>
    carries_ite φ (carries_pure φ _ t)
      (carries_bind φ (carries_skip φ) fun _ => carries_pure φ _ t)

theorem carries_expect (kind : TokenKind) (wanted : Wanted) :
    Carries φ (Token.relocate φ) (s.expect kind wanted) ((s.relocate φ).expect kind wanted) :=
  carries_bind φ (carries_peek φ s) fun t =>
    carries_ite φ (carries_take φ s) (carries_refuse φ _ (.unexpected wanted t))

theorem carries_expectEnd : Carries φ id s.expectEnd (s.relocate φ).expectEnd :=
  carries_bind φ (carries_peek φ s) fun t =>
    carries_ite φ (carries_pure φ _ ()) (carries_refuse φ _ (.unexpected .endOfStatement t))

theorem carries_close (wanted : Wanted) :
    Carries φ id (s.close wanted) ((s.relocate φ).close wanted) :=
  carries_bind φ (carries_peek φ s) fun t =>
    carries_ite φ (carries_skip φ) (carries_ite φ (carries_pure φ _ ())
      (carries_refuse φ _ (.unexpected wanted t)))

/-- The rules for operands at every least level carry over. -/
def CarriesAll (nested nested' : Nat → Rule Expr) : Prop :=
  ∀ min, Carries φ id (nested min) (nested' min)

variable {nested nested' : Nat → Rule Expr}

/-- The loop along a chain carries over. The induction is that of the loop:
a step takes a token, or an operand and its tokens. -/
theorem carries_chain (h : CarriesAll φ nested nested') (min : Nat) (left : Expr) :
    Carries φ id (s.chain nested min left) ((s.relocate φ).chain nested' min left) := by
  intro ts
  show (s.relocate φ).chainFrom nested' min left (ts.map _) =
    (s.chainFrom nested min left ts).relocate φ id
  have same (t : Token) : (s.relocate φ).continuation min (t.relocate φ) =
    s.continuation min t := rfl
  fun_induction chainFrom s nested min left ts with
  | case1 left => exact chainFrom_nil _ _ _ _
  | case2 left t rest hstop => exact chainFrom_stop _ ((same t).trans hstop)
  | case3 left t rest hsuffix ih =>
    rw [List.map_cons, chainFrom_suffix _ ((same t).trans hsuffix)]
    exact ih
  | case4 left t rest least hop fault behind hfail =>
    have hn := h least rest
    rw [hfail] at hn
    rw [List.map_cons, chainFrom_operand_fail _ ((same t).trans hop) hn]
    rfl
  | case5 left t rest least hop right behind hok ih =>
    have hn := h least rest
    rw [hok] at hn
    rw [List.map_cons, chainFrom_operand _ ((same t).trans hop) hn]
    exact ih

/-- The loop along a list carries over. -/
theorem carries_listOf {item item' : Rule Expr} (h : Carries φ id item item') :
    Carries φ id (listOf item) (listOf item') := by
  intro ts
  show listFrom item' (ts.map _) = (listFrom item ts).relocate φ id
  fun_induction listFrom item ts with
  | case1 ts fault rest hfail =>
    have hi := h ts
    rw [hfail] at hi
    exact listFrom_fail hi
  | case2 ts e hend =>
    have hi := h ts
    rw [hend] at hi
    refine listFrom_last hi ?_
    intro t ht
    cases ht
  | case3 ts e t rest hitem hcomma ih =>
    have hi := h ts
    rw [hitem] at hi
    rw [listFrom_comma hi hcomma, ih]
    cases listFrom item rest <;> rfl
  | case4 ts e t rest hitem hcomma =>
    have hi := h ts
    rw [hitem] at hi
    exact listFrom_last hi (fun _ h => (Option.some.inj h) ▸ hcomma)

theorem carries_arguments {item item' : Rule Expr} (h : Carries φ id item item')
    (parenthesized : Bool) :
    Carries φ id (s.arguments item parenthesized)
      ((s.relocate φ).arguments item' parenthesized) := by
  refine carries_bind φ (carries_peek φ s) fun t => ?_
  have closed (es : List Expr) : Carries φ id
      (if parenthesized then s.close .commaOrCloser >>= fun _ => pure es else pure es)
      (if parenthesized then (s.relocate φ).close .commaOrCloser >>= fun _ => pure es
        else pure es) :=
    carries_ite φ
      (carries_bind φ (carries_close φ s .commaOrCloser) fun _ => carries_pure φ id es)
      (carries_pure φ id es)
  exact carries_ite φ (carries_bind φ (carries_pure φ id []) closed)
    (carries_bind φ (carries_listOf φ h) closed)

theorem carries_group (h : CarriesAll φ nested nested') :
    Carries φ id (s.group nested) ((s.relocate φ).group nested') :=
  carries_bind φ (carries_peek φ s) fun t =>
    carries_ite φ (carries_refuse φ _ (.emptyGroup t))
      (carries_bind φ (h Level.lowest.rank) fun inner =>
        carries_bind φ (carries_close φ s .closer) fun _ => carries_pure φ id (Expr.group inner))

theorem carries_call (h : CarriesAll φ nested nested') (name : Token) :
    Carries φ id (s.call nested name) ((s.relocate φ).call nested' (name.relocate φ)) := by
  unfold call
  simp only [grammar_relocate, Token.lexeme_relocate]
  cases s.grammar.function? name.lexeme with
  | none => exact carries_refuse φ _ (.unknownFunction name)
  | some d =>
    exact carries_bind φ (carries_arguments φ s (h Level.lowest.rank) true) fun es =>
      carries_ite φ (carries_pure φ id (Expr.call name.lexeme es))
        (carries_refuse φ _ (.wrongCount name d.args es.length))

theorem carries_operand (h : CarriesAll φ nested nested') :
    Carries φ id (s.operand nested) ((s.relocate φ).operand nested') := by
  refine carries_bind φ (carries_peek φ s) fun t => ?_
  rw [Token.kind_relocate]
  have leaf (e : Expr) : Carries φ id (skip >>= fun _ => pure e) (skip >>= fun _ => pure e) :=
    carries_bind φ (carries_skip φ) fun _ => carries_pure φ id e
  have unexpected : Carries φ id (Rule.refuse (.unexpected .expression t) : Rule Expr)
      (Rule.refuse (.unexpected .expression (t.relocate φ))) :=
    carries_refuse φ id (.unexpected .expression t)
  cases t.kind with
  | integer => exact leaf (.literal .integer t.lexeme)
  | float => exact leaf (.literal .float t.lexeme)
  | var => exact leaf (.var t.lexeme)
  | leftParen => exact carries_bind φ (carries_skip φ) fun _ => carries_group φ s h
  | function => exact carries_bind φ (carries_skip φ) fun _ => carries_call φ s h t
  | operator =>
    simp only [grammar_relocate, Token.lexeme_relocate]
    cases s.grammar.operators.operator? t.lexeme .prefixOp with
    | none => exact carries_refuse φ _ (.noLeftOperand t)
    | some d =>
      exact carries_bind φ (carries_skip φ) fun _ =>
        carries_bind φ (h d.level.rank) fun inner => carries_pure φ id (Expr.unary t.lexeme inner)
  | command => exact unexpected
  | label => exact unexpected
  | rightParen => exact unexpected
  | comma => exact unexpected
  | terminator => exact unexpected
  | eof => exact unexpected

theorem carries_expression (levels : Nat) :
    CarriesAll φ (s.expression levels) ((s.relocate φ).expression levels) := by
  induction levels with
  | zero =>
    intro min
    exact carries_bind φ (carries_peek φ s) fun t => carries_refuse φ id (.tooDeep t)
  | succ levels ih =>
    intro min
    exact carries_bind φ (carries_operand φ s ih) fun left => carries_chain φ s ih min left

theorem carries_operands (levels : Nat) (keyword : Token) (d : CommandEntry) :
    Carries φ id (s.operands levels keyword d)
      ((s.relocate φ).operands levels (keyword.relocate φ) d) := by
  unfold operands
  refine carries_ite φ ?_ ?_
  · exact carries_bind φ (carries_expect φ s .label .labelName) fun label =>
      carries_bind φ (carries_expectEnd φ s) fun _ =>
        carries_pure φ id (Command.withLabel keyword.lexeme label.lexeme)
  · exact carries_bind φ
      (carries_arguments φ s (carries_expression φ s levels Level.lowest.rank) d.opensParen)
      fun es => carries_bind φ (carries_expectEnd φ s) fun _ =>
        carries_ite φ (carries_pure φ id (Command.withArguments keyword.lexeme es))
          (carries_refuse φ id (.wrongCount keyword d.args es.length))

theorem carries_command (levels : Nat) :
    Carries φ id (s.command levels) ((s.relocate φ).command levels) := by
  refine carries_bind φ (carries_expect φ s .command .command) fun keyword => ?_
  simp only [grammar_relocate, Token.lexeme_relocate]
  cases s.grammar.command? keyword.lexeme with
  | none => exact carries_refuse φ id (.unknownCommand keyword)
  | some d => exact carries_operands φ s levels keyword d

theorem carries_statement (levels : Nat) :
    Carries φ id (s.statement levels) ((s.relocate φ).statement levels) := by
  refine carries_bind φ (carries_peek φ s) fun t => ?_
  rw [Token.kind_relocate]
  have expression : Carries φ id (s.expressionStatement levels)
      ((s.relocate φ).expressionStatement levels) :=
    carries_bind φ (carries_expression φ s levels Level.lowest.rank) fun e =>
      carries_bind φ (carries_expectEnd φ s) fun _ => carries_pure φ id (StatementKind.expression e)
  cases t.kind with
  | eof => exact carries_pure φ id StatementKind.empty
  | command =>
    exact carries_bind φ (carries_command φ s levels) fun c =>
      carries_pure φ id (StatementKind.command c)
  | _ => exact expression

end Setting

/-- **A statement reads the same wherever its tokens stand**: the kind is the
same, and a fault is the same fault about the same token. -/
theorem readStatement_relocate (g : Grammar) (tokens : List Token) (closing : Span) :
    readStatement g (tokens.map (Token.relocate φ)) (φ closing) =
      (readStatement g tokens closing).mapError (Fault.relocate φ) := by
  unfold readStatement
  rw [show Setting.mk g (φ closing) = (Setting.mk g closing).relocate φ from rfl,
    Setting.carries_statement φ ⟨g, closing⟩ maxNesting tokens]
  cases ((Setting.mk g closing).statement maxNesting).run tokens <;> rfl

theorem Fault.token_relocate (f : Fault) : (f.relocate φ).token = f.token.relocate φ := by
  cases f <;> rfl

/-- **A fault names a token of the statement, or its end.** Otherwise its place alone
could be changed, and the same tokens would be read with another fault. -/
theorem span_mem_of_readStatement {g : Grammar} {tokens : List Token} {closing : Span}
    {fault : Fault} (h : readStatement g tokens closing = .error fault) :
    fault.token.span ∈ closing :: tokens.map Token.span := by
  let φ : Span → Span := fun a =>
    if a ∈ closing :: tokens.map Token.span then a else { a with start := a.start + 1 }
  have hkept : ∀ a ∈ closing :: tokens.map Token.span, φ a = a := fun a ha => if_pos ha
  have htokens : tokens.map (Token.relocate φ) = tokens := by
    refine (List.map_congr_left fun t ht => ?_).trans (List.map_id tokens)
    have hspan := hkept t.span (List.mem_cons_of_mem _ (List.mem_map_of_mem ht))
    rw [Token.relocate, hspan]
    rfl
  have hread := readStatement_relocate φ g tokens closing
  rw [htokens, hkept closing List.mem_cons_self, h] at hread
  have hfault : fault = fault.relocate φ := Except.error.inj hread
  have hmoved : φ fault.token.span = fault.token.span := by
    have htoken := fault.token_relocate φ
    rw [← hfault] at htoken
    exact (congrArg Token.span htoken).symm
  by_cases hmem : fault.token.span ∈ closing :: tokens.map Token.span
  · exact hmem
  · have hstart : fault.token.span.start + 1 = fault.token.span.start := by
      rw [show φ fault.token.span = _ from if_neg hmem] at hmoved
      exact congrArg Span.start hmoved
    omega

end CalcSyntax
