import CalcSyntax.Proofs.Expr.Shape
import CalcSyntax.Proofs.Reading.Acceptance
import CalcSyntax.Token.Front

/-!
# Image — what reading builds

Whatever tokens are read, the trees that come out fit their grammar and
open no more levels than there are. This holds for every grammar and every
list of tokens, so it says what a reader of expressions can rely on before
the text is known.

## What is proved

- `Setting.built_chainFrom` — the loop. It keeps an invariant on the tree
  so far: the tree fits, its left edge lies at the level of the loop or
  above, and every operand that ends with it stops at the next token.
- `Setting.built_expression` — an expression at any level.
- `readable_of_readStatement` — the statements.
-/

set_option autoImplicit false

namespace CalcSyntax

/-- The names of labels. -/
def IsLabel (name : String) : Prop :=
  name ≠ "" ∧ name.toList.length ≤ 2 ∧ ∀ c ∈ name.toList, isLabelChar c = true

/-- The lexeme of a number is one, and that of a variable or a label names one. -/
def Token.IsSpelled (t : Token) : Prop :=
  match t.kind with
  | .integer => Numeral.IsInteger t.lexeme.toList
  | .float => Numeral.IsFloat t.lexeme.toList
  | .var => Expr.IsVariable t.lexeme
  | .label => IsLabel t.lexeme
  | _ => True

/-- All tokens are spelled as their kinds are. -/
def Spelled (ts : List Token) : Prop := ∀ t ∈ ts, t.IsSpelled

theorem Spelled.suffix {ts rest : List Token} (h : Spelled ts) (hr : rest <:+ ts) :
    Spelled rest := by
  intro t ht
  exact h t (hr.subset ht)

namespace Setting

variable (s : Setting) {nested : Nat → Rule Expr} {levels min : Nat} {ts rest : List Token}
  {e : Expr} {P : Prop}

/-- A tree that fits and opens so many levels at most. Under `P`, which is that
the tokens are spelled, it is made of what the grammar registers. -/
structure Shaped (levels : Nat) (P : Prop) (e : Expr) : Prop where
  fits : e.Fits s.grammar
  levels : e.levels ≤ levels
  words : P → e.IsOver s.grammar

/-- A tree within a loop at `min`: all operands that end with it have ended in
front of the rest. -/
structure Begun (levels min : Nat) (P : Prop) (e : Expr) (rest : List Token) : Prop
    extends s.Shaped levels P e where
  ranks : ∀ r ∈ e.ranks s.grammar.operators, min ≤ r
  waiting : ∀ m ∈ e.waiting s.grammar.operators, s.continuation m (s.front rest) = .stop

/-- A tree that a loop at `min` has ended with. -/
structure Built (levels min : Nat) (P : Prop) (e : Expr) (rest : List Token) : Prop
    extends s.Begun levels min P e rest where
  stop : s.continuation min (s.front rest) = .stop

/-- The rules build what they should, at every level. -/
def Builds (levels : Nat) (nested : Nat → Rule Expr) : Prop :=
  ∀ min ts e rest, (nested min).run ts = .ok e rest → s.Built levels min (Spelled ts) e rest

/-! ## The loop -/

/-- A postfix operator completes the tree so far. -/
theorem Begun.suffixed {t : Token} (h : s.Begun levels min P e (t :: rest))
    (hc : s.continuation min t = .suffix) :
    s.Begun levels min P (.suffixed e t.lexeme) rest := by
  obtain ⟨d, hk, hd, hmin⟩ := s.exists_of_suffix hc
  have above : ∀ m ∈ e.waiting s.grammar.operators, d.level.rank < m := by
    intro m hm
    exact (s.stop_iff_of_postfixOp hk hd).mp (h.waiting m hm)
  refine ⟨⟨.suffixed hd h.fits above, h.levels, fun hp => .suffixed hd (h.words hp)⟩, ?_, nofun⟩
  intro r hr
  rw [Expr.ranks, Expr.rank?, hd, List.mem_append] at hr
  rcases hr with hr | hr
  · exact (List.mem_singleton.mp hr) ▸ hmin
  · exact h.ranks r hr

/-- An infix operator joins the tree so far with its right operand. -/
theorem Begun.binary {t : Token} {ts : List Token} {least : Nat} {right : Expr}
    (h : s.Begun (levels + 1) min P e (t :: ts)) (hc : s.continuation min t = .operand least)
    (hr : s.Built levels least P right rest) :
    s.Begun (levels + 1) min P (.binary e t.lexeme right) rest := by
  obtain ⟨d, hk, hp, hd, hmin, rfl⟩ := s.exists_of_operand hc
  have above : ∀ m ∈ e.waiting s.grammar.operators, d.level.rank < m := by
    intro m hm
    exact (s.stop_iff_of_infixOp hk hp hd).mp (h.waiting m hm)
  refine ⟨⟨.binary hp hd h.fits hr.fits above hr.ranks, ?_,
    fun hp => .binary hd (h.words hp) (hr.words hp)⟩, ?_, ?_⟩
  · have hl := h.levels
    have hr := hr.levels
    rw [Expr.levels] at hl hr ⊢
    rw [Expr.nested]
    omega
  · intro r hr
    rw [Expr.ranks, Expr.rank?, hd, List.mem_append] at hr
    rcases hr with hr | hr
    · exact (List.mem_singleton.mp hr) ▸ hmin
    · exact h.ranks r hr
  · intro m hm
    rw [Expr.waiting, hd, List.mem_append] at hm
    rcases hm with hm | hm
    · exact (List.mem_singleton.mp hm) ▸ hr.stop
    · exact hr.waiting m hm

theorem Shaped.imp {Q : Prop} (h : s.Shaped levels P e) (hq : Q → P) : s.Shaped levels Q e :=
  { h with words := fun q => h.words (hq q) }

theorem Built.imp {Q : Prop} (h : s.Built levels min P e rest) (hq : Q → P) :
    s.Built levels min Q e rest :=
  { h with words := fun q => h.words (hq q) }

/-- **The loop** ends with a tree whose operators all have what they ask for. -/
theorem built_chainFrom (hn : s.Builds levels nested) {left : Expr} (hts : P → Spelled ts)
    (h : s.Begun (levels + 1) min P left ts)
    (hrun : s.chainFrom nested min left ts = .ok e rest) :
    s.Built (levels + 1) min P e rest := by
  fun_induction chainFrom s nested min left ts with
  | case1 => cases hrun; exact ⟨h, s.continuation_end min⟩
  | case2 left t ts hc => cases hrun; exact ⟨h, hc⟩
  | case3 left t ts hc ih =>
    exact ih (fun hp => (hts hp).suffix (List.suffix_cons t ts)) (h.suffixed s hc) hrun
  | case4 => cases hrun
  | case5 left t ts least hc right behind hright ih =>
    have hsuffix := (nested least).rest_suffix ts
    rw [hright] at hsuffix
    have htail : P → Spelled ts := fun hp => (hts hp).suffix (List.suffix_cons t ts)
    have hr := (hn least ts right behind hright).imp s htail
    exact ih (fun hp => (htail hp).suffix hsuffix) (h.binary s hc hr) hrun

/-! ## Operands -/

theorem shaped_listFrom {item : Rule Expr} {es : List Expr}
    (hi : ∀ ts e rest, item.run ts = .ok e rest → s.Shaped levels (Spelled ts) e)
    (hts : P → Spelled ts) (h : listFrom item ts = .ok es rest) :
    ∀ e ∈ es, s.Shaped levels P e := by
  fun_induction listFrom item ts generalizing es with
  | case1 => cases h
  | case2 ts e he =>
    cases h
    exact List.forall_mem_singleton.mpr ((hi ts e _ he).imp s hts)
  | case3 ts e t mid he ht ih =>
    cases hm : listFrom item mid with
    | fail fault behind => rw [hm] at h; cases h
    | ok es' behind =>
      rw [hm] at h
      cases h
      have hsuffix := item.rest_suffix ts
      rw [he] at hsuffix
      have htail : P → Spelled mid := fun hp =>
        ((hts hp).suffix hsuffix).suffix (List.suffix_cons t mid)
      exact List.forall_mem_cons.mpr ⟨(hi ts e _ he).imp s hts, ih htail hm⟩
  | case4 ts e t mid he =>
    cases h
    exact List.forall_mem_singleton.mpr ((hi ts e _ he).imp s hts)

theorem shaped_arguments {item : Rule Expr} {parenthesized : Bool} {es : List Expr}
    (hi : ∀ ts e rest, item.run ts = .ok e rest → s.Shaped levels (Spelled ts) e)
    (h : (s.arguments item parenthesized).run ts = .ok es rest) :
    ∀ e ∈ es, s.Shaped levels (Spelled ts) e := by
  obtain ⟨mid, ⟨rfl, rfl⟩ | hl, _⟩ := s.exists_of_run_arguments h
  · nofun
  · exact s.shaped_listFrom hi id hl

/-- A tree without edges has nothing to fear from what follows. -/
theorem Shaped.begun (h : s.Shaped levels P e) (hranks : e.ranks s.grammar.operators = [])
    (hwaiting : e.waiting s.grammar.operators = []) : s.Begun levels min P e rest :=
  ⟨h, by rw [hranks]; nofun, by rw [hwaiting]; nofun⟩

/-- What an operand is read as has no left edge, so it suits a loop at any level. -/
theorem begun_of_readsOperand (hn : s.Builds levels nested) (h : s.ReadsOperand nested ts e rest) :
    s.Begun (levels + 1) min (Spelled ts) e rest := by
  have hone : 1 ≤ levels + 1 := Nat.le_add_left 1 levels
  cases h with
  | @integer t _ kind =>
    refine Shaped.begun s ⟨.literal, hone, fun hp => .integer ?_⟩ rfl rfl
    have := hp t List.mem_cons_self
    rwa [Token.IsSpelled, kind] at this
  | @float t _ kind =>
    refine Shaped.begun s ⟨.literal, hone, fun hp => .float ?_⟩ rfl rfl
    have := hp t List.mem_cons_self
    rwa [Token.IsSpelled, kind] at this
  | @var t _ kind =>
    refine Shaped.begun s ⟨.var, hone, fun hp => .var ?_⟩ rfl rfl
    have := hp t List.mem_cons_self
    rwa [Token.IsSpelled, kind] at this
  | @group t ts mid _ inner _ hi _ =>
    have hinner := hn _ _ _ _ hi
    refine Shaped.begun s ⟨.group hinner.fits, ?_, fun hp => .group ?_⟩ rfl rfl
    · have hlevels := hinner.levels
      rw [Expr.levels] at hlevels ⊢
      rw [Expr.nested]
      omega
    · exact hinner.words (hp.suffix (List.suffix_cons t ts))
  | @call t ts _ es d _ known ha accepts =>
    have hes := s.shaped_arguments
      (fun ts e rest he => (hn Level.lowest.rank ts e rest he).toShaped) ha
    refine Shaped.begun s ⟨.call known accepts fun a ha => (hes a ha).fits, ?_,
      fun hp => .call known accepts fun a ha => (hes a ha).words ?_⟩ rfl rfl
    · have hlevels := Expr.nestedAll_le_iff.mpr fun a ha => (hes a ha).levels
      rw [Expr.levels, Expr.nested]
      omega
    · exact hp.suffix (List.suffix_cons t ts)
  | @unary t ts _ operand d _ known hi =>
    have hinner := hn _ _ _ _ hi
    refine ⟨⟨.unary known hinner.fits hinner.ranks, ?_, fun hp => .unary known ?_⟩, ?_, ?_⟩
    · have hlevels := hinner.levels
      rw [Expr.levels] at hlevels ⊢
      rw [Expr.nested]
      omega
    · exact hinner.words (hp.suffix (List.suffix_cons t ts))
    · intro r hr
      cases hr
    · intro m hm
      rw [Expr.waiting, Expr.rank?, known, List.mem_append] at hm
      rcases hm with hm | hm
      · exact (List.mem_singleton.mp hm) ▸ hinner.stop
      · exact hinner.waiting m hm

/-- **What is read as an expression fits**, at any level and with any number of
levels left. -/
theorem built_expression (levels : Nat) : s.Builds levels (s.expression levels) := by
  induction levels with
  | zero =>
    intro min ts e rest h
    rw [run_expression_zero] at h
    cases h
  | succ levels ih =>
    intro min ts e rest h
    rw [run_expression_succ] at h
    have hsuffix := (s.operand (s.expression levels)).rest_suffix ts
    cases ho : (s.operand (s.expression levels)).run ts with
    | fail fault behind => rw [ho] at h; cases h
    | ok left behind =>
      rw [ho] at h hsuffix
      have hbegun : s.Begun (levels + 1) min (Spelled ts) left behind :=
        s.begun_of_readsOperand ih (s.readsOperand_of_run ho)
      exact s.built_chainFrom ih (fun hp => hp.suffix hsuffix) hbegun h

end Setting

/-! ## Statements -/

/-- An expression that is read again as itself, once its words are. -/
structure Expr.IsReadable (g : Grammar) (e : Expr) : Prop where
  fits : e.Fits g
  levels : e.levels ≤ maxNesting
  words : e.IsOver g

/-- The statements that are built of spelled tokens. -/
inductive StatementKind.IsReadable (g : Grammar) : StatementKind → Prop where
  | empty : IsReadable g .empty
  | expression {e : Expr} (h : e.IsReadable g) : IsReadable g (.expression e)
  | label {name label : String} {d : CommandEntry} (known : g.command? name = some d)
    (takes : d.args = .label) (spelled : IsLabel label) :
    IsReadable g (.command (.withLabel name label))
  | arguments {name : String} {arguments : List Expr} {d : CommandEntry}
    (known : g.command? name = some d) (takes : d.args ≠ .label)
    (accepts : d.args.accepts arguments.length) (h : ∀ e ∈ arguments, e.IsReadable g) :
    IsReadable g (.command (.withArguments name arguments))

theorem readable_of_readsCommand {s : Setting} {t : Token} {ts : List Token} {d : CommandEntry}
    {c : Command} (known : s.grammar.command? t.lexeme = some d) (hts : Spelled ts)
    (h : s.ReadsCommand maxNesting t d ts c) : (StatementKind.command c).IsReadable s.grammar := by
  cases h with
  | @label label _ takes kind _ =>
    have hlabel := hts label List.mem_cons_self
    rw [Token.IsSpelled, kind] at hlabel
    exact .label known takes hlabel
  | arguments takes ha _ accepts =>
    have hes := s.shaped_arguments
      (fun ts e rest he => (s.built_expression maxNesting _ ts e rest he).toShaped) ha
    refine .arguments known takes accepts ?_
    intro e he
    exact ⟨(hes e he).fits, (hes e he).levels, (hes e he).words hts⟩

/-- A statement that begins neither with a command nor with its end is an expression. -/
theorem shaped_of_readStatement {g : Grammar} {tokens : List Token} {closing : Span}
    {k : StatementKind} (h : readStatement g tokens closing = .ok k)
    (he : ((⟨g, closing⟩ : Setting).front tokens).kind ≠ .eof)
    (hc : ((⟨g, closing⟩ : Setting).front tokens).kind ≠ .command) :
    ∃ e, k = .expression e ∧
      (⟨g, closing⟩ : Setting).Shaped maxNesting (Spelled tokens) e := by
  cases readsStatement_of_readStatement h with
  | empty ends => exact absurd ((Setting.ends_iff_front _).mp ends) he
  | command kind _ _ => exact absurd kind hc
  | @expression _ _ e _ hi _ =>
    exact ⟨e, rfl, (Setting.built_expression _ maxNesting _ tokens e _ hi).toShaped⟩

/-- **What is read as a statement fits**, and is made of registered words where the
tokens are spelled. -/
theorem readable_of_readStatement {g : Grammar} {tokens : List Token} {closing : Span}
    {k : StatementKind} (hts : Spelled tokens) (h : readStatement g tokens closing = .ok k) :
    k.IsReadable g := by
  cases readsStatement_of_readStatement h with
  | empty => exact .empty
  | @command t ts d c _ known hcommand =>
    exact readable_of_readsCommand known (hts.suffix (List.suffix_cons t ts)) hcommand
  | @expression _ _ e _ hi _ =>
    have hb := Setting.built_expression _ maxNesting _ tokens e _ hi
    exact .expression ⟨hb.fits, hb.levels, hb.words hts⟩

end CalcSyntax
