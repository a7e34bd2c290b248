import CalcSyntax.Expr.Nesting
import CalcSyntax.Proofs.Expr.Shape

/-!
# Ladder — grammars whose trees need no parentheses

A grammar is laddered (`Grammar.Laddered`) if its operators keep to a few
rungs: none lies above the operators behind their operand, those between
operands are read the same way on each rung, those in front share one rung,
and so do those behind.

What reading by levels builds fits its grammar, whatever the grammar
(`Expr.Fits`). On a ladder such a tree is well nested too. Where an operator
is taken, everything that waits at the end of its left operand lies above it
(`Fits.rank_lt_tightness`), and no operator on the left edge of its right
operand lies below the level that it asks for (`Fits.least_le_tightness`).

## What is proved

- `Expr.isWellNested_of_fits` — a tree that fits a ladder is well nested.
- `Expr.isWellNested_of_mem_parts` — a well nested tree is so in all its parts.
-/

set_option autoImplicit false

namespace CalcSyntax

namespace Level

/-- No two rungs have one number. -/
theorem rank_injective {a b : Level} (h : a.rank = b.rank) : a = b := by
  have key : ∀ a ∈ ladder, ∀ b ∈ ladder, a.rank = b.rank → a = b := by decide
  exact key a (mem_ladder a) b (mem_ladder b) h

end Level

/-- The operator that is found is listed, with that symbol and that fixity. -/
theorem Table.of_operator? {ops : Table OperatorEntry} {symbol : String} {fixity : Fixity}
    {d : OperatorEntry} (h : ops.operator? symbol fixity = some d) :
    d ∈ ops.entries ∧ d.symbol = symbol ∧ d.fixity = fixity := by
  obtain ⟨hm, hk⟩ := Table.get?_eq_some_iff.mp h
  exact ⟨hm, (Prod.mk.inj hk).1, (Prod.mk.inj hk).2⟩

/-- The operators keep to a few rungs. -/
structure Grammar.Laddered (g : Grammar) : Prop where
  /-- No operator lies above those behind their operand. -/
  low : ∀ d ∈ g.operators.entries, d.level.rank ≤ Level.suffix.rank
  /-- Operators between operands are read the same way on each rung. -/
  infixes : ∀ d ∈ g.operators.entries, ∀ d' ∈ g.operators.entries, d.fixity = .infixOp →
    d'.fixity = .infixOp → d.level = d'.level → d.associativity = d'.associativity
  /-- Operators in front of their operand share one rung. -/
  prefixes : ∀ d ∈ g.operators.entries, ∀ d' ∈ g.operators.entries, d.fixity = .prefixOp →
    d'.fixity = .prefixOp → d.level = d'.level
  /-- Operators behind their operand share one rung. -/
  postfixes : ∀ d ∈ g.operators.entries, ∀ d' ∈ g.operators.entries, d.fixity = .postfixOp →
    d'.fixity = .postfixOp → d.level = d'.level

/-- The calculator's operators keep to a few rungs. -/
theorem Grammar.laddered_calculator : Grammar.calculator.Laddered := by
  constructor <;> decide +kernel

namespace Expr

/-! ## Parts -/

mutual

/-- The expression and everything it is made of. -/
def parts : Expr → List Expr
  | literal kind lexeme => [literal kind lexeme]
  | var name => [var name]
  | binary left operator right => binary left operator right :: (left.parts ++ right.parts)
  | unary operator operand => unary operator operand :: operand.parts
  | suffixed operand operator => suffixed operand operator :: operand.parts
  | call function arguments => call function arguments :: partsAll arguments
  | group inner => group inner :: inner.parts

/-- The parts of the expressions of a list. -/
def partsAll : List Expr → List Expr
  | [] => []
  | e :: es => e.parts ++ partsAll es

end

theorem partsAll_eq_flatMap (es : List Expr) : partsAll es = es.flatMap parts := by
  induction es with
  | nil => rfl
  | cons e es ih => rw [partsAll, ih, List.flatMap_cons]

/-- The expressions that the head of an expression stands with. -/
def operands : Expr → List Expr
  | literal _ _ => []
  | var _ => []
  | binary left _ right => [left, right]
  | unary _ operand => [operand]
  | suffixed operand _ => [operand]
  | call _ arguments => arguments
  | group inner => [inner]

theorem parts_eq (e : Expr) : e.parts = e :: e.operands.flatMap parts := by
  cases e <;> simp [parts, operands, partsAll_eq_flatMap]

/-- **What goes down to operands holds of all parts.** -/
theorem forall_mem_parts {P : Expr → Prop} (down : ∀ e, P e → ∀ x ∈ e.operands, P x) {e : Expr}
    (h : P e) : ∀ p ∈ e.parts, P p := by
  have step (e : Expr) (ih : ∀ x ∈ e.operands, P x → ∀ p ∈ x.parts, P p) (he : P e) :
      ∀ p ∈ e.parts, P p := by
    rw [parts_eq]
    apply List.forall_mem_cons.mpr ⟨he, ?_⟩
    intro p hp
    obtain ⟨x, hx, hpx⟩ := List.mem_flatMap.mp hp
    exact ih x hx (down e he x hx) p hpx
  induction e using Expr.induction with
  | literal | var => exact step _ nofun h
  | binary left o right ihl ihr =>
    exact step _ (List.forall_mem_cons.mpr ⟨ihl, List.forall_mem_singleton.mpr ihr⟩) h
  | unary _ _ ih | suffixed _ _ ih | group _ ih =>
    exact step _ (List.forall_mem_singleton.mpr ih) h
  | call _ _ ih => exact step _ ih h

variable {ops : Table OperatorEntry}

theorem areWellNested_iff {es : List Expr} :
    areWellNested ops es = true ↔ ∀ e ∈ es, e.isWellNested ops = true := by
  induction es with
  | nil => exact iff_of_true rfl nofun
  | cons e es ih => rw [areWellNested, Bool.and_eq_true, ih, List.forall_mem_cons]

/-! ## Edges of a tree with a registered operator at its head -/

variable {left right operand : Expr} {o : String} {d : OperatorEntry}

theorem tightness_binary (h : ops.operator? o .infixOp = some d) :
    (binary left o right).tightness ops = d.level.rank := by
  rw [tightness, rankOf, h]
  rfl

theorem tightness_unary (h : ops.operator? o .prefixOp = some d) :
    (unary o operand).tightness ops = d.level.rank := by
  rw [tightness, rankOf, h]
  rfl

theorem tightness_suffixed (h : ops.operator? o .postfixOp = some d) :
    (suffixed operand o).tightness ops = d.level.rank := by
  rw [tightness, rankOf, h]
  rfl

theorem ranks_binary (h : ops.operator? o .infixOp = some d) :
    (binary left o right).ranks ops = d.level.rank :: left.ranks ops := by
  rw [ranks, rank?, h]
  rfl

theorem ranks_suffixed (h : ops.operator? o .postfixOp = some d) :
    (suffixed operand o).ranks ops = d.level.rank :: operand.ranks ops := by
  rw [ranks, rank?, h]
  rfl

theorem waiting_binary (h : ops.operator? o .infixOp = some d) :
    (binary left o right).waiting ops = d.rightBinding :: right.waiting ops := by
  rw [waiting, h]
  rfl

theorem waiting_unary (h : ops.operator? o .prefixOp = some d) :
    (unary o operand).waiting ops = d.level.rank :: operand.waiting ops := by
  rw [waiting, rank?, h]
  rfl

theorem isWellNested_binary (h : ops.operator? o .infixOp = some d) :
    (binary left o right).isWellNested ops = true ↔
      (left.isSuffixed = true ∨ d.leftBinding ≤ left.tightness ops) ∧
        (right.isUnary = true ∨ d.rightBinding ≤ right.tightness ops) ∧
        left.isWellNested ops = true ∧ right.isWellNested ops = true := by
  rw [isWellNested, h]
  simp only [Bool.and_eq_true, Bool.or_eq_true, decide_eq_true_eq, and_assoc]

theorem isWellNested_unary (h : ops.operator? o .prefixOp = some d) :
    (unary o operand).isWellNested ops = true ↔
      d.level.rank ≤ operand.tightness ops ∧ operand.isWellNested ops = true := by
  rw [isWellNested, h]
  simp only [Bool.and_eq_true, decide_eq_true_eq]

theorem isWellNested_suffixed (h : ops.operator? o .postfixOp = some d) :
    (suffixed operand o).isWellNested ops = true ↔
      d.level.rank ≤ operand.tightness ops ∧ operand.isWellNested ops = true := by
  rw [isWellNested, h]
  simp only [Bool.and_eq_true, decide_eq_true_eq]

/-- **A well nested tree is well nested in all its parts.** -/
theorem isWellNested_of_mem_parts {e : Expr} (h : e.isWellNested ops = true) :
    ∀ p ∈ e.parts, p.isWellNested ops = true := by
  refine forall_mem_parts (P := fun p => p.isWellNested ops = true) (fun e he => ?_) h
  cases e with
  | literal | var => nofun
  | binary left o right =>
    cases hd : ops.operator? o .infixOp with
    | none => rw [isWellNested, hd] at he; cases he
    | some d =>
      obtain ⟨_, _, hl, hr⟩ := (isWellNested_binary hd).mp he
      exact List.forall_mem_cons.mpr ⟨hl, List.forall_mem_singleton.mpr hr⟩
  | unary o operand =>
    cases hd : ops.operator? o .prefixOp with
    | none => rw [isWellNested, hd] at he; cases he
    | some d => exact List.forall_mem_singleton.mpr ((isWellNested_unary hd).mp he).2
  | suffixed operand o =>
    cases hd : ops.operator? o .postfixOp with
    | none => rw [isWellNested, hd] at he; cases he
    | some d => exact List.forall_mem_singleton.mpr ((isWellNested_suffixed hd).mp he).2
  | call function arguments =>
    rw [isWellNested, areWellNested_iff] at he
    exact he
  | group inner => exact List.forall_mem_singleton.mpr he

/-! ## From fitting to well nested -/

variable {g : Grammar} {e : Expr} {n : Nat}

/-- Whether no operator stands at the head of an expression. -/
def isAtom : Expr → Bool
  | literal _ _ => true
  | var _ => true
  | call _ _ => true
  | group _ => true
  | _ => false

/-- What has no operator at its head lies on the top rungs. -/
theorem le_tightness_of_isAtom (h : e.isAtom = true) : Level.function.rank ≤ e.tightness ops := by
  cases e with
  | literal | var => exact (by decide : Level.function.rank ≤ Level.value.rank)
  | group => exact (by decide : Level.function.rank ≤ Level.grouping.rank)
  | call => exact Nat.le_refl _
  | binary | unary | suffixed => cases h

/-- A tree on whose left edge no operator lies below a level binds as tightly as
that, unless it begins with an operator or has none at its head. -/
theorem Fits.least_le_tightness_or_isAtom (h : e.Fits g)
    (least : ∀ r ∈ e.ranks g.operators, n ≤ r) :
    e.isUnary = true ∨ e.isAtom = true ∨ n ≤ e.tightness g.operators := by
  cases h with
  | binary _ hd _ _ _ _ =>
    rw [ranks_binary hd] at least
    rw [tightness_binary hd]
    exact .inr (.inr (least _ List.mem_cons_self))
  | suffixed hd _ _ =>
    rw [ranks_suffixed hd] at least
    rw [tightness_suffixed hd]
    exact .inr (.inr (least _ List.mem_cons_self))
  | unary _ _ _ => exact .inl rfl
  | literal | var | call _ _ _ | group _ => exact .inr (.inl rfl)

/-- A tree on whose left edge no operator lies below a level binds as tightly as
that, unless it begins with an operator. -/
theorem Fits.least_le_tightness (h : e.Fits g) (hn : n ≤ Level.function.rank)
    (least : ∀ r ∈ e.ranks g.operators, n ≤ r) :
    e.isUnary = true ∨ n ≤ e.tightness g.operators := by
  rcases h.least_le_tightness_or_isAtom least with hu | ha | hle
  · exact .inl hu
  · exact .inr (Nat.le_trans hn (le_tightness_of_isAtom ha))
  · exact .inr hle

/-- A chain of operators between operands, of this rung and read from the left, stands at
the head of the expression. -/
def IsLeftChain (ops : Table OperatorEntry) (n : Nat) (e : Expr) : Prop :=
  ∃ left o right d, e = binary left o right ∧ ops.operator? o .infixOp = some d ∧
    d.associativity = .left ∧ d.level.rank = n

/-- An operator below everything that waits at the end of a tree lies below the
tree. Three trees are apart: one that ends with its operator, one that has no operator at
its head, and a chain of the operator's own rung that is read from the left. -/
theorem Fits.rank_lt_tightness_or_isAtom (h : e.Fits g)
    (above : ∀ m ∈ e.waiting g.operators, n < m) :
    e.isSuffixed = true ∨ e.isAtom = true ∨ n < e.tightness g.operators ∨
      e.IsLeftChain g.operators n := by
  cases h with
  | @binary left right o d _ hd _ _ _ _ =>
    rw [waiting_binary hd] at above
    rw [tightness_binary hd]
    have hlt := above _ List.mem_cons_self
    cases ha : d.associativity with
    | right =>
      rw [OperatorEntry.rightBinding, ha] at hlt
      exact .inr (.inr (.inl hlt))
    | left =>
      rw [OperatorEntry.rightBinding, ha] at hlt
      rcases Nat.lt_or_eq_of_le (Nat.le_of_lt_succ hlt) with hlt | heq
      · exact .inr (.inr (.inl hlt))
      · exact .inr (.inr (.inr ⟨left, o, right, d, rfl, hd, ha, heq.symm⟩))
  | unary hd _ _ =>
    rw [waiting_unary hd] at above
    rw [tightness_unary hd]
    exact .inr (.inr (.inl (above _ List.mem_cons_self)))
  | suffixed _ _ _ => exact .inl rfl
  | literal | var | call _ _ _ | group _ => exact .inr (.inl rfl)

theorem IsLeftChain.tightness_eq (h : e.IsLeftChain ops n) : e.tightness ops = n := by
  obtain ⟨_, _, _, d, rfl, hd, _, hr⟩ := h
  rw [tightness_binary hd, hr]

/-- An operator on the ladder that lies below everything that waits at the end of a tree
lies below the tree, or the tree ends with its operator or is a chain of that rung. -/
theorem Fits.rank_lt_tightness (h : e.Fits g) (hn : n ≤ Level.suffix.rank)
    (above : ∀ m ∈ e.waiting g.operators, n < m) :
    e.isSuffixed = true ∨ n < e.tightness g.operators ∨ e.IsLeftChain g.operators n := by
  rcases h.rank_lt_tightness_or_isAtom above with hs | ha | hlt | hchain
  · exact .inl hs
  · exact .inr (.inl (Nat.lt_of_le_of_lt hn (le_tightness_of_isAtom ha)))
  · exact .inr (.inl hlt)
  · exact .inr (.inr hchain)

/-- An operator between operands finds on its left what it asks for. -/
theorem Fits.leftBinding_le (h : e.Fits g) (hg : g.Laddered)
    (hd : g.operators.operator? o .infixOp = some d)
    (above : ∀ m ∈ e.waiting g.operators, d.level.rank < m) :
    e.isSuffixed = true ∨ d.leftBinding ≤ e.tightness g.operators := by
  obtain ⟨hm, _, hf⟩ := Table.of_operator? hd
  have hle : d.leftBinding ≤ d.level.rank + 1 := by
    unfold OperatorEntry.leftBinding
    split <;> omega
  rcases h.rank_lt_tightness (hg.low d hm) above with hs | hlt | hchain
  · exact .inl hs
  · exact .inr (Nat.le_trans hle hlt)
  · -- a chain of one rung is read one way
    rw [hchain.tightness_eq]
    obtain ⟨_, _, _, d', _, hd', ha, hr⟩ := hchain
    obtain ⟨hm', _, hf'⟩ := Table.of_operator? hd'
    have hleft := (hg.infixes d' hm' d hm hf' hf (Level.rank_injective hr)).symm.trans ha
    rw [OperatorEntry.leftBinding, hleft]
    exact .inr (Nat.le_refl _)

/-- An operator behind its operand binds no more tightly than the operand. -/
theorem Fits.suffix_le (h : e.Fits g) (hg : g.Laddered)
    (hd : g.operators.operator? o .postfixOp = some d)
    (above : ∀ m ∈ e.waiting g.operators, d.level.rank < m) :
    d.level.rank ≤ e.tightness g.operators := by
  obtain ⟨hm, _, hf⟩ := Table.of_operator? hd
  rcases h.rank_lt_tightness (hg.low d hm) above with hs | hlt | hchain
  · cases h with
    | suffixed hd' _ _ =>
      obtain ⟨hm', _, hf'⟩ := Table.of_operator? hd'
      refine Nat.le_of_eq ?_
      rw [tightness_suffixed hd', hg.postfixes d hm _ hm' hf hf']
    | _ => cases hs
  · exact Nat.le_of_lt hlt
  · exact Nat.le_of_eq hchain.tightness_eq.symm

/-- An operator in front binds no more tightly than what it stands in front of. -/
theorem Fits.prefix_le (h : e.Fits g) (hg : g.Laddered)
    (hd : g.operators.operator? o .prefixOp = some d)
    (least : ∀ r ∈ e.ranks g.operators, d.level.rank ≤ r) :
    d.level.rank ≤ e.tightness g.operators := by
  obtain ⟨hm, _, hf⟩ := Table.of_operator? hd
  have hlow : d.level.rank ≤ Level.function.rank := Nat.le_trans (hg.low d hm) (by decide)
  rcases h.least_le_tightness hlow least with hu | hle
  · cases h with
    | unary hd' _ _ =>
      obtain ⟨hm', _, hf'⟩ := Table.of_operator? hd'
      refine Nat.le_of_eq ?_
      rw [tightness_unary hd', hg.prefixes d hm _ hm' hf hf']
    | _ => cases hu
  · exact hle

/-- **On a ladder, what fits is well nested.** -/
theorem isWellNested_of_fits (hg : g.Laddered) (h : e.Fits g) :
    e.isWellNested g.operators = true := by
  induction h with
  | literal => rfl
  | var => rfl
  | @binary left right o d _ hd hl hr above least ihl ihr =>
    have hlow : d.rightBinding ≤ Level.function.rank := by
      have hle := hg.low d (Table.of_operator? hd).1
      rw [OperatorEntry.rightBinding]
      split
      · exact Nat.succ_le_succ hle
      · exact Nat.le_trans hle (by decide)
    exact (isWellNested_binary hd).mpr
      ⟨hl.leftBinding_le hg hd above, hr.least_le_tightness hlow least, ihl, ihr⟩
  | unary hd hx least ih => exact (isWellNested_unary hd).mpr ⟨hx.prefix_le hg hd least, ih⟩
  | suffixed hd hx above ih => exact (isWellNested_suffixed hd).mpr ⟨hx.suffix_le hg hd above, ih⟩
  | call _ _ _ ih =>
    rw [isWellNested, areWellNested_iff]
    exact ih
  | group _ ih => exact ih

end Expr

end CalcSyntax
