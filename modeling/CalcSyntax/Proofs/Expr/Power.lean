import CalcSyntax.Proofs.Expr.Ladder

/-!
# Power — the trees of the calculator that fit

On the calculator's table a tree fits if it is well nested and one thing
more. Only the power binds more tightly than the operators in front of an
operand. So a power whose exponent begins with such an operator takes the
next power into that exponent: `2 ^ -3 ^ 4` is `2 ^ -(3 ^ 4)`. The tree that
would have the first power on the left has no text of its own.

## What is proved

`fits_calculator_iff` — a tree over the calculator's words fits if and only
if it is well nested and no power takes another one in (`isUncaptured`).
-/

set_option autoImplicit false

namespace CalcSyntax

namespace Expr

/-- Whether the expression is a power whose exponent begins with an operator. -/
def capturesPower : Expr → Bool
  | binary _ operator right => operator == "^" && right.isUnary
  | _ => false

mutual

/-- Whether no power has, as its left operand, a power whose exponent begins with
an operator. -/
def isUncaptured : Expr → Bool
  | literal _ _ => true
  | var _ => true
  | binary left operator right =>
    !(operator == "^" && left.capturesPower) && left.isUncaptured && right.isUncaptured
  | unary _ operand => operand.isUncaptured
  | suffixed operand _ => operand.isUncaptured
  | call _ arguments => areUncaptured arguments
  | group inner => inner.isUncaptured

/-- Whether that holds of every expression of a list. -/
def areUncaptured : List Expr → Bool
  | [] => true
  | e :: es => e.isUncaptured && areUncaptured es

end

theorem areUncaptured_iff {es : List Expr} :
    areUncaptured es = true ↔ ∀ e ∈ es, e.isUncaptured = true := by
  induction es with
  | nil => exact iff_of_true rfl nofun
  | cons e es ih => rw [areUncaptured, Bool.and_eq_true, ih, List.forall_mem_cons]

/-! ## The calculator's table -/

/-- The calculator's operators. -/
abbrev calcOps : Table OperatorEntry := Grammar.calculator.operators

/-- Every operator between operands is read from the left, and all but the power
lie below the operators in front. -/
theorem infix_facts {o : String} {d : OperatorEntry} (h : calcOps.operator? o .infixOp = some d) :
    d.rightBinding = d.level.rank + 1 ∧ d.leftBinding = d.level.rank ∧
      (o ≠ "^" ∧ d.level.rank ≤ 7 ∨ o = "^" ∧ d.level.rank = 10) := by
  obtain ⟨hm, rfl, hf⟩ := Table.of_operator? h
  have key : ∀ d ∈ calculatorOperators, d.fixity = .infixOp →
      d.rightBinding = d.level.rank + 1 ∧ d.leftBinding = d.level.rank ∧
        (d.symbol ≠ "^" ∧ d.level.rank ≤ 7 ∨ d.symbol = "^" ∧ d.level.rank = 10) := by decide
  exact key d hm hf

theorem prefix_rank {o : String} {d : OperatorEntry} (h : calcOps.operator? o .prefixOp = some d) :
    d.level.rank = 9 := by
  obtain ⟨hm, _, hf⟩ := Table.of_operator? h
  have key : ∀ d ∈ calculatorOperators, d.fixity = .prefixOp → d.level.rank = 9 := by decide
  exact key d hm hf

theorem no_postfixOp (o : String) : calcOps.operator? o .postfixOp = none := by
  cases h : calcOps.operator? o .postfixOp with
  | none => rfl
  | some d =>
    obtain ⟨hm, _, hf⟩ := Table.of_operator? h
    have key : ∀ d ∈ calculatorOperators, d.fixity ≠ .postfixOp := by decide
    exact absurd hf (key d hm)

variable {e left right operand : Expr} {o : String} {d : OperatorEntry}

theorem tightness_prefixed (h : calcOps.operator? o .prefixOp = some d) :
    (unary o operand).tightness calcOps = 9 := by
  rw [tightness_unary h, prefix_rank h]

theorem waiting_infixed (h : calcOps.operator? o .infixOp = some d) :
    (binary left o right).waiting calcOps = (d.level.rank + 1) :: right.waiting calcOps := by
  rw [waiting_binary h, (infix_facts h).1]

theorem waiting_prefixed (h : calcOps.operator? o .prefixOp = some d) :
    (unary o operand).waiting calcOps = 9 :: operand.waiting calcOps := by
  rw [waiting_unary h, prefix_rank h]

/-- A tree of the calculator is an operator between operands, one in front of its
operand, or holds together more tightly than any operator. -/
theorem shape_of_isOver (h : e.IsOver .calculator) :
    (∃ left o right d, e = binary left o right ∧ calcOps.operator? o .infixOp = some d) ∨
      (∃ o operand d, e = unary o operand ∧ calcOps.operator? o .prefixOp = some d) ∨
      12 ≤ e.tightness calcOps ∧ e.waiting calcOps = [] ∧ e.ranks calcOps = [] := by
  cases h with
  | binary registered _ _ => exact .inl ⟨_, _, _, _, rfl, registered⟩
  | unary registered _ => exact .inr (.inl ⟨_, _, _, rfl, registered⟩)
  | suffixed registered _ => rw [no_postfixOp] at registered; cases registered
  | integer _ | float _ | var _ | call _ _ _ | group _ =>
    exact .inr (.inr ⟨by rw [tightness]; decide, rfl, rfl⟩)

theorem isWellNested_infixed (h : calcOps.operator? o .infixOp = some d) :
    (binary left o right).isWellNested calcOps = true ↔
      (left.isSuffixed = true ∨ d.level.rank ≤ left.tightness calcOps) ∧
        (right.isUnary = true ∨ d.level.rank + 1 ≤ right.tightness calcOps) ∧
        left.isWellNested calcOps = true ∧ right.isWellNested calcOps = true := by
  obtain ⟨hr, hl, _⟩ := infix_facts h
  rw [isWellNested_binary h, hr, hl]

theorem isWellNested_prefixed (h : calcOps.operator? o .prefixOp = some d) :
    (unary o operand).isWellNested calcOps = true ↔
      9 ≤ operand.tightness calcOps ∧ operand.isWellNested calcOps = true := by
  rw [isWellNested_unary h, prefix_rank h]

/-! ## From fitting to uncaptured -/

theorem nine_waits_of_capturesPower (h : e.IsOver .calculator) (hc : e.capturesPower = true) :
    9 ∈ e.waiting calcOps := by
  cases h with
  | @binary left right o d hd _ hr =>
    obtain ⟨_, hunary⟩ := Bool.and_eq_true_iff.mp hc
    cases hr with
    | unary hd' _ =>
      rw [waiting_infixed hd, waiting_prefixed hd']
      exact List.mem_cons_of_mem _ List.mem_cons_self
    | _ => cases hunary
  | _ => cases hc

/-- In a tree that fits no power captures another: what it would capture with
waits at its end, below the power. -/
theorem isUncaptured_of_fits (h : e.IsOver .calculator) (hf : e.Fits .calculator) :
    e.isUncaptured = true := by
  induction hf with
  | literal => rfl
  | var => rfl
  | @binary left right o d _ hd _ _ above _ ihl ihr =>
    cases h with
    | binary _ hl hr =>
      have hcaptured : (o == "^" && left.capturesPower) = false := by
        refine Bool.eq_false_iff.mpr ?_
        intro hboth
        obtain ⟨ho, hc⟩ := Bool.and_eq_true_iff.mp hboth
        have h9 := above 9 (nine_waits_of_capturesPower hl hc)
        rcases (infix_facts hd).2.2 with ⟨hne, _⟩ | ⟨_, h10⟩
        · exact hne (eq_of_beq ho)
        · omega
      rw [isUncaptured, hcaptured, ihl hl, ihr hr]
      rfl
  | unary _ _ _ ih =>
    cases h with
    | unary _ hx => exact ih hx
  | suffixed hd _ _ => rw [no_postfixOp] at hd; cases hd
  | call _ _ _ ih =>
    cases h with
    | call _ _ hs =>
      rw [isUncaptured, areUncaptured_iff]
      intro a ha
      exact ih a ha (hs a ha)
  | group _ ih =>
    cases h with
    | group hi => exact ih hi

/-! ## From well nested to fitting -/

/-- On the left edge operators bind more and more tightly. -/
theorem tightness_le_ranks (h : e.IsOver .calculator) (hw : e.isWellNested calcOps = true) :
    ∀ r ∈ e.ranks calcOps, e.tightness calcOps ≤ r := by
  induction h with
  | @binary left right o d hd hl _ ihl _ =>
    obtain ⟨hleft, _, wl, _⟩ := (isWellNested_infixed hd).mp hw
    rw [ranks_binary hd, tightness_binary hd]
    refine List.forall_mem_cons.mpr ⟨Nat.le_refl _, ?_⟩
    intro r hr
    have hle := ihl wl r hr
    rcases hleft with hs | ht
    · cases hl with
      | suffixed hd' _ => rw [no_postfixOp] at hd'; cases hd'
      | _ => cases hs
    · omega
  | suffixed hd _ => rw [no_postfixOp] at hd; cases hd
  | _ => nofun

/-- The levels that wait at the end of a tree. -/
theorem waiting_values (h : e.IsOver .calculator) :
    ∀ m ∈ e.waiting calcOps, m ≤ 9 ∨ m = 11 := by
  induction h with
  | @binary left right o d hd _ _ _ ihr =>
    have := infix_facts hd
    rw [waiting_infixed hd]
    exact List.forall_mem_cons.mpr ⟨by omega, ihr⟩
  | @unary operand o d hd _ ih =>
    rw [waiting_prefixed hd]
    exact List.forall_mem_cons.mpr ⟨.inl (Nat.le_refl 9), ih⟩
  | _ => nofun

/-- What waits at the end of a well nested tree lies above the tree, the operands of
operators in front apart. -/
theorem waiting_above (h : e.IsOver .calculator) (hw : e.isWellNested calcOps = true) :
    ∀ m ∈ e.waiting calcOps, m = 9 ∨ e.tightness calcOps < m := by
  induction h with
  | @binary left right o d hd _ hr _ ihr =>
    obtain ⟨_, hright, _, wr⟩ := (isWellNested_infixed hd).mp hw
    have hrank := infix_facts hd
    rw [waiting_infixed hd, tightness_binary hd]
    refine List.forall_mem_cons.mpr ⟨by omega, ?_⟩
    intro m hm
    have hval := waiting_values hr m hm
    rcases ihr wr m hm with h9 | hlt
    · exact .inl h9
    · rcases hright with hu | ht
      · cases hr with
        | unary hd' _ =>
          rw [tightness_prefixed hd'] at hlt
          omega
        | _ => cases hu
      · omega
  | @unary operand o d hd _ ih =>
    obtain ⟨ht, wx⟩ := (isWellNested_prefixed hd).mp hw
    rw [waiting_prefixed hd, tightness_prefixed hd]
    refine List.forall_mem_cons.mpr ⟨.inl rfl, ?_⟩
    intro m hm
    have := ih wx m hm
    omega
  | _ => nofun

/-- An operator in front waits at the end of a tree that binds as tightly as a power
only if the tree is a power that captures. -/
theorem capturesPower_of_nine_waits (h : e.IsOver .calculator)
    (hw : e.isWellNested calcOps = true) (ht : 10 ≤ e.tightness calcOps)
    (h9 : 9 ∈ e.waiting calcOps) : e.capturesPower = true := by
  cases h with
  | @binary left right o d hd _ hr =>
    obtain ⟨_, hright, _, wr⟩ := (isWellNested_infixed hd).mp hw
    rw [tightness_binary hd] at ht
    obtain ⟨ho, h10⟩ : o = "^" ∧ d.level.rank = 10 :=
      (infix_facts hd).2.2.resolve_left fun hne => by omega
    rw [waiting_infixed hd, List.mem_cons] at h9
    have h9 := h9.resolve_left (by omega)
    have hu : right.isUnary = true := by
      refine hright.resolve_right ?_
      intro hle
      rcases shape_of_isOver hr with ⟨l, o', r, d', rfl, hd'⟩ | ⟨o', x, d', rfl, hd'⟩ | ⟨_, hn, _⟩
      · have := infix_facts hd'
        rw [tightness_binary hd'] at hle
        omega
      · rw [tightness_prefixed hd'] at hle
        omega
      · rw [hn] at h9
        cases h9
    rw [capturesPower, ho, hu]
    rfl
  | unary hd _ =>
    rw [tightness_prefixed hd] at ht
    omega
  | suffixed hd _ => rw [no_postfixOp] at hd; cases hd
  | _ => cases h9

theorem fits_of_wellNested (h : e.IsOver .calculator) (hw : e.isWellNested calcOps = true)
    (hu : e.isUncaptured = true) : e.Fits .calculator := by
  induction h with
  | integer _ => exact .literal
  | float _ => exact .literal
  | var _ => exact .var
  | @binary left right o d hd hl hr ihl ihr =>
    obtain ⟨hleft, hright, wl, wr⟩ := (isWellNested_infixed hd).mp hw
    rw [isUncaptured, Bool.and_eq_true, Bool.and_eq_true, Bool.not_eq_true'] at hu
    obtain ⟨⟨hc, ul⟩, ur⟩ := hu
    have hrank := infix_facts hd
    refine .binary (no_postfixOp o) hd (ihl wl ul) (ihr wr ur) ?_ ?_
    · intro m hm
      have hle : d.level.rank ≤ left.tightness calcOps := by
        refine hleft.resolve_left ?_
        intro hs
        cases hl with
        | suffixed hd' _ => rw [no_postfixOp] at hd'; cases hd'
        | _ => cases hs
      rcases waiting_above hl wl m hm with rfl | hlt
      · rcases hrank.2.2 with ⟨_, h7⟩ | ⟨rfl, h10⟩
        · omega
        · have := capturesPower_of_nine_waits hl wl (by omega) hm
          rw [this] at hc
          cases hc
      · omega
    · rw [hrank.1]
      intro r hr'
      rcases hright with hunary | hle
      · cases hr with
        | unary _ _ => cases hr'
        | _ => cases hunary
      · have := tightness_le_ranks hr wr r hr'
        omega
  | @unary operand o d hd hx ih =>
    obtain ⟨ht, wx⟩ := (isWellNested_prefixed hd).mp hw
    refine .unary hd (ih wx hu) ?_
    intro r hr
    have := tightness_le_ranks hx wx r hr
    rw [prefix_rank hd]
    omega
  | suffixed hd _ => rw [no_postfixOp] at hd; cases hd
  | call registered accepts _ ih =>
    rw [isWellNested, areWellNested_iff] at hw
    rw [isUncaptured, areUncaptured_iff] at hu
    exact .call registered accepts fun a ha => ih a ha (hw a ha) (hu a ha)
  | group _ ih => exact .group (ih hw hu)

/-- **On the calculator's table a tree fits if and only if it is well nested and no
power captures another.** -/
theorem fits_calculator_iff (h : e.IsOver .calculator) :
    e.Fits .calculator ↔ e.isWellNested calcOps = true ∧ e.isUncaptured = true := by
  constructor
  · intro hf
    exact ⟨isWellNested_of_fits Grammar.laddered_calculator hf, isUncaptured_of_fits h hf⟩
  · intro ⟨hw, hu⟩
    exact fits_of_wellNested h hw hu

end Expr

end CalcSyntax
