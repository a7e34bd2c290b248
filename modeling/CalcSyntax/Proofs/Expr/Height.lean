import CalcSyntax.Proofs.Expr.Loose

/-!
# Height — how far down a tree goes

The limit on nesting counts the readings that are open at once (`Expr.levels`).
A chain of operators is read by one loop, which puts all that it has so far on
the left of the next operator, so the height of a tree grows with the length of
its chains and no limit on levels bounds it.

What the limit does bound is the height in storeys (`Expr.storeys`), where the
links of a chain on one rung share a storey. Down the left edge of a tree the
rungs never fall, and each time they rise a new storey begins. So one level has
no more storeys than the ladder has rungs, and one for the operand at its foot.

## What is proved

- `Expr.Fits.storeys_le` — a tree that fits has so many storeys to a level at
  most, if no operator stands behind its operand.
- `Expr.height_le_storeys_mul` — no storey is higher than the longest chain.
- `Expr.nested_le_of_mem_parts` — a part opens no more levels than the whole.
-/

set_option autoImplicit false

namespace CalcSyntax

namespace Level

theorem rank_pos (l : Level) : 0 < l.rank := by cases l <;> decide

theorem rank_le (l : Level) : l.rank ≤ ladder.length := by cases l <;> decide

end Level

namespace Expr

/-! ## Measures -/

mutual

/-- How many nodes there are on the longest way from the root down. -/
def height : Expr → Nat
  | literal _ _ => 1
  | var _ => 1
  | binary left _ right => 1 + max left.height right.height
  | unary _ operand => 1 + operand.height
  | suffixed operand _ => 1 + operand.height
  | call _ arguments => 1 + heightAll arguments
  | group inner => 1 + inner.height

/-- The height of the highest expression of a list. -/
def heightAll : List Expr → Nat
  | [] => 0
  | e :: es => max e.height (heightAll es)

end

variable (ops : Table OperatorEntry)

/-- Whether an operator between operands, of this rank, stands at the head. -/
def isLink (rank : Nat) : Expr → Bool
  | binary _ operator _ => rankOf ops operator .infixOp == rank
  | _ => false

mutual

/-- The height, where a chain of operators on one rung counts as one node. -/
def storeys : Expr → Nat
  | literal _ _ => 1
  | var _ => 1
  | binary left operator right =>
    if left.isLink ops (rankOf ops operator .infixOp) then max left.storeys (1 + right.storeys)
    else 1 + max left.storeys right.storeys
  | unary _ operand => 1 + operand.storeys
  | suffixed operand _ => 1 + operand.storeys
  | call _ arguments => 1 + storeysAll arguments
  | group inner => 1 + inner.storeys

/-- The storeys of the expression of a list that has most. -/
def storeysAll : List Expr → Nat
  | [] => 0
  | e :: es => max e.storeys (storeysAll es)

end

/-- How many operators the chain at the head has. Anything that is no chain counts as
one of a single link. -/
def links : Expr → Nat
  | binary left operator _ =>
    if left.isLink ops (rankOf ops operator .infixOp) then left.links + 1 else 1
  | _ => 1

mutual

/-- The links of the longest chain anywhere in the tree. -/
def longestChain : Expr → Nat
  | literal _ _ => 1
  | var _ => 1
  | binary left operator right =>
    max ((binary left operator right).links ops) (max left.longestChain right.longestChain)
  | unary _ operand => operand.longestChain
  | suffixed operand _ => operand.longestChain
  | call _ arguments => longestChainAll arguments
  | group inner => inner.longestChain

/-- The links of the longest chain in the expressions of a list. -/
def longestChainAll : List Expr → Nat
  | [] => 1
  | e :: es => max e.longestChain (longestChainAll es)

end

variable {ops} {e : Expr} {es : List Expr} {n : Nat}

theorem heightAll_le_iff : heightAll es ≤ n ↔ ∀ e ∈ es, e.height ≤ n := by
  induction es with
  | nil => exact iff_of_true (Nat.zero_le n) nofun
  | cons e es ih => rw [heightAll, Nat.max_le, ih, List.forall_mem_cons]

theorem storeysAll_le_iff : storeysAll ops es ≤ n ↔ ∀ e ∈ es, e.storeys ops ≤ n := by
  induction es with
  | nil => exact iff_of_true (Nat.zero_le n) nofun
  | cons e es ih => rw [storeysAll, Nat.max_le, ih, List.forall_mem_cons]

theorem longestChain_le_longestChainAll :
    ∀ e ∈ es, e.longestChain ops ≤ longestChainAll ops es := by
  induction es with
  | nil => nofun
  | cons e es ih =>
    refine List.forall_mem_cons.mpr ⟨Nat.le_max_left _ _, fun a ha => ?_⟩
    exact Nat.le_trans (ih a ha) (Nat.le_max_right _ _)

/-! ## Storeys and chains -/

theorem one_le_longestChain (e : Expr) : 1 ≤ e.longestChain ops := by
  induction e using Expr.induction with
  | literal | var => exact Nat.le_refl 1
  | binary left operator right ihl _ =>
    exact Nat.le_trans ihl (Nat.le_trans (Nat.le_max_left _ _) (Nat.le_max_right _ _))
  | unary _ _ ih | suffixed _ _ ih | group _ ih => exact ih
  | call function arguments ih =>
    cases arguments with
    | nil => exact Nat.le_refl 1
    | cons a as => exact Nat.le_trans (ih a List.mem_cons_self) (Nat.le_max_left _ _)

theorem links_le_longestChain (e : Expr) : e.links ops ≤ e.longestChain ops := by
  cases e with
  | binary => exact Nat.le_max_left _ _
  | _ => exact one_le_longestChain _

/-- Below a chain every storey is as high as the longest chain at most, and the chain
itself is as high as it has links. -/
theorem height_add_le (e : Expr) (hn : e.longestChain ops ≤ n) :
    e.height + n ≤ e.links ops + e.storeys ops * n := by
  have hlinks (a : Expr) (ha : a.longestChain ops ≤ n) : a.links ops ≤ n :=
    Nat.le_trans (links_le_longestChain a) ha
  -- one storey more leaves room for the chain of the storey below
  have above {below : Expr} (hbelow : below.longestChain ops ≤ n)
      (ih : below.height + n ≤ below.links ops + below.storeys ops * n) :
      1 + below.height + n ≤ 1 + (1 + below.storeys ops) * n := by
    have hl := hlinks below hbelow
    rw [Nat.add_mul, Nat.one_mul]
    omega
  induction e using Expr.induction with
  | literal | var => exact Nat.le_of_eq (congrArg (1 + ·) (Nat.one_mul n).symm)
  | binary left operator right ihl ihr =>
    obtain ⟨_, hsides⟩ := Nat.max_le.mp hn
    obtain ⟨hl, hr⟩ := Nat.max_le.mp hsides
    have ihl := ihl hl
    have hright := above hr (ihr hr)
    rw [height, links, storeys]
    split
    · have hmul : left.storeys ops * n ≤ max (left.storeys ops) (1 + right.storeys ops) * n :=
        Nat.mul_le_mul_right n (Nat.le_max_left _ _)
      have hmul' : (1 + right.storeys ops) * n ≤
          max (left.storeys ops) (1 + right.storeys ops) * n :=
        Nat.mul_le_mul_right n (Nat.le_max_right _ _)
      omega
    · have hleft := above hl ihl
      have hmul : (1 + left.storeys ops) * n ≤
          (1 + max (left.storeys ops) (right.storeys ops)) * n :=
        Nat.mul_le_mul_right n (Nat.add_le_add_left (Nat.le_max_left _ _) 1)
      have hmul' : (1 + right.storeys ops) * n ≤
          (1 + max (left.storeys ops) (right.storeys ops)) * n :=
        Nat.mul_le_mul_right n (Nat.add_le_add_left (Nat.le_max_right _ _) 1)
      omega
  | unary _ _ ih | suffixed _ _ ih | group _ ih => exact above hn (ih hn)
  | call function arguments ih =>
    rw [longestChain] at hn
    have hall : heightAll arguments ≤ storeysAll ops arguments * n := by
      apply heightAll_le_iff.mpr
      intro a ha
      have hchain := Nat.le_trans (longestChain_le_longestChainAll a ha) hn
      have hstorey : a.storeys ops * n ≤ storeysAll ops arguments * n :=
        Nat.mul_le_mul_right n (storeysAll_le_iff.mp (Nat.le_refl _) a ha)
      have hlink := hlinks a hchain
      have ih := ih a ha hchain
      omega
    show 1 + heightAll arguments + n ≤ 1 + (1 + storeysAll ops arguments) * n
    rw [Nat.add_mul, Nat.one_mul]
    omega

/-- **No storey is higher than the longest chain.** -/
theorem height_le_storeys_mul (e : Expr) :
    e.height ≤ e.storeys ops * e.longestChain ops := by
  have h := height_add_le e (Nat.le_refl (e.longestChain ops))
  have hlinks : e.links ops ≤ e.longestChain ops := links_le_longestChain e
  omega

/-! ## Storeys and levels -/

variable (ops) in
/-- The rank of the operator between operands at the head. Where there is none, it is
one above the ladder. -/
def headRank : Expr → Nat
  | binary _ operator _ => rankOf ops operator .infixOp
  | _ => Level.ladder.length + 1

theorem rankOf_eq {o : String} {f : Fixity} {d : OperatorEntry}
    (h : ops.operator? o f = some d) : rankOf ops o f = d.level.rank := by
  rw [rankOf, h]
  rfl

/-- An operator below all that waits at the end of a tree goes on with the chain at the
head of the tree, or lies below its operator. -/
theorem Fits.isLink_or_rank_lt {g : Grammar} (h : e.Fits g) {d : OperatorEntry}
    (above : ∀ m ∈ e.waiting g.operators, d.level.rank < m) :
    e.isLink g.operators d.level.rank = true ∨ d.level.rank < e.headRank g.operators := by
  cases h with
  | @binary left right o d' _ hd _ _ _ _ =>
    rw [waiting_binary hd] at above
    have hlt := above _ List.mem_cons_self
    have hle : d'.rightBinding ≤ d'.level.rank + 1 := by
      unfold OperatorEntry.rightBinding
      split <;> omega
    rw [isLink, headRank, rankOf_eq hd, beq_iff_eq]
    omega
  | _ => exact .inr (Nat.lt_succ_of_le d.level.rank_le)

theorem Fits.headRank_pos {g : Grammar} (h : e.Fits g) : 0 < e.headRank g.operators := by
  cases h with
  | @binary left right o d _ hd _ _ _ _ =>
    rw [headRank, rankOf_eq hd]
    exact d.level.rank_pos
  | _ => exact Nat.succ_pos _

theorem headRank_of_isLink {rank : Nat} (h : e.isLink ops rank = true) :
    e.headRank ops = rank := by
  cases e with
  | binary => exact beq_iff_eq.mp h
  | _ => cases h

/-- A tree over operators none of which stands behind its operand has so many storeys to
a level, and those above the rung of its operator are not among them. -/
theorem Fits.storeys_add_headRank_le {g : Grammar}
    (hsuffix : ∀ o, g.operators.operator? o .postfixOp = none) (h : e.Fits g) :
    e.storeys g.operators + e.headRank g.operators ≤
      (Level.ladder.length + 1) * e.levels + 1 := by
  have hladder : Level.ladder.length = 14 := rfl
  rw [hladder]
  -- what opens a level has all storeys of that level above it
  have opened {inner : Expr} (hinner : inner.Fits g)
      (ih : inner.storeys g.operators + inner.headRank g.operators ≤ (14 + 1) * inner.levels + 1) :
      1 + inner.storeys g.operators + 15 ≤ (14 + 1) * (1 + inner.levels) + 1 := by
    have hpos := hinner.headRank_pos
    omega
  induction h with
  | literal | var => exact Nat.le_refl 16
  | @binary left right o d _ hd hl hr above _ ihl ihr =>
    have hright := opened hr ihr
    have hrank := d.level.rank_le
    rw [hladder] at hrank
    have hlevels : (Expr.binary left o right).levels = 1 + max left.nested right.levels := rfl
    have hleft : left.levels = 1 + left.nested := rfl
    rw [storeys, headRank, rankOf_eq hd, hlevels]
    split
    · next hlink =>
      rw [headRank_of_isLink hlink] at ihl
      omega
    · next hlink =>
      have hlt := (hl.isLink_or_rank_lt above).resolve_left hlink
      omega
  | unary _ hx _ ih => exact opened hx ih
  | suffixed hd _ _ => rw [hsuffix] at hd; cases hd
  | @call f arguments _ _ _ hs ih =>
    have hall : storeysAll g.operators arguments ≤ (14 + 1) * nestedAll arguments := by
      apply storeysAll_le_iff.mpr
      intro a ha
      have hpos := (hs a ha).headRank_pos
      have hlevels := nestedAll_le_iff.mp (Nat.le_refl _) a ha
      have ih := ih a ha
      omega
    show 1 + storeysAll g.operators arguments + 15 ≤ (14 + 1) * (1 + nestedAll arguments) + 1
    omega
  | group hx ih => exact opened hx ih

/-- **A level has as many storeys as the ladder has rungs, and one more**, where no operator
stands behind its operand. -/
theorem Fits.storeys_le {g : Grammar} (hsuffix : ∀ o, g.operators.operator? o .postfixOp = none)
    (h : e.Fits g) : e.storeys g.operators ≤ (Level.ladder.length + 1) * e.levels := by
  have hpos := h.headRank_pos
  have hle := h.storeys_add_headRank_le hsuffix
  omega

/-! ## Parts -/

/-- A part opens no more levels than the whole. -/
theorem nested_le_of_mem_parts (e : Expr) : ∀ p ∈ e.parts, p.nested ≤ e.nested := by
  refine forall_mem_parts (P := fun p => p.nested ≤ e.nested) (fun whole hwhole => ?_) (Nat.le_refl _)
  cases whole with
  | literal | var => nofun
  | binary left operator right =>
    rw [nested] at hwhole
    exact List.forall_mem_cons.mpr ⟨by omega, List.forall_mem_singleton.mpr (by omega)⟩
  | unary _ operand | group operand =>
    rw [nested] at hwhole
    exact List.forall_mem_singleton.mpr (by omega)
  | suffixed operand _ => exact List.forall_mem_singleton.mpr hwhole
  | call function arguments =>
    intro a ha
    have hlevels := nestedAll_le_iff.mp hwhole a ha
    rw [levels] at hlevels
    omega

end Expr

end CalcSyntax
