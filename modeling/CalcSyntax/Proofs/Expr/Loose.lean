import CalcSyntax.Proofs.Expr.Ladder

/-!
# Loose — operands on a lower rung than their place asks for

`Expr.isWellNested` exempts two operands that no reader could take apart: one that
begins with its operator, on the right of an operator between operands, and one that
ends with its operator, on the left of such an operator. What cannot be taken apart is
more than that (`Expr.Loose`). An operator in front may stand in front of a looser one,
an operator behind may stand behind a looser one, a chain that is read from the left
may be the left operand of its own rung, and what has no operator at its head may stand
beside an operator of the topmost rungs.

## What is proved

- `Expr.Loose.not_isWellNested` — a tree with a loose operand at its head is not well
  nested.
- `Expr.Fits.isWellNested_iff` — a tree that reading by levels builds is well nested
  just if none of its parts has one, whatever the grammar.
-/

set_option autoImplicit false

namespace CalcSyntax

namespace Expr

/-- An operand of the operator at the head lies on a lower rung than its place asks for,
where reading by levels leaves it. -/
inductive Loose (ops : Table OperatorEntry) : Expr → Prop where
  /-- An operator in front of a looser one that stands in front itself. -/
  | prefixes {operand : Expr} {outer inner : String} {d d' : OperatorEntry}
    (houter : ops.operator? outer .prefixOp = some d)
    (hinner : ops.operator? inner .prefixOp = some d') (lower : d'.level.rank < d.level.rank) :
    Loose ops (.unary outer (.unary inner operand))
  /-- An operator behind a looser one that stands behind itself. -/
  | postfixes {operand : Expr} {outer inner : String} {d d' : OperatorEntry}
    (houter : ops.operator? outer .postfixOp = some d)
    (hinner : ops.operator? inner .postfixOp = some d') (lower : d'.level.rank < d.level.rank) :
    Loose ops (.suffixed (.suffixed operand inner) outer)
  /-- An operator that is read from the right, behind a chain of its rung that is not. -/
  | chain {left right : Expr} {o : String} {d : OperatorEntry}
    (ho : ops.operator? o .infixOp = some d) (hright : d.associativity = .right)
    (hchain : left.IsLeftChain ops d.level.rank) : Loose ops (.binary left o right)
  /-- An operator of a top rung, with no operator at the head of its operand. -/
  | atomOnLeft {left right : Expr} {o : String} {d : OperatorEntry}
    (ho : ops.operator? o .infixOp = some d) (hatom : left.isAtom = true)
    (lower : left.tightness ops < d.leftBinding) : Loose ops (.binary left o right)
  | atomOnRight {left right : Expr} {o : String} {d : OperatorEntry}
    (ho : ops.operator? o .infixOp = some d) (hatom : right.isAtom = true)
    (lower : right.tightness ops < d.rightBinding) : Loose ops (.binary left o right)
  | atomBehind {operand : Expr} {o : String} {d : OperatorEntry}
    (ho : ops.operator? o .prefixOp = some d) (hatom : operand.isAtom = true)
    (lower : operand.tightness ops < d.level.rank) : Loose ops (.unary o operand)
  | atomInFront {operand : Expr} {o : String} {d : OperatorEntry}
    (ho : ops.operator? o .postfixOp = some d) (hatom : operand.isAtom = true)
    (lower : operand.tightness ops < d.level.rank) : Loose ops (.suffixed operand o)

variable {ops : Table OperatorEntry} {g : Grammar} {e left right operand : Expr} {o : String}
  {d : OperatorEntry}

/-! ## A loose operand is found -/

theorem not_isSuffixed_of_isAtom (h : e.isAtom = true) : e.isSuffixed ≠ true := by
  cases e with
  | literal | var | call | group => exact Bool.false_ne_true
  | binary | unary | suffixed => cases h

theorem not_isUnary_of_isAtom (h : e.isAtom = true) : e.isUnary ≠ true := by
  cases e with
  | literal | var | call | group => exact Bool.false_ne_true
  | binary | unary | suffixed => cases h

/-- **A loose operand at the head is found.** -/
theorem Loose.not_isWellNested (h : e.Loose ops) : e.isWellNested ops ≠ true := by
  intro hnested
  cases h with
  | prefixes houter hinner lower =>
    have hle := ((isWellNested_unary houter).mp hnested).1
    rw [tightness_unary hinner] at hle
    omega
  | postfixes houter hinner lower =>
    have hle := ((isWellNested_suffixed houter).mp hnested).1
    rw [tightness_suffixed hinner] at hle
    omega
  | chain ho hright hchain =>
    rcases ((isWellNested_binary ho).mp hnested).1 with hs | hle
    · obtain ⟨_, _, _, _, rfl, _⟩ := hchain
      cases hs
    · rw [hchain.tightness_eq, OperatorEntry.leftBinding, hright] at hle
      exact Nat.not_succ_le_self _ hle
  | atomOnLeft ho hatom lower =>
    rcases ((isWellNested_binary ho).mp hnested).1 with hs | hle
    · exact not_isSuffixed_of_isAtom hatom hs
    · omega
  | atomOnRight ho hatom lower =>
    rcases ((isWellNested_binary ho).mp hnested).2.1 with hu | hle
    · exact not_isUnary_of_isAtom hatom hu
    · omega
  | atomBehind ho hatom lower =>
    have hle := ((isWellNested_unary ho).mp hnested).1
    omega
  | atomInFront ho hatom lower =>
    have hle := ((isWellNested_suffixed ho).mp hnested).1
    omega

/-! ## Nothing else is -/

theorem Fits.leftBinding_le_of_not_loose (h : left.Fits g)
    (hd : g.operators.operator? o .infixOp = some d)
    (above : ∀ m ∈ left.waiting g.operators, d.level.rank < m)
    (htight : ¬ (Expr.binary left o right).Loose g.operators) :
    left.isSuffixed = true ∨ d.leftBinding ≤ left.tightness g.operators := by
  rcases h.rank_lt_tightness_or_isAtom above with hs | hatom | hlt | hchain
  · exact .inl hs
  · exact .inr (Nat.le_of_not_lt fun lower => htight (.atomOnLeft hd hatom lower))
  · refine .inr (Nat.le_trans ?_ hlt)
    unfold OperatorEntry.leftBinding
    split <;> omega
  · cases ha : d.associativity with
    | left =>
      rw [OperatorEntry.leftBinding, ha, hchain.tightness_eq]
      exact .inr (Nat.le_refl _)
    | right => exact absurd (.chain hd ha hchain) htight

theorem Fits.rightBinding_le_of_not_loose (h : right.Fits g)
    (hd : g.operators.operator? o .infixOp = some d)
    (least : ∀ r ∈ right.ranks g.operators, d.rightBinding ≤ r)
    (htight : ¬ (Expr.binary left o right).Loose g.operators) :
    right.isUnary = true ∨ d.rightBinding ≤ right.tightness g.operators := by
  rcases h.least_le_tightness_or_isAtom least with hu | hatom | hle
  · exact .inl hu
  · exact .inr (Nat.le_of_not_lt fun lower => htight (.atomOnRight hd hatom lower))
  · exact .inr hle

theorem Fits.prefix_le_of_not_loose (h : operand.Fits g)
    (hd : g.operators.operator? o .prefixOp = some d)
    (least : ∀ r ∈ operand.ranks g.operators, d.level.rank ≤ r)
    (htight : ¬ (Expr.unary o operand).Loose g.operators) :
    d.level.rank ≤ operand.tightness g.operators := by
  rcases h.least_le_tightness_or_isAtom least with hu | hatom | hle
  · cases h with
    | unary hd' _ _ =>
      rw [tightness_unary hd']
      exact Nat.le_of_not_lt fun lower => htight (.prefixes hd hd' lower)
    | _ => cases hu
  · exact Nat.le_of_not_lt fun lower => htight (.atomBehind hd hatom lower)
  · exact hle

theorem Fits.suffix_le_of_not_loose (h : operand.Fits g)
    (hd : g.operators.operator? o .postfixOp = some d)
    (above : ∀ m ∈ operand.waiting g.operators, d.level.rank < m)
    (htight : ¬ (Expr.suffixed operand o).Loose g.operators) :
    d.level.rank ≤ operand.tightness g.operators := by
  rcases h.rank_lt_tightness_or_isAtom above with hs | hatom | hlt | hchain
  · cases h with
    | suffixed hd' _ _ =>
      rw [tightness_suffixed hd']
      exact Nat.le_of_not_lt fun lower => htight (.postfixes hd hd' lower)
    | _ => cases hs
  · exact Nat.le_of_not_lt fun lower => htight (.atomInFront hd hatom lower)
  · exact Nat.le_of_lt hlt
  · exact Nat.le_of_eq hchain.tightness_eq.symm

/-- **What fits is well nested just if no part has a loose operand.** Where an operand
is not loose, the edges of the tree tell how tightly it binds. -/
theorem Fits.isWellNested_iff (h : e.Fits g) :
    e.isWellNested g.operators = true ↔ ∀ p ∈ e.parts, ¬ p.Loose g.operators := by
  constructor
  · intro hnested p hp hloose
    exact hloose.not_isWellNested (isWellNested_of_mem_parts hnested p hp)
  intro htight
  induction h with
  | literal => rfl
  | var => rfl
  | binary _ hd hl hr above least ihl ihr =>
    obtain ⟨hhead, hparts⟩ := List.forall_mem_cons.mp htight
    obtain ⟨hleft, hright⟩ := List.forall_mem_append.mp hparts
    exact (isWellNested_binary hd).mpr ⟨hl.leftBinding_le_of_not_loose hd above hhead,
      hr.rightBinding_le_of_not_loose hd least hhead, ihl hleft, ihr hright⟩
  | unary hd hx least ih =>
    obtain ⟨hhead, hparts⟩ := List.forall_mem_cons.mp htight
    exact (isWellNested_unary hd).mpr ⟨hx.prefix_le_of_not_loose hd least hhead, ih hparts⟩
  | suffixed hd hx above ih =>
    obtain ⟨hhead, hparts⟩ := List.forall_mem_cons.mp htight
    exact (isWellNested_suffixed hd).mpr ⟨hx.suffix_le_of_not_loose hd above hhead, ih hparts⟩
  | call _ _ _ ih =>
    obtain ⟨_, hparts⟩ := List.forall_mem_cons.mp htight
    rw [partsAll_eq_flatMap] at hparts
    rw [isWellNested, areWellNested_iff]
    intro a ha
    exact ih a ha fun p hp => hparts p (List.mem_flatMap.mpr ⟨a, ha, hp⟩)
  | group _ ih => exact ih (List.forall_mem_cons.mp htight).2

/-- All parts of a tree that fits do. -/
theorem Fits.of_mem_parts (h : e.Fits g) : ∀ p ∈ e.parts, p.Fits g := by
  refine forall_mem_parts (fun e he => ?_) h
  cases he with
  | literal | var => nofun
  | binary _ _ hl hr _ _ => exact List.forall_mem_cons.mpr ⟨hl, List.forall_mem_singleton.mpr hr⟩
  | unary _ hx _ | suffixed _ hx _ | group hx => exact List.forall_mem_singleton.mpr hx
  | call _ _ has => exact has

end Expr

end CalcSyntax
