import CalcSyntax.Proofs.Expr.Ladder
import CalcSyntax.Proofs.Reading.Reread

/-!
# Chain — leaves with operators between them, as a tree

A chain is a leaf and links, an operator and a leaf each. Its tree can be told from
the whole of it: at the root stands the loosest operator, the last one of its level if
the level is read from the left and the first one if it is read from the right, and what
stands on either side is a shorter chain. `chainTree` is this rule. It compares all
operators before it builds anything, and mentions no least level and no order of reading.

## What is proved

- `isSplit_chainTree` — the rule as a relation, `IsSplit`, with one case for a leaf and
  one for the loosest operator. What follows is by induction on it.
- `IsSplit.tokens_eq` — the tree holds the tokens of the chain.
- `IsSplit.fits` — every operator finds operands that are tight enough. At the edges of
  a subtree stand operators of its own links only, and none of them is as loose as the
  operator that the chain was split at.
- `IsSplit.nested_le_length`, `IsSplit.nested_le_of_left` — how many levels it opens: one
  for an operator at most, and where all operators are read from the left, one for a
  rung of the ladder at most.
-/

set_option autoImplicit false

namespace CalcSyntax

variable {α : Type}

/-- The first element that meets a condition, between those before and behind it. -/
def cutFirst (p : α → Bool) : List α → Option (List α × α × List α)
  | [] => none
  | x :: xs =>
    if p x then some ([], x, xs)
    else (cutFirst p xs).map fun (before, y, after) => (x :: before, y, after)

/-- The last element that meets a condition, between those before and behind it. -/
def cutLast (p : α → Bool) : List α → Option (List α × α × List α)
  | [] => none
  | x :: xs =>
    match cutLast p xs with
    | some (before, y, after) => some (x :: before, y, after)
    | none => if p x then some ([], x, xs) else none

section

variable {p : α → Bool} {xs before after : List α} {y : α}

theorem of_cutFirst (h : cutFirst p xs = some (before, y, after)) :
    xs = before ++ y :: after ∧ p y = true ∧ ∀ z ∈ before, p z = false := by
  induction xs generalizing before with
  | nil => cases h
  | cons x xs ih =>
    rw [cutFirst] at h
    split at h
    · next hx =>
      cases h
      exact ⟨rfl, hx, nofun⟩
    · next hx =>
      obtain ⟨⟨before', y', after'⟩, hcut, heq⟩ := Option.map_eq_some_iff.mp h
      cases heq
      obtain ⟨rfl, hy, hbefore⟩ := ih hcut
      exact ⟨rfl, hy, List.forall_mem_cons.mpr ⟨Bool.eq_false_iff.mpr hx, hbefore⟩⟩

theorem cutFirst_eq_none_iff : cutFirst p xs = none ↔ ∀ x ∈ xs, p x = false := by
  induction xs with
  | nil => exact iff_of_true rfl nofun
  | cons x xs ih =>
    rw [cutFirst, List.forall_mem_cons, ← ih]
    cases p x <;> simp

theorem cutLast_eq_none_iff : cutLast p xs = none ↔ ∀ x ∈ xs, p x = false := by
  induction xs with
  | nil => exact iff_of_true rfl nofun
  | cons x xs ih =>
    rw [cutLast, List.forall_mem_cons, ← ih]
    split
    · next hcut => simp [hcut]
    · next hcut => cases p x <;> simp [hcut]

theorem of_cutLast (h : cutLast p xs = some (before, y, after)) :
    xs = before ++ y :: after ∧ p y = true ∧ ∀ z ∈ after, p z = false := by
  induction xs generalizing before with
  | nil => cases h
  | cons x xs ih =>
    rw [cutLast] at h
    split at h
    · next before' y' after' hcut =>
      cases h
      obtain ⟨rfl, hy, hafter⟩ := ih hcut
      exact ⟨rfl, hy, hafter⟩
    · next hcut =>
      split at h
      · next hx =>
        cases h
        exact ⟨rfl, hx, cutLast_eq_none_iff.mp hcut⟩
      · cases h

end

/-- An infix operator, and the leaf behind it. -/
structure Link where
  operator : Token
  operand : Token

namespace Link

variable (ops : Table OperatorEntry) (l : Link)

/-- The rank of the operator. -/
def rank : Nat := Expr.rankOf ops l.operator.lexeme .infixOp

/-- Which way the operator is read. -/
def associativity : Associativity :=
  ((ops.operator? l.operator.lexeme .infixOp).map OperatorEntry.associativity).getD .left

end Link

/-- The kinds of token that are an expression on their own. -/
def TokenKind.isLeaf : TokenKind → Bool
  | .integer | .float | .var => true
  | _ => false

/-- A token that is an expression on its own. -/
def Token.leaf (t : Token) : Expr :=
  match t.kind with
  | .integer => .literal .integer t.lexeme
  | .float => .literal .float t.lexeme
  | _ => .var t.lexeme

/-- The tokens of a chain. -/
def chainTokens (first : Token) (links : List Link) : List Token :=
  first :: links.flatMap fun l => [l.operator, l.operand]

/-- No operator of the chain is looser. -/
def Link.isLowest (ops : Table OperatorEntry) (links : List Link) (l : Link) : Bool :=
  links.all fun m => l.rank ops ≤ m.rank ops

/-- The loosest operator of a chain, between the links before and behind it: of its level the
last if it is read from the left, and the first if it is read from the right. -/
def loosest (ops : Table OperatorEntry) (links : List Link) :
    Option (List Link × Link × List Link) :=
  match cutLast (Link.isLowest ops links) links with
  | none => none
  | some (before, l, after) =>
    if l.associativity ops = .left then some (before, l, after)
    else cutFirst (Link.isLowest ops links) links

variable {g : Grammar} {ops : Table OperatorEntry} {first : Token} {links before after : List Link}
  {l : Link} {e : Expr}

theorem eq_of_loosest (h : loosest ops links = some (before, l, after)) :
    links = before ++ l :: after := by
  unfold loosest at h
  split at h
  · cases h
  · next hcut =>
    split at h
    · cases h
      exact (of_cutLast hcut).1
    · exact (of_cutFirst h).1

/-- The tree of a chain, told from the loosest operator. -/
def chainTree (ops : Table OperatorEntry) (first : Token) (links : List Link) : Expr :=
  match _loosest : loosest ops links with
  | none => first.leaf
  | some (before, l, after) =>
    .binary (chainTree ops first before) l.operator.lexeme (chainTree ops l.operand after)
termination_by links.length
decreasing_by
  · rw [eq_of_loosest _loosest]
    simp
  · rw [eq_of_loosest _loosest, List.length_append, List.length_cons]
    omega

/-- On one level, all operators of the chain are read the same way. -/
def AgreeOnLevels (ops : Table OperatorEntry) (links : List Link) : Prop :=
  ∀ l ∈ links, ∀ m ∈ links, l.rank ops = m.rank ops → l.associativity ops = m.associativity ops

instance (ops : Table OperatorEntry) (links : List Link) : Decidable (AgreeOnLevels ops links) :=
  List.decidableBAll _ links

/-- The links of a chain of the grammar: operators that only stand between operands, and
leaves. -/
structure AreLinks (g : Grammar) (links : List Link) : Prop where
  operators : ∀ l ∈ links, g.Joins l.operator
  operands : ∀ l ∈ links, l.operand.kind.isLeaf = true
  agree : AgreeOnLevels g.operators links

theorem AgreeOnLevels.subset {some : List Link} (h : AgreeOnLevels ops links)
    (hsome : some ⊆ links) : AgreeOnLevels ops some :=
  fun l hl m hm => h l (hsome hl) m (hsome hm)

theorem AreLinks.subset {some : List Link} (h : AreLinks g links) (hsome : some ⊆ links) :
    AreLinks g some where
  operators l hl := h.operators l (hsome hl)
  operands l hl := h.operands l (hsome hl)
  agree := h.agree.subset hsome

theorem subset_before : before ⊆ before ++ l :: after := List.subset_append_left _ _

theorem mem_split : l ∈ before ++ l :: after := List.mem_append_cons_self

theorem subset_after : after ⊆ before ++ l :: after :=
  List.subset_append_of_subset_right _ (List.subset_cons_self _ _)

/-! ## The rule as a relation -/

/-- A leaf is itself. A longer chain is split at an operator that no other is looser than, and
none is as loose on the side that is read in its own right. -/
inductive IsSplit (ops : Table OperatorEntry) : Token → List Link → Expr → Prop where
  | leaf {first : Token} : IsSplit ops first [] first.leaf
  | split {first : Token} {before after : List Link} {l : Link} {left right : Expr}
    (lowest : ∀ m ∈ before ++ l :: after, l.rank ops ≤ m.rank ops)
    (fromLeft : l.associativity ops = .left → ∀ m ∈ after, l.rank ops < m.rank ops)
    (fromRight : l.associativity ops = .right → ∀ m ∈ before, l.rank ops < m.rank ops)
    (hl : IsSplit ops first before left) (hr : IsSplit ops l.operand after right) :
    IsSplit ops first (before ++ l :: after) (.binary left l.operator.lexeme right)

theorem Link.isLowest_iff : l.isLowest ops links = true ↔ ∀ m ∈ links, l.rank ops ≤ m.rank ops := by
  simp [isLowest]

/-- What is not among the loosest operators is tighter than one that is. -/
theorem Link.rank_lt_of_isLowest {m : Link} (hl : l.isLowest ops links = true)
    (hm : m.isLowest ops links = false) : l.rank ops < m.rank ops := by
  obtain ⟨k, hk, hlt⟩ : ∃ k ∈ links, k.rank ops < m.rank ops := by simpa [isLowest] using hm
  exact Nat.lt_of_le_of_lt (isLowest_iff.mp hl k hk) hlt

theorem exists_lowest (ops : Table OperatorEntry) (h : links ≠ []) : ∃ l ∈ links, l.isLowest ops links = true := by
  have hranks : links.map (Link.rank ops) ≠ [] := by simpa using h
  obtain ⟨r, hr⟩ := Option.isSome_iff_exists.mp (List.isSome_min?_of_ne_nil hranks)
  obtain ⟨hmem, hle⟩ := List.min?_eq_some_iff.mp hr
  obtain ⟨l, hl, rfl⟩ := List.mem_map.mp hmem
  exact ⟨l, hl, Link.isLowest_iff.mpr fun m hm => hle _ (List.mem_map_of_mem hm)⟩

theorem loosest_eq_none (h : loosest ops links = none) : links = [] := by
  have hnone : ∀ l ∈ links, l.isLowest ops links = false := by
    unfold loosest at h
    split at h
    · next hcut => exact cutLast_eq_none_iff.mp hcut
    · split at h
      · cases h
      · exact cutFirst_eq_none_iff.mp h
  refine Decidable.not_not.mp fun hne => ?_
  obtain ⟨l, hl, hlowest⟩ := exists_lowest ops hne
  rw [hnone l hl] at hlowest
  cases hlowest

/-- No operator is as loose as the chosen one on the side that is read in its own right. -/
theorem of_loosest (agree : AgreeOnLevels ops links)
    (h : loosest ops links = some (before, l, after)) :
    (∀ m ∈ links, l.rank ops ≤ m.rank ops) ∧
      (l.associativity ops = .left → ∀ m ∈ after, l.rank ops < m.rank ops) ∧
      (l.associativity ops = .right → ∀ m ∈ before, l.rank ops < m.rank ops) := by
  unfold loosest at h
  split at h
  · cases h
  · next before' last after' hcut =>
    obtain ⟨heq, hlast, hafter⟩ := of_cutLast hcut
    split at h
    · next hleft =>
      cases h
      refine ⟨Link.isLowest_iff.mp hlast, fun _ m hm => ?_, fun hright => ?_⟩
      · exact Link.rank_lt_of_isLowest hlast (hafter m hm)
      · rw [hleft] at hright
        cases hright
    · next hright =>
      obtain ⟨heq', hl, hbefore⟩ := of_cutFirst h
      have hle := Link.isLowest_iff.mp hl
      -- the first and the last of the loosest are on one level
      have hlevel : l.rank ops = last.rank ops :=
        Nat.le_antisymm (hle last (heq ▸ mem_split))
          (Link.isLowest_iff.mp hlast l (heq' ▸ mem_split))
      have hsame := agree l (heq' ▸ mem_split) last (heq ▸ mem_split) hlevel
      refine ⟨hle, fun hleft => ?_, fun _ m hm => ?_⟩
      · exact absurd (hsame ▸ hleft) hright
      · exact Link.rank_lt_of_isLowest hl (hbefore m hm)

/-- **The tree of a chain is split at the loosest operators**, all the way down. -/
theorem isSplit_chainTree (agree : AgreeOnLevels ops links) :
    IsSplit ops first links (chainTree ops first links) := by
  fun_induction chainTree ops first links with
  | case1 first links hnone =>
    obtain rfl := loosest_eq_none hnone
    exact .leaf
  | case2 first links before l after hsome ihl ihr =>
    obtain ⟨lowest, fromLeft, fromRight⟩ := of_loosest agree hsome
    obtain rfl := eq_of_loosest hsome
    exact .split lowest fromLeft fromRight (ihl (agree.subset subset_before))
      (ihr (agree.subset subset_after))

/-! ## What such a tree is like -/

theorem Token.tokens_leaf {t : Token} (h : t.kind.isLeaf = true) :
    t.leaf.tokens = [t.relocate fun _ => .origin] := by
  obtain ⟨kind, lexeme, span⟩ := t
  cases kind with
  | integer | float | var => rfl
  | _ => cases h

/-- The tree holds the tokens of the chain. -/
theorem IsSplit.tokens_eq (h : IsSplit g.operators first links e)
    (hfirst : first.kind.isLeaf = true) (hlinks : AreLinks g links) :
    e.tokens = (chainTokens first links).map (Token.relocate fun _ => .origin) := by
  induction h with
  | leaf => exact Token.tokens_leaf hfirst
  | @split first before after l left right _ _ _ _ _ ihl ihr =>
    have hop : Token.bare .operator l.operator.lexeme = l.operator.relocate fun _ => .origin := by
      rw [Token.bare, Token.relocate, (hlinks.operators l mem_split).1.1]
    rw [Expr.tokens, ihl hfirst (hlinks.subset subset_before),
      ihr (hlinks.operands l mem_split) (hlinks.subset subset_after), hop]
    simp [chainTokens]

theorem Link.registered (h : g.Joins l.operator) :
    ∃ d, g.operators.operator? l.operator.lexeme .infixOp = some d ∧
      d.level.rank = l.rank g.operators ∧ d.associativity = l.associativity g.operators := by
  obtain ⟨d, hd⟩ := Option.isSome_iff_exists.mp h.1.2
  refine ⟨d, hd, ?_, ?_⟩
  · rw [rank, Expr.rankOf, hd]
    rfl
  · rw [associativity, hd]
    rfl

theorem no_edges_leaf (ops : Table OperatorEntry) (t : Token) :
    t.leaf.ranks ops = [] ∧ t.leaf.waiting ops = [] ∧ t.leaf.nested = 0 := by
  unfold Token.leaf
  split <;> exact ⟨rfl, rfl, rfl⟩

/-- Along the left edge stand operators of the chain. -/
theorem IsSplit.exists_of_mem_ranks (h : IsSplit g.operators first links e)
    (hlinks : AreLinks g links) :
    ∀ r ∈ e.ranks g.operators, ∃ l ∈ links, l.rank g.operators = r := by
  induction h with
  | leaf =>
    rw [(no_edges_leaf _ _).1]
    nofun
  | @split first before after l left right _ _ _ _ _ ihl _ =>
    obtain ⟨d, hd, hrank, _⟩ := Link.registered (hlinks.operators l mem_split)
    rw [Expr.ranks_binary hd, List.forall_mem_cons]
    refine ⟨⟨l, mem_split, hrank.symm⟩, fun r hr => ?_⟩
    obtain ⟨m, hm, rfl⟩ := ihl (hlinks.subset subset_before) r hr
    exact ⟨m, subset_before hm, rfl⟩

/-- What waits along the right edge was asked for by operators of the chain. -/
theorem IsSplit.exists_of_mem_waiting (h : IsSplit g.operators first links e)
    (hlinks : AreLinks g links) :
    ∀ n ∈ e.waiting g.operators, ∃ l ∈ links, l.rank g.operators ≤ n ∧
      (l.associativity g.operators = .left → l.rank g.operators < n) := by
  induction h with
  | leaf =>
    rw [(no_edges_leaf _ _).2.1]
    exact List.forall_mem_nil _
  | @split first before after l left right _ _ _ _ _ _ ihr =>
    obtain ⟨d, hd, hrank, hassoc⟩ := Link.registered (hlinks.operators l mem_split)
    rw [Expr.waiting_binary hd, List.forall_mem_cons]
    refine ⟨⟨l, mem_split, ?_⟩, fun n hn => ?_⟩
    · rw [OperatorEntry.rightBinding, ← hrank, ← hassoc]
      cases d.associativity with
      | left => exact ⟨Nat.le_succ _, fun _ => Nat.lt_succ_self _⟩
      | right => exact ⟨Nat.le_refl _, Associativity.noConfusion⟩
    · obtain ⟨m, hm, hle⟩ := ihr (hlinks.subset subset_after) n hn
      exact ⟨m, subset_after hm, hle⟩

/-- **Every operator finds operands that are tight enough.** -/
theorem IsSplit.fits (h : IsSplit g.operators first links e) (hlinks : AreLinks g links) :
    e.Fits g := by
  induction h with
  | @leaf first =>
    unfold Token.leaf
    split
    · exact .literal
    · exact .literal
    · exact .var
  | @split first before after l left right lowest fromLeft fromRight hl hr ihl ihr =>
    have hbefore := hlinks.subset subset_before
    have hafter := hlinks.subset subset_after
    have hjoins := hlinks.operators l mem_split
    obtain ⟨d, hd, hrank, hassoc⟩ := Link.registered hjoins
    have hnone : g.operators.operator? l.operator.lexeme .postfixOp = none :=
      Option.not_isSome_iff_eq_none.mp fun hsome => hjoins.2 ⟨hjoins.1.1, hsome⟩
    refine .binary hnone hd (ihl hbefore) (ihr hafter) (fun n hn => ?_) (fun r hr' => ?_)
    · -- what waits on the left is tighter, or on one level and read from the left
      obtain ⟨m, hm, hle, hlt⟩ := hl.exists_of_mem_waiting hbefore n hn
      have hlow := lowest m (subset_before hm)
      rw [hrank]
      cases ha : l.associativity g.operators with
      | right => exact Nat.lt_of_lt_of_le (fromRight ha m hm) hle
      | left =>
        rcases Nat.lt_or_eq_of_le hlow with hless | heq
        · exact Nat.lt_of_lt_of_le hless hle
        · have hsame := hlinks.agree l mem_split m (subset_before hm) heq
          exact Nat.lt_of_le_of_lt hlow (hlt (hsame ▸ ha))
    · obtain ⟨m, hm, rfl⟩ := hr.exists_of_mem_ranks hafter r hr'
      rw [OperatorEntry.rightBinding, hassoc, hrank]
      cases ha : l.associativity g.operators with
      | left => exact fromLeft ha m hm
      | right => exact lowest m (subset_after hm)

/-- An operator opens one level at most. -/
theorem IsSplit.nested_le_length (h : IsSplit ops first links e) : e.nested ≤ links.length := by
  induction h with
  | leaf => exact Nat.le_of_eq (no_edges_leaf ops _).2.2
  | split _ _ _ _ _ ihl ihr =>
    rw [Expr.nested, List.length_append, List.length_cons]
    omega

theorem Link.rank_le_value (l : Link) : l.rank ops ≤ Level.value.rank := by
  rw [rank, Expr.rankOf]
  cases ops.operator? l.operator.lexeme .infixOp with
  | none => exact Nat.zero_le _
  | some d => cases h : d.level <;> simp [h, Level.rank]

/-- **A chain that is read from the left opens one level for a rung at most.** The operators
on the right of the one it is split at lie above that one. -/
theorem IsSplit.nested_le_of_left (h : IsSplit ops first links e)
    (hleft : ∀ l ∈ links, l.associativity ops = .left) (r : Nat)
    (hr : r ≤ Level.value.rank + 1) (hle : ∀ l ∈ links, r ≤ l.rank ops) :
    e.nested + r ≤ Level.value.rank + 1 := by
  induction h generalizing r with
  | leaf =>
    rw [(no_edges_leaf ops _).2.2, Nat.zero_add]
    exact hr
  | @split first before after l left right _ fromLeft _ _ _ ihl ihr =>
    have hl := hle l mem_split
    have hbefore := ihl (fun m hm => hleft m (subset_before hm)) r hr
      fun m hm => hle m (subset_before hm)
    have hafter := ihr (fun m hm => hleft m (subset_after hm)) (l.rank ops + 1)
      (Nat.succ_le_succ l.rank_le_value) (fromLeft (hleft l mem_split))
    rw [Expr.nested]
    omega

end CalcSyntax
