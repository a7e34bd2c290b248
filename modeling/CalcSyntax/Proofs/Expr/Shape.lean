import CalcSyntax.Expr.Basic
import CalcSyntax.Proofs.Token.Numeral

/-!
# Shape — the trees that reading by levels can build

A chain of operators is read by one loop, and each operand on its right by
a reading of its own with a least level. So a tree built that way has two
edges to look at:

- `Expr.ranks`: the operators along its left edge. The loop that reads the
  tree takes all of them, so none may lie below the level of the loop.
- `Expr.waiting`: the least levels along its right edge. The operands with
  these levels are still being read where the tree ends, so the operator
  that comes next must lie below all of them, or it would be theirs.

`Expr.Fits` asks just this of every operator and its operands. It mentions
no tokens. `Expr.levels` counts how many readings are open at once.
-/

set_option autoImplicit false

namespace CalcSyntax

namespace Expr

/-- Induction over expressions, with the arguments of a call as a list. -/
@[elab_as_elim]
theorem induction {motive : Expr → Prop}
    (literal : ∀ kind lexeme, motive (.literal kind lexeme)) (var : ∀ name, motive (.var name))
    (binary : ∀ left operator right, motive left → motive right →
      motive (.binary left operator right))
    (unary : ∀ operator operand, motive operand → motive (.unary operator operand))
    (suffixed : ∀ operand operator, motive operand → motive (.suffixed operand operator))
    (call : ∀ function arguments, (∀ a ∈ arguments, motive a) → motive (.call function arguments))
    (group : ∀ inner, motive inner → motive (.group inner)) (e : Expr) : motive e :=
  Expr.rec (motive_2 := fun es => ∀ a ∈ es, motive a) literal var
    (fun left operator right => binary left operator right) unary
    (fun operand operator => suffixed operand operator) call group nofun
    (fun _ _ ha has => List.forall_mem_cons.mpr ⟨ha, has⟩) e

variable (ops : Table OperatorEntry)

/-- The rank of an operator, if it is registered. -/
def rank? (symbol : String) (fixity : Fixity) : Option Nat :=
  (ops.operator? symbol fixity).map fun d => d.level.rank

/-- The ranks of the operators along the left edge. -/
def ranks : Expr → List Nat
  | binary left operator _ => (rank? ops operator .infixOp).toList ++ left.ranks
  | suffixed operand operator => (rank? ops operator .postfixOp).toList ++ operand.ranks
  | _ => []

/-- The least levels of the operands that end where the expression ends. -/
def waiting : Expr → List Nat
  | binary _ operator right =>
    ((ops.operator? operator .infixOp).map OperatorEntry.rightBinding).toList ++ right.waiting
  | unary operator operand => (rank? ops operator .prefixOp).toList ++ operand.waiting
  | _ => []

mutual

/-- How many levels are opened inside. -/
def nested : Expr → Nat
  | literal _ _ => 0
  | var _ => 0
  | binary left _ right => max left.nested (1 + right.nested)
  | unary _ operand => 1 + operand.nested
  | suffixed operand _ => operand.nested
  | call _ arguments => nestedAll arguments
  | group inner => 1 + inner.nested

/-- How many levels the expressions of a list open, one after the other. -/
def nestedAll : List Expr → Nat
  | [] => 0
  | e :: es => max (1 + e.nested) (nestedAll es)

end

/-- How many levels the expression opens, its own included. -/
def levels (e : Expr) : Nat := 1 + e.nested

theorem nestedAll_le_iff {es : List Expr} {n : Nat} :
    nestedAll es ≤ n ↔ ∀ e ∈ es, e.levels ≤ n := by
  induction es with
  | nil => exact iff_of_true (Nat.zero_le n) nofun
  | cons e es ih => rw [nestedAll, Nat.max_le, ih, List.forall_mem_cons, levels]

/-- Every operator finds its operands as its level asks for. -/
inductive Fits (g : Grammar) : Expr → Prop where
  | literal {kind : LiteralKind} {lexeme : String} : Fits g (.literal kind lexeme)
  | var {name : String} : Fits g (.var name)
  | binary {left right : Expr} {operator : String} {d : OperatorEntry}
    (noPostfix : g.operators.operator? operator .postfixOp = none)
    (registered : g.operators.operator? operator .infixOp = some d) (hl : Fits g left)
    (hr : Fits g right) (above : ∀ m ∈ left.waiting g.operators, d.level.rank < m)
    (least : ∀ r ∈ right.ranks g.operators, d.rightBinding ≤ r) :
    Fits g (.binary left operator right)
  | unary {operand : Expr} {operator : String} {d : OperatorEntry}
    (registered : g.operators.operator? operator .prefixOp = some d) (h : Fits g operand)
    (least : ∀ r ∈ operand.ranks g.operators, d.level.rank ≤ r) :
    Fits g (.unary operator operand)
  | suffixed {operand : Expr} {operator : String} {d : OperatorEntry}
    (registered : g.operators.operator? operator .postfixOp = some d) (h : Fits g operand)
    (above : ∀ m ∈ operand.waiting g.operators, d.level.rank < m) :
    Fits g (.suffixed operand operator)
  | call {function : String} {arguments : List Expr} {d : FunctionEntry}
    (registered : g.function? function = some d) (accepts : d.args.accepts arguments.length)
    (h : ∀ a ∈ arguments, Fits g a) : Fits g (.call function arguments)
  | group {inner : Expr} (h : Fits g inner) : Fits g (.group inner)

/-! ## The words of a tree -/

/-- The names of variables. -/
def IsVariable (name : String) : Prop :=
  name ∈ namedVariables ∨ ∃ c : Char, c.isUpper = true ∧ name.toList = [c]

/-- The tree is made of numbers, variables and what the grammar registers. -/
inductive IsOver (g : Grammar) : Expr → Prop where
  | integer {lexeme : String} (h : Numeral.IsInteger lexeme.toList) :
    IsOver g (.literal .integer lexeme)
  | float {lexeme : String} (h : Numeral.IsFloat lexeme.toList) : IsOver g (.literal .float lexeme)
  | var {name : String} (h : IsVariable name) : IsOver g (.var name)
  | binary {left right : Expr} {operator : String} {d : OperatorEntry}
    (registered : g.operators.operator? operator .infixOp = some d) (hl : IsOver g left)
    (hr : IsOver g right) : IsOver g (.binary left operator right)
  | unary {operand : Expr} {operator : String} {d : OperatorEntry}
    (registered : g.operators.operator? operator .prefixOp = some d) (h : IsOver g operand) :
    IsOver g (.unary operator operand)
  | suffixed {operand : Expr} {operator : String} {d : OperatorEntry}
    (registered : g.operators.operator? operator .postfixOp = some d) (h : IsOver g operand) :
    IsOver g (.suffixed operand operator)
  | call {function : String} {arguments : List Expr} {d : FunctionEntry}
    (registered : g.function? function = some d) (accepts : d.args.accepts arguments.length)
    (h : ∀ a ∈ arguments, IsOver g a) : IsOver g (.call function arguments)
  | group {inner : Expr} (h : IsOver g inner) : IsOver g (.group inner)

end Expr

end CalcSyntax
