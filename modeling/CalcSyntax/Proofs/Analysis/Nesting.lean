import CalcSyntax.Proofs.Expr.Loose
import CalcSyntax.Proofs.Reading.Session
import CalcSyntax.Proofs.Segment.Spelled
import CalcSyntax.Proofs.Span.Relocation

/-!
# Nesting — what is read on a ladder is well nested

On a laddered grammar an expression that is read at a level is well nested,
binds as tightly as the level asks for or begins with an operator, and ends
in front of a token that does not go on at that level. The tokens, the place
in them and the levels that are open already do not matter. So all
expressions of a program are well nested, down to their smallest parts.

The loop and its invariant are in `Setting.built_expression`. Here they are
read off on a ladder, where the edges of a tree tell how tightly it binds.

Off a ladder a program may have expressions that are not well nested. Just those
are not that have a loose operand somewhere (`wellNested_iff_of_mem_program`).
-/

set_option autoImplicit false

namespace CalcSyntax

/-- The operator that a symbol is behind an operand. One that completes the operand
goes before one that wants another. -/
def Table.behind? (ops : Table OperatorEntry) (symbol : String) : Option OperatorEntry :=
  (ops.operator? symbol .postfixOp).or (ops.operator? symbol .infixOp)

/-- An operator at which a loop stops lies below the level of the loop. -/
theorem Setting.rank_lt_of_stop {s : Setting} {min : Nat} {t : Token}
    (h : s.continuation min t = .stop) (hk : t.kind = .operator) :
    ∀ d ∈ s.grammar.operators.behind? t.lexeme, d.level.rank < min := by
  intro d hd
  unfold Table.behind? at hd
  cases hp : s.grammar.operators.operator? t.lexeme .postfixOp with
  | some d' =>
    rw [hp, Option.some_or] at hd
    obtain rfl : d' = d := Option.some.inj hd
    exact (s.stop_iff_of_postfixOp hk hp).mp h
  | none =>
    rw [hp, Option.none_or] at hd
    exact (s.stop_iff_of_infixOp hk hp hd).mp h

/-- The trees of a program fit. -/
theorem fits_of_mem_program {g : Grammar} {source : String} {st : Statement}
    (h : st ∈ (analyze source g).program.statements) : ∀ e ∈ st.kind.exprs, e.Fits g :=
  fun e he => (readable_of_mem_program h e he).fits

/-- An expression that is read at a level, on a ladder. -/
theorem wellNested_of_expressionAt {g : Grammar} (hg : g.Laddered) {s : Session} {min : Nat}
    {e : Expr} (hs : s.grammar = g) (hmin : min ≤ 12) (h : (s.expressionAt min).1 = .ok e) :
    e.isWellNested g.operators = true ∧
      (e.isUnary = true ∨ min ≤ e.tightness g.operators) ∧
      ((s.expressionAt min).2.peek.kind = .operator →
        ∀ d ∈ g.operators.behind? (s.expressionAt min).2.peek.lexeme, d.level.rank < min) := by
  subst hs
  have hread : s.run (fun st => st.expression s.levels min) = (.ok e, (s.expressionAt min).2) :=
    Prod.ext h rfl
  obtain ⟨hrun, _⟩ := s.run_eq_ok _ hread
  have hbuilt := s.setting.built_expression s.levels min _ _ _ hrun
  exact ⟨Expr.isWellNested_of_fits hg hbuilt.fits,
    hbuilt.fits.least_le_tightness hmin hbuilt.ranks, Setting.rank_lt_of_stop hbuilt.stop⟩

/-- **Reading on a ladder nests well**: an expression at any level, from any place and
depth, and every part of every expression of a program. -/
theorem expressionAt_wellNested :
    Grammar.calculator.Laddered ∧ ∀ g : Grammar, g.Laddered →
      (∀ (s : Session) (min : Nat) (e : Expr), s.grammar = g → min ≤ 12 →
        (s.expressionAt min).1 = .ok e →
          e.isWellNested g.operators = true ∧
          (e.isUnary = true ∨ min ≤ e.tightness g.operators) ∧
          ((s.expressionAt min).2.peek.kind = .operator →
            ∀ d ∈ g.operators.behind? (s.expressionAt min).2.peek.lexeme, d.level.rank < min)) ∧
      ∀ source : String, ∀ st ∈ (analyze source g).program.statements, ∀ e ∈ st.kind.exprs,
        ∀ p ∈ e.parts, p.isWellNested g.operators = true := by
  refine ⟨Grammar.laddered_calculator, fun g hg => ⟨?_, ?_⟩⟩
  · intro s min e hs hmin h
    exact wellNested_of_expressionAt hg hs hmin h
  · intro source st hst e he
    exact Expr.isWellNested_of_mem_parts
      (Expr.isWellNested_of_fits hg (fits_of_mem_program hst e he))

/-- A power that is read from the right, and a factorial behind its operand. -/
def factorialGrammar : Grammar :=
  (Grammar.calculator.registerOperator ⟨"^", .infixOp, .exponentiation, .right⟩).registerOperator
    (.usual "!" .postfixOp .suffix)

/-- `2 ^ - 3 ! ^ 4`, where the power is read from the right. -/
def factorialPower : Expr :=
  .binary (.literal .integer "2") "^"
    (.unary "-" (.binary (.suffixed (.literal .integer "3") "!") "^" (.literal .integer "4")))

/-- That expression in the middle of a statement, in front of a sum. Two levels are
open already. -/
def factorialSession : Session where
  grammar := factorialGrammar
  tokens := [.bare .integer "1", .bare .operator "+", .bare .integer "2", .bare .operator "^",
    .bare .operator "-", .bare .integer "3", .bare .operator "!", .bare .operator "^",
    .bare .integer "4", .bare .operator "+", .bare .var "A"]
  closing := .origin
  position := 2
  depth := 2

/-- The power is well nested, and the sum behind it lies below the level. -/
theorem expressionAt_wellNested_factorial :
    factorialGrammar.Laddered ∧ (factorialSession.expressionAt 7).1 = .ok factorialPower ∧
      factorialPower.isWellNested factorialGrammar.operators = true ∧
      (factorialSession.expressionAt 7).2.peek = .bare .operator "+" ∧
      ∀ d ∈ factorialGrammar.operators.behind? "+", d.level.rank < 7 := by
  have hg : factorialGrammar.Laddered := by constructor <;> decide +kernel
  have hread : (factorialSession.expressionAt 7).1 = .ok factorialPower := by
    have hsome : (factorialSession.expressionAt 7).1.toOption = some factorialPower := by
      decide +kernel
    cases h : (factorialSession.expressionAt 7).1 with
    | error fault => rw [h] at hsome; cases hsome
    | ok e => rw [h] at hsome; exact congrArg Except.ok (Option.some.inj hsome)
  have hpeek : (factorialSession.expressionAt 7).2.peek = .bare .operator "+" := by
    decide +kernel
  obtain ⟨hnested, _, hstop⟩ := (expressionAt_wellNested.2 factorialGrammar hg).1
    factorialSession 7 factorialPower rfl (by decide) hread
  rw [hpeek] at hstop
  exact ⟨hg, hread, hnested, hpeek, hstop rfl⟩

/-- **Off a ladder**, a part of an expression of a program is well nested just if nothing
in it is loose, whatever the operators and their rungs. -/
theorem wellNested_iff_of_mem_program (g : Grammar) (source : String) :
    ∀ st ∈ (analyze source g).program.statements, ∀ e ∈ st.kind.exprs, ∀ p ∈ e.parts,
      (p.isWellNested g.operators = true ↔ ∀ q ∈ p.parts, ¬ q.Loose g.operators) := by
  intro st hst e he p hp
  exact ((fits_of_mem_program hst e he).of_mem_parts p hp).isWellNested_iff

/-- Nothing in a power of a power is loose, though a sign stands between the two. -/
theorem wellNested_iff_of_mem_program_power :
    factorialPower.isWellNested factorialGrammar.operators = true ∧
      ∀ q ∈ factorialPower.parts, ¬ q.Loose factorialGrammar.operators := by
  have hst : ⟨.expression factorialPower, ⟨0, 7, 1, 0⟩⟩ ∈
      (analyze "2^-3!^4" factorialGrammar).program.statements := by decide +kernel
  have hiff := wellNested_iff_of_mem_program factorialGrammar "2^-3!^4" _ hst factorialPower
    List.mem_cons_self factorialPower List.mem_cons_self
  have hnested : factorialPower.isWellNested factorialGrammar.operators = true := by
    decide +kernel
  exact ⟨hnested, hiff.mp hnested⟩

/-- Operators on rungs that the calculator keeps free, or reads the other way. -/
def looseGrammar : Grammar :=
  [.usual "~" .prefixOp .exponentiation, .usual "!" .postfixOp .stats,
    .usual "#" .postfixOp .suffix, ⟨"@", .infixOp, .additive, .right⟩,
    .usual "&" .infixOp .value].foldl .registerOperator .calculator

/-- Two operators in front, two behind, a chain that changes its direction, and an operator
of the topmost rung: each is read, and none is well nested. -/
theorem looseGrammar_notWellNested :
    (analyze "~-3:3!#:1+2@3:1&2" looseGrammar).program.statements.map (·.kind) =
        [.expression (.unary "~" (.unary "-" (.literal .integer "3"))),
          .expression (.suffixed (.suffixed (.literal .integer "3") "!") "#"),
          .expression (.binary (.binary (.literal .integer "1") "+" (.literal .integer "2")) "@"
            (.literal .integer "3")),
          .expression (.binary (.literal .integer "1") "&" (.literal .integer "2"))] ∧
      ∀ st ∈ (analyze "~-3:3!#:1+2@3:1&2" looseGrammar).program.statements,
        ∀ e ∈ st.kind.exprs, e.isWellNested looseGrammar.operators = false := by
  decide +kernel

end CalcSyntax
