import CalcSyntax.Proofs.Expr.Height
import CalcSyntax.Proofs.Expr.Printed
import CalcSyntax.Proofs.Segment.Spelled

/-!
# Height — how high the trees of a program are

The limit on levels does not limit the height of a tree: a sum of any number of
terms is read by one loop, on two levels. It limits the height in storeys, for
all programs by the same number, and so the height by that number for each
operator of the longest chain.

## What is proved

- `storeys_le_of_mem_program` — the bound, for all parts of all expressions of a
  program.
- `height_of_mem_program_unbounded` — there is no bound on the height that does
  without the chains. Sums of one, and nothing else, are enough to see it.
-/

set_option autoImplicit false

namespace CalcSyntax

open CalcSyntax.Expr

/-- **Trees are bounded in storeys**, by the levels there are and the rungs of the ladder,
and so in height by the longest chain of operators on one rung. -/
theorem storeys_le_of_mem_program (source : String) :
    ∀ st ∈ (analyze source .calculator).program.statements, ∀ e ∈ st.kind.exprs, ∀ p ∈ e.parts,
      p.storeys calcOps ≤ maxNesting * (Level.ladder.length + 1) ∧
        p.height ≤ maxNesting * (Level.ladder.length + 1) * p.longestChain calcOps := by
  intro st hst e he p hp
  have hreadable := readable_of_mem_program hst e he
  have hlevels : p.levels ≤ maxNesting :=
    Nat.le_trans (Nat.add_le_add_left (nested_le_of_mem_parts e p hp) 1) hreadable.levels
  have hstoreys : p.storeys calcOps ≤ maxNesting * (Level.ladder.length + 1) := by
    calc p.storeys calcOps
        ≤ (Level.ladder.length + 1) * p.levels :=
          (hreadable.fits.of_mem_parts p hp).storeys_le no_postfixOp
      _ ≤ (Level.ladder.length + 1) * maxNesting := Nat.mul_le_mul_left _ hlevels
      _ = maxNesting * (Level.ladder.length + 1) := Nat.mul_comm _ _
  have hheight : p.height ≤ p.storeys calcOps * p.longestChain calcOps :=
    p.height_le_storeys_mul
  exact ⟨hstoreys, Nat.le_trans hheight (Nat.mul_le_mul_right _ hstoreys)⟩

/-- Two sums on one rung, with a third one further down. -/
def sumOfProduct : Expr :=
  .binary (.binary (.literal .integer "1") "+" (.binary (.literal .integer "2") "*"
    (.group (.binary (.literal .integer "3") "-" (.literal .integer "4"))))) "+"
      (.literal .integer "5")

/-- Six nodes lie on the way down in five storeys, since two of the sums share one. -/
theorem storeys_le_of_mem_program_sum :
    ⟨.expression sumOfProduct, ⟨0, 11, 1, 0⟩⟩ ∈
        (analyze "1+2*(3-4)+5" .calculator).program.statements ∧
      sumOfProduct.height = 6 ∧ sumOfProduct.storeys calcOps = 5 ∧
      sumOfProduct.longestChain calcOps = 2 ∧ 5 ≤ 128 * 15 ∧ 6 ≤ 128 * 15 * 2 := by
  have hst : ⟨.expression sumOfProduct, ⟨0, 11, 1, 0⟩⟩ ∈
      (analyze "1+2*(3-4)+5" .calculator).program.statements := by decide +kernel
  have hheight : sumOfProduct.height = 6 := by decide
  have hstoreys : sumOfProduct.storeys calcOps = 5 := by decide
  have hchain : sumOfProduct.longestChain calcOps = 2 := by decide
  obtain ⟨hs, hh⟩ := storeys_le_of_mem_program "1+2*(3-4)+5" _ hst sumOfProduct
    List.mem_cons_self sumOfProduct List.mem_cons_self
  rw [hstoreys] at hs
  rw [hheight, hchain] at hh
  exact ⟨hst, hheight, hstoreys, hchain, hs, hh⟩

/-! ## Chains -/

/-- One, and so many ones added to it. -/
def sumOfOnes (n : Nat) : Expr :=
  n.repeat (fun e => .binary e "+" (.literal .integer "1")) (.literal .integer "1")

theorem height_sumOfOnes (n : Nat) : (sumOfOnes n).height = n + 1 := by
  induction n with
  | zero => rfl
  | succ n ih =>
    show 1 + max (sumOfOnes n).height 1 = n + 1 + 1
    omega

theorem isOver_sumOfOnes (n : Nat) : (sumOfOnes n).IsOver .calculator := by
  have one : (Expr.literal .integer "1").IsOver .calculator := .integer (by decide)
  induction n with
  | zero => exact one
  | succ n ih => exact .binary (d := .usual "+" .infixOp .additive) rfl ih one

/-- A sum of ones fits, and a second level is enough for its terms. -/
theorem fits_sumOfOnes (n : Nat) :
    (sumOfOnes n).Fits .calculator ∧ (sumOfOnes n).nested ≤ 1 := by
  induction n with
  | zero => exact ⟨.literal, Nat.zero_le 1⟩
  | succ n ih =>
    refine ⟨.binary (d := .usual "+" .infixOp .additive) rfl rfl ih.1 .literal ?_ nofun, ?_⟩
    · cases n with
      | zero => nofun
      | succ n => exact List.forall_mem_singleton.mpr (by decide)
    · exact Nat.max_le.mpr ⟨ih.2, Nat.le_refl 1⟩

theorem analyze_sumOfOnes (n : Nat) :
    (analyze (sumOfOnes n).source .calculator).program.kinds = [.expression (sumOfOnes n)] := by
  have hreads := reads_source (isOver_sumOfOnes n) (r := []) nofun
  rw [List.append_nil] at hreads
  obtain ⟨hfits, hnested⟩ := fits_sumOfOnes n
  have hlevels : (sumOfOnes n).levels ≤ maxNesting :=
    Nat.le_trans (Nat.add_le_add_left hnested 1) (by decide)
  have hread := readStatement_tokens_iff.mpr ⟨hfits, hlevels⟩
  exact ((analyze_of_reads hreads (tokens_ne_nil _)).1 _ hread).1

/-- No bound on the height holds of all programs. -/
theorem height_of_mem_program_unbounded :
    ¬ ∃ bound, ∀ source, ∀ st ∈ (analyze source .calculator).program.statements,
      ∀ e ∈ st.kind.exprs, e.height ≤ bound := by
  intro ⟨bound, hbound⟩
  have hmem : StatementKind.expression (sumOfOnes bound) ∈
      (analyze (sumOfOnes bound).source .calculator).program.kinds := by
    rw [analyze_sumOfOnes]
    exact List.mem_cons_self
  obtain ⟨st, hst, hkind⟩ := List.mem_map.mp hmem
  have hle := hbound _ st hst (sumOfOnes bound) (by rw [hkind]; exact List.mem_cons_self)
  rw [height_sumOfOnes] at hle
  exact Nat.not_succ_le_self bound hle

end CalcSyntax
