import CalcSyntax.Proofs.Expr.Printed

/-!
# Expression — the trees that are read back from their text

Not every tree over the calculator's words has a text of its own: the text
adds no parentheses. Two conditions say which trees do, and a third one
that the levels of nesting are enough for it.

## What is proved

`analyze_source_iff` — the three conditions are exact. A tree that only
fails the last one is refused as a whole, for that reason.
-/

set_option autoImplicit false

namespace CalcSyntax

open CalcSyntax.Expr

/-- **The text of a tree is read as that tree** if and only if it is well nested, no
power captures another, and it opens no more levels than there are. If it
opens more, the text is one statement that cannot be read. -/
theorem analyze_source_iff (e : Expr) (h : e.IsOver .calculator) :
    ((analyze e.source .calculator).program.kinds = [.expression e] ∧
          (analyze e.source .calculator).diagnostics = [] ↔
        e.isWellNested calcOps = true ∧ e.isUncaptured = true ∧ e.levels ≤ maxNesting) ∧
      (e.isWellNested calcOps = true → e.isUncaptured = true → maxNesting < e.levels →
        ∃ text d, (analyze e.source .calculator).program.kinds = [.invalid text] ∧
          (analyze e.source .calculator).diagnostics = [d] ∧
          d.message = "expression nested too deeply") := by
  have hreads : Reads calcLexicon false e.source.toList e.tokens false [] := by
    have := reads_source h (r := []) nofun
    rwa [List.append_nil] at this
  obtain ⟨hread, hrefused⟩ := analyze_of_reads hreads e.tokens_ne_nil
  have hfits := fits_calculator_iff h
  refine ⟨⟨?_, ?_⟩, ?_⟩
  · intro ⟨hkinds, hclean⟩
    cases hr : readStatement .calculator e.tokens .origin with
    | error fault =>
      obtain ⟨_, d, _, hd, _⟩ := hrefused fault hr
      rw [hclean] at hd
      cases hd
    | ok k =>
      obtain rfl : k = .expression e := (List.cons.inj ((hread k hr).1.symm.trans hkinds)).1
      obtain ⟨hf, hle⟩ := readStatement_tokens_iff.mp hr
      exact ⟨(hfits.mp hf).1, (hfits.mp hf).2, hle⟩
  · intro ⟨hw, hu, hle⟩
    exact hread _ (readStatement_tokens_iff.mpr ⟨hfits.mpr ⟨hw, hu⟩, hle⟩)
  · intro hw hu hlt
    obtain ⟨t, ht⟩ := (limited_readStatement (hfits.mpr ⟨hw, hu⟩)).2 hlt
    obtain ⟨text, d, hkinds, hd, hwording⟩ := hrefused _ ht
    exact ⟨text, d, hkinds, hd, congrArg (fun w => w.2.2.1) hwording⟩

/-- A power of `2 ^ -3`, with nothing that keeps the two apart. -/
def capturedPower : Expr :=
  .binary (.binary (.literal .integer "2") "^" (.unary "-" (.literal .integer "3"))) "^"
    (.literal .integer "4")

/-- Two to the opposite of a power. -/
def oppositePower : Expr :=
  .binary (.literal .integer "2") "^"
    (.unary "-" (.binary (.literal .integer "3") "^" (.literal .integer "4")))

/-- A number in so many parentheses. -/
def parenthesized (n : Nat) : Expr := n.repeat Expr.group (.literal .integer "7")

theorem parenthesized_facts (n : Nat) :
    (parenthesized n).IsOver .calculator ∧ (parenthesized n).isWellNested calcOps = true ∧
      (parenthesized n).isUncaptured = true ∧ (parenthesized n).levels = n + 1 := by
  induction n with
  | zero => exact ⟨.integer (by decide), rfl, rfl, rfl⟩
  | succ n ih =>
    obtain ⟨hover, hw, hu, hlevels⟩ := ih
    refine ⟨.group hover, hw, hu, ?_⟩
    show 1 + (parenthesized n).levels = n + 1 + 1
    omega

/-- Two trees have the text `2 ^ -3 ^ 4`, and one of them is read from it. No tree is
read from a number in as many parentheses as there are levels. -/
theorem analyze_source_iff_power :
    capturedPower.source = oppositePower.source ∧
      ((analyze oppositePower.source .calculator).program.kinds = [.expression oppositePower] ∧
        (analyze oppositePower.source .calculator).diagnostics = []) ∧
      ¬ ((analyze capturedPower.source .calculator).program.kinds = [.expression capturedPower] ∧
        (analyze capturedPower.source .calculator).diagnostics = []) ∧
      ∃ text d,
        (analyze (parenthesized 128).source .calculator).program.kinds = [.invalid text] ∧
        (analyze (parenthesized 128).source .calculator).diagnostics = [d] ∧
        d.message = "expression nested too deeply" := by
  have power {left right : Expr} (hl : left.IsOver .calculator) (hr : right.IsOver .calculator) :
      (Expr.binary left "^" right).IsOver .calculator :=
    .binary (d := .usual "^" .infixOp .exponentiation) rfl hl hr
  have opposite {operand : Expr} (h : operand.IsOver .calculator) :
      (Expr.unary "-" operand).IsOver .calculator :=
    .unary (d := .usual "-" .prefixOp .negation) rfl h
  have two : (Expr.literal .integer "2").IsOver .calculator := .integer (by decide)
  have three : (Expr.literal .integer "3").IsOver .calculator := .integer (by decide)
  have four : (Expr.literal .integer "4").IsOver .calculator := .integer (by decide)
  have hopposite := (analyze_source_iff oppositePower (power two (opposite (power three four)))).1
  have hcaptured := (analyze_source_iff capturedPower (power (power two (opposite three)) four)).1
  obtain ⟨hover, hw, hu, hlevels⟩ := parenthesized_facts 128
  refine ⟨by decide, hopposite.mpr (by decide), ?_, ?_⟩
  · intro hread
    exact absurd (hcaptured.mp hread) (by decide)
  · exact (analyze_source_iff (parenthesized 128) hover).2 hw hu (by rw [hlevels]; decide)

end CalcSyntax
