import CalcSyntax.Proofs.Expr.Form
import CalcSyntax.Proofs.Segment.Spelled

/-!
# Form — two sources are compared by their prefix forms

The prefix form drops what a grammar knows anyway, so whoever compares two trees
through it relies on the grammar. What is read of a source is made of the words of its
grammar (`readable_of_mem_program`), and on these the form is one-to-one wherever the
words tell the nodes apart.

## What is proved

- `Program.eq_of_sexpr` — the parts of two programs of one such grammar.
- `analyze_sexpr_inj` — the parts of two programs of the calculator.
-/

set_option autoImplicit false

namespace CalcSyntax

/-- Everything that the expressions of a program are made of, the expressions included. -/
def Program.parts (p : Program) : List Expr :=
  p.statements.flatMap fun st => st.kind.exprs.flatMap Expr.parts

/-- The parts of a program are made of the words of its grammar. -/
theorem isOver_of_mem_parts {source : String} {g : Grammar} {p : Expr}
    (hp : p ∈ (analyze source g).program.parts) : p.IsOver g := by
  obtain ⟨st, hst, hp⟩ := List.mem_flatMap.mp hp
  obtain ⟨e, he, hp⟩ := List.mem_flatMap.mp hp
  exact (readable_of_mem_program hst e he).words.of_mem_parts p hp

/-- **Parts of one prefix form are the same**, whatever programs they are parts of. -/
theorem Program.eq_of_sexpr {g : Grammar} (hg : g.TellsForms) {source source' : String}
    {p p' : Expr} (hp : p ∈ (analyze source g).program.parts)
    (hp' : p' ∈ (analyze source' g).program.parts) (h : p.sexpr = p'.sexpr) : p = p' :=
  Expr.eq_of_sexpr hg (isOver_of_mem_parts hp) (isOver_of_mem_parts hp') h

/-- **On the calculator the prefix form is one-to-one**, the kinds of numbers included. -/
theorem analyze_sexpr_inj {source source' : String} {p p' : Expr}
    (hp : p ∈ (analyze source .calculator).program.parts)
    (hp' : p' ∈ (analyze source' .calculator).program.parts) (h : p.sexpr = p'.sexpr) :
    p = p' :=
  Program.eq_of_sexpr Grammar.tellsForms_calculator hp hp' h

/-- The argument of a command, on a broken line, and an expression in another layout, with
numbers of both kinds, both minuses and a call. -/
theorem analyze_sexpr_inj_layout :
    let p := (analyze "1 2\nDisp -1.-max(A,(2" .calculator).program.parts.headD (.var "A")
    let p' := (analyze "- 1. - max( A , ( 2 ) )" .calculator).program.parts.headD (.var "B")
    p.sexpr = "(- (- 1.) (call max A (group 2)))" ∧ p = p' := by
  intro p p'
  have hp : p ∈ (analyze "1 2\nDisp -1.-max(A,(2" .calculator).program.parts := by decide +kernel
  have hp' : p' ∈ (analyze "- 1. - max( A , ( 2 ) )" .calculator).program.parts := by
    decide +kernel
  have h : p.sexpr = p'.sexpr := by decide +kernel
  refine ⟨?_, analyze_sexpr_inj hp hp' h⟩
  decide +kernel

end CalcSyntax
