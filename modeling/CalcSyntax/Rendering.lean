import CalcSyntax.Json.Record
import CalcSyntax.Program.Outline
import CalcSyntax.Program.Sexpr
import CalcSyntax.Program.Source

/-!
# Rendering — an analysis in the form that was asked for

There are four forms. Three of them show the program alone; the record
form also holds the diagnostics.
-/

set_option autoImplicit false

namespace CalcSyntax

/-- The forms an analysis can be written in. -/
inductive Form where
  /-- The indented tree. -/
  | tree
  /-- One prefix form to a statement. -/
  | sexpr
  /-- Program text. -/
  | source
  /-- The record of program and diagnostics. -/
  | json
deriving DecidableEq

namespace Form

/-- Every form with the word it is asked for by. -/
def named : List (String × Form) :=
  [("tree", tree), ("sexpr", sexpr), ("source", source), ("json", json)]

/-- The form of a word. -/
def ofWord? (word : String) : Option Form := named.lookup word

end Form

/-- An analysis in one form. -/
def Analysis.render (a : Analysis) : Form → String
  | .tree => a.program.outline
  | .sexpr => a.program.sexpr
  | .source => a.program.source
  | .json => a.record.pretty

end CalcSyntax
