import CalcSyntax.Reading.Statement
import CalcSyntax.Segment
import CalcSyntax.Text.Slice
import CalcSyntax.Text.Space

/-!
# Analysis — a source as a program with its diagnostics

Each segment is judged on its own: a stray character or a fault makes its
statement invalid and leaves one diagnostic, and every other statement is
read as if the broken one were not there. So the statements are as many
as the segments, and the diagnostics come in the order of the text, one
to an invalid statement.
-/

set_option autoImplicit false

namespace CalcSyntax

/-- A program and what is wrong with it. -/
structure Analysis where
  program : Program
  /-- One message to an invalid statement, in the order of the text. -/
  diagnostics : List Diagnostic
deriving DecidableEq

namespace Segment

/-- What the segment says: a statement, or the reason why it is none. A
stray character goes before anything else. -/
def verdict (g : Grammar) (s : Segment) : Except Diagnostic StatementKind :=
  match s.stray? with
  | some stray => .error stray.report
  | none =>
    match readStatement g s.tokens s.stop with
    | .ok kind => .ok kind
    | .error fault => .error fault.report

/-- The text of the segment, without white space at its end. -/
def rawText (text : List Char) (s : Segment) : String :=
  String.ofList (trimEnd ((s.span.slice? text).getD []))

end Segment

/-- A segment and what it says. -/
structure Judged where
  segment : Segment
  verdict : Except Diagnostic StatementKind

namespace Judged

/-- Judges a segment. -/
def ofSegment (g : Grammar) (s : Segment) : Judged := ⟨s, s.verdict g⟩

/-- The statement of a judged segment; one that is none keeps its text. -/
def stmt (text : List Char) (j : Judged) : Statement :=
  match j.verdict with
  | .ok kind => ⟨kind, j.segment.span⟩
  | .error _ => ⟨.invalid (j.segment.rawText text), j.segment.span⟩

/-- The diagnostic of a judged segment, marked with its statement. -/
def diagnostic? (j : Judged) : Option Diagnostic :=
  match j.verdict with
  | .ok _ => none
  | .error d => some (d.within j.segment.span)

end Judged

/-- The judged segments of a source. -/
def judge (source : String) (g : Grammar) : List Judged :=
  (segments source g).map (Judged.ofSegment g)

/-- The program of judged segments, and its diagnostics. -/
def Analysis.ofJudged (source : String) (js : List Judged) : Analysis where
  program := ⟨js.map (Judged.stmt source.toList)⟩
  diagnostics := js.filterMap Judged.diagnostic?

/-- Analyzes a source against a grammar. -/
def analyze (source : String) (g : Grammar) : Analysis := .ofJudged source (judge source g)

namespace Analysis

/-- Whether nothing is wrong. -/
def isClean (a : Analysis) : Bool := a.diagnostics.isEmpty

end Analysis

end CalcSyntax
