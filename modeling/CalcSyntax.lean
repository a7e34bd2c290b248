import CalcSyntax.CommandLine.Directory
import CalcSyntax.Expr.Nesting
import CalcSyntax.Main
import CalcSyntax.Proofs.Reading.Relocation
import CalcSyntax.Reading.Session
import CalcSyntax.Trace
import CalcSyntax.Proofs.Token.Break
import CalcSyntax.Proofs.Token.Stretch
import CalcSyntax.Proofs.Segment.Relocation
import CalcSyntax.Proofs.Text.Slice
import CalcSyntax.Proofs.Segment.Piece
import CalcSyntax.Proofs.Analysis.Locality
import CalcSyntax.Proofs.Reading.Acceptance
import CalcSyntax.Proofs.Expr.Shape
import CalcSyntax.Proofs.Reading.Image
import CalcSyntax.Proofs.Reading.Reread
import CalcSyntax.Proofs.Expr.Power
import CalcSyntax.Proofs.Token.Reads
import CalcSyntax.Proofs.Token.Vocabulary
import CalcSyntax.Proofs.Expr.Printed
import CalcSyntax.Proofs.Analysis.Expression
import CalcSyntax.Proofs.Segment.Spelled
import CalcSyntax.Proofs.Analysis.Program
import CalcSyntax.Proofs.Reading.Session
import CalcSyntax.Proofs.Analysis.Nesting
import CalcSyntax.Proofs.Token.Walk
import CalcSyntax.Proofs.Token.Tiling
import CalcSyntax.Proofs.Segment.Order
import CalcSyntax.Proofs.Analysis.Diagnostics
import CalcSyntax.Proofs.Segment.Yield
import CalcSyntax.Proofs.Analysis.Count
import CalcSyntax.Proofs.Analysis.Agreement
import CalcSyntax.Proofs.Token.Recognition
import CalcSyntax.Proofs.Analysis.Legible
import CalcSyntax.Proofs.Reading.Balance
import CalcSyntax.Proofs.Reading.Closing
import CalcSyntax.Proofs.Expr.Chain
import CalcSyntax.Proofs.Reading.Chain
import CalcSyntax.Proofs.Grammar.Uncounted
import CalcSyntax.Proofs.Reading.Lookahead
import CalcSyntax.Proofs.Reading.Viability
import CalcSyntax.Proofs.Analysis.Height
import CalcSyntax.Proofs.Token.Mark
import CalcSyntax.Proofs.Analysis.Snippet
import CalcSyntax.Proofs.Grammar.Sorting
import CalcSyntax.Proofs.Token.Scanning
import CalcSyntax.Proofs.Token.Number
import CalcSyntax.Proofs.Token.Label
import CalcSyntax.Proofs.Segment.Concord
import CalcSyntax.Proofs.Token.Widening
import CalcSyntax.Proofs.Analysis.Widening
import CalcSyntax.Proofs.Analysis.Known
import CalcSyntax.Proofs.Expr.Form
import CalcSyntax.Proofs.Analysis.Form
import CalcSyntax.Proofs.Reading.Discipline
