import CalcSyntax.Diagnostic.Basic
import CalcSyntax.Text.Rows
import CalcSyntax.Text.Slice

/-!
# Snippet — a diagnostic with the row it is about

A snippet shows the message and its place, quotes the row of the text and
puts carets under it, one for each character of the span, then gives the
hint if there is one. Tabs in front of the span are copied under the row,
so both rows are indented alike behind their gutters. The gutter of the
carets is the narrower one, so they stand left of the span. A span without
characters still gets one caret.

A diagnostic can be made for any span, also for one that does not fit the
text. Such a diagnostic has no snippet.
-/

set_option autoImplicit false

namespace CalcSyntax

/-- A text to quote from, and the name it goes by. -/
structure Page where
  file : String
  text : List Char
  rows : List (List Char)

namespace Page

/-- A source as a page. -/
def ofSource (file source : String) : Page := ⟨file, source.toList, CalcSyntax.rows source.toList⟩

/-- The row of a line, empty if there is none. Line zero counts as the first. -/
def row (p : Page) (line : Nat) : List Char := (p.rows[line - 1]?).getD []

end Page

/-- A text with spaces in front, so that it is at least so wide. -/
def padLeft (width : Nat) (text : String) : String :=
  String.ofList (List.replicate (width - text.length) ' ') ++ text

/-- What stands under the part of a row in front of a column. -/
def underRow (row : List Char) (column : Nat) : List Char :=
  (row.take column).map fun c => if c = '\t' then '\t' else ' '

namespace Diagnostic

/-- The lines of a snippet, with so many carets. -/
def snippetLines (p : Page) (d : Diagnostic) (carets : Nat) : List String :=
  let row := p.row d.span.line
  let carets := String.ofList (underRow row d.span.column ++ List.replicate carets '^')
  let hint := match d.hint with
    | some text => ["", s!"help: {text}"]
    | none => []
  [s!"error[{d.code}]: {d.message}",
    s!"  --> {p.file}:{d.span.shown}",
    "   |",
    s!"{padLeft 3 (toString d.span.line)} | {String.ofList row}",
    s!"   | {carets}"] ++ hint

/-- The diagnostic with the row it is about, if its span fits the text. -/
def snippet? (p : Page) (d : Diagnostic) : Option String :=
  (d.span.slice? p.text).map fun marked => endedLines (d.snippetLines p (max 1 marked.length))

end Diagnostic

/-- The snippets of some diagnostics, a blank line between any two. -/
def snippets? (p : Page) (ds : List Diagnostic) : Option String :=
  (ds.mapM (Diagnostic.snippet? p)).map ("\n".intercalate ·)

end CalcSyntax
