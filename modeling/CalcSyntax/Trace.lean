import CalcSyntax.Analysis

/-!
# Trace — what happens during an analysis, in order

An analysis can be followed event by event: its beginning and end, every
stray character, every terminator that closes a segment, and every
statement that is turned down. The end of the text closes the last
segment without an event. Events of one segment come before those of the
next.
-/

set_option autoImplicit false

namespace CalcSyntax

/-- How much an event matters. -/
inductive TraceLevel where
  /-- Once per analysis. -/
  | summary
  /-- Once per segment or item. -/
  | detail
deriving DecidableEq

/-- Something that happens during an analysis. -/
inductive Event where
  /-- The analysis of so many bytes begins. -/
  | begun (bytes : Nat)
  /-- A stray character is met. -/
  | stray (stray : Stray)
  /-- A terminator closes a segment. -/
  | closed (terminator : Token)
  /-- A statement is turned down. -/
  | rejected (statement : Span) (reason : Diagnostic)
  /-- The analysis is over. -/
  | done (statements diagnostics : Nat)
deriving DecidableEq

namespace Event

/-- How much the event matters. -/
def level : Event → TraceLevel
  | begun _ | done _ _ => .summary
  | stray _ | closed _ | rejected _ _ => .detail

/-- The event in words. -/
def message : Event → String
  | begun bytes => s!"parsing {bytes} bytes of source"
  | stray c => s!"lexical error at {c.span.shown}: {c.message}"
  | closed t => s!"segment closed by terminator at {t.span.shown}"
  | rejected statement reason => s!"statement at {statement.shown} rejected: {reason.message}"
  | done statements diagnostics =>
    s!"parsed {statements} statements with {diagnostics} diagnostics"

end Event

namespace Judged

/-- The events of one segment. -/
def events (j : Judged) : List Event :=
  (j.segment.items.filterMap Item.stray?).map .stray
    ++ (if j.segment.isTerminated then [.closed j.segment.closer] else [])
    ++ (match j.verdict with
      | .ok _ => []
      | .error d => [.rejected j.segment.span d])

end Judged

/-- The events of an analysis, in order. -/
def trace (source : String) (g : Grammar) : List Event :=
  let js := judge source g
  let a := Analysis.ofJudged source js
  .begun (byteLength source.toList)
    :: (js.flatMap Judged.events ++ [.done a.program.size a.diagnostics.length])

end CalcSyntax
