import CalcSyntax.Analysis
import CalcSyntax.Proofs.Reading.Relocation

/-!
# Relocation — a segment says the same at another place

The verdict on a segment depends on its items and on the place where it
ends. Putting both elsewhere keeps the kind of the statement, and puts
the diagnostic elsewhere without rewording it. A move also moves the
span of the statement.
-/

set_option autoImplicit false

namespace CalcSyntax

namespace Segment

variable {φ : Span → Span} {s s' : Segment}

/-- `s'` is `s` with its items and its end at other places. What closes the two
need not be the same. -/
structure Moved (φ : Span → Span) (s s' : Segment) : Prop where
  items : s'.items = s.items.map (Item.relocate φ)
  stop : s'.stop = φ s.stop

theorem tokens_moved (h : Moved φ s s') : s'.tokens = s.tokens.map (Token.relocate φ) := by
  rw [tokens, tokens, h.items, List.filterMap_map, List.map_filterMap]
  refine congrArg (List.filterMap · s.items) ?_
  funext i
  cases i <;> rfl

theorem stray?_moved (h : Moved φ s s') : s'.stray? = s.stray?.map (Stray.relocate φ) := by
  rw [stray?, stray?, h.items]
  induction s.items with
  | nil => rfl
  | cons i items ih =>
    cases i with
    | ok t => exact ih
    | error c => rfl

/-- **A segment says the same at another place.** -/
theorem verdict_moved (g : Grammar) (h : Moved φ s s') :
    s'.verdict g = (s.verdict g).mapError (Diagnostic.relocate φ) := by
  unfold verdict
  rw [stray?_moved h]
  cases s.stray? with
  | some c => exact congrArg Except.error (Stray.relocate_report φ c)
  | none =>
    rw [Option.map_none, tokens_moved h, h.stop]
    simp only [readStatement_relocate]
    cases readStatement g s.tokens s.stop with
    | ok kind => rfl
    | error fault => exact congrArg Except.error (Fault.relocate_report φ fault)

/-- A move takes the span of the segment along. -/
theorem span_moved {d : Distance} (h : Moved (Span.shift d) s s') :
    s'.span = s.span.shift d := by
  unfold span
  rw [h.items, h.stop]
  cases s.items with
  | nil => rfl
  | cons i items =>
    show (i.relocate (Span.shift d)).span.join (s.stop.shift d) = _
    rw [Item.span_relocate, Span.join_shift]

end Segment

end CalcSyntax
