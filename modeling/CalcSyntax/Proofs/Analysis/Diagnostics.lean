import CalcSyntax.Proofs.Reading.Relocation
import CalcSyntax.Proofs.Segment.Order
import CalcSyntax.Proofs.Segment.Spelled

/-!
# Diagnostics — one message to a broken statement, in order

A statement is broken by a stray character, by a token at which its rules
stop, by its end, or by the number of its arguments. In each case the message
stands at an item of the segment or at its closer, so it stands within the
span of the statement. Since spans of statements do not touch, the order of
the statements is the order of the messages.

## What is proved

- `Segment.span_of_verdict_error` — the message about a segment stands within
  its span.
- `analyze_inOrder` — the statements of a source and its diagnostics.
-/

set_option autoImplicit false

namespace CalcSyntax

/-! ## One segment -/

namespace Segment

variable {text : List Char} {g : Grammar} {s : Segment}

/-- A broken segment has a stray character, or a fault. -/
theorem stray_or_fault_of_verdict_error {d : Diagnostic} (h : s.verdict g = .error d) :
    (∃ stray, .error stray ∈ s.items ∧ d = stray.report) ∨
      ∃ fault, readStatement g s.tokens s.stop = .error fault ∧ d = fault.report := by
  unfold verdict at h
  cases hstray : s.stray? with
  | some stray =>
    rw [hstray] at h
    obtain ⟨item, hitem, hfound⟩ := List.exists_of_findSome?_eq_some hstray
    cases item with
    | ok t => cases hfound
    | error c =>
      obtain rfl : c = stray := Option.some.inj hfound
      exact .inl ⟨c, hitem, (Except.error.inj h).symm⟩
  | none =>
    rw [hstray] at h
    cases hread : readStatement g s.tokens s.stop with
    | ok kind => rw [hread] at h; cases h
    | error fault =>
      rw [hread] at h
      exact .inr ⟨fault, rfl, (Except.error.inj h).symm⟩

/-- A message about a segment stands at one of its items, or where the segment ends. -/
theorem item_or_stop_of_verdict_error {d : Diagnostic} (h : s.verdict g = .error d) :
    (∃ i ∈ s.items, d.span = i.span) ∨ d.span = s.stop := by
  rcases stray_or_fault_of_verdict_error h with ⟨stray, hmem, rfl⟩ | ⟨fault, hread, rfl⟩
  · exact .inl ⟨_, hmem, stray.span_report⟩
  · rw [fault.span_report]
    rcases List.mem_cons.mp (span_mem_of_readStatement hread) with hstop | htoken
    · exact .inr hstop
    · obtain ⟨t, ht, hspan⟩ := List.mem_map.mp htoken
      exact .inl ⟨_, mem_items_of_mem_tokens ht, hspan.symm⟩

/-- **A message about a segment stands within its span.** -/
theorem span_of_verdict_error (hplaced : s.Placed text) {d : Diagnostic}
    (h : s.verdict g = .error d) :
    s.span.start ≤ d.span.start ∧ d.span.start ≤ d.span.stop ∧ d.span.stop ≤ s.span.stop := by
  rcases item_or_stop_of_verdict_error h with ⟨i, hi, hspan⟩ | hstop
  · rw [hspan, hplaced.stop_span]
    exact ⟨hplaced.start_span_le (mem_marks hi), (hplaced.covers i (mem_marks hi)).le,
      hplaced.stop_le_closer hi⟩
  · rw [hstop, hplaced.stop_span]
    exact ⟨hplaced.start_span_le s.closer_mem_marks, Nat.le_refl _, Nat.le_refl _⟩

end Segment

/-- What is read is not invalid. -/
theorem isInvalid_of_readStatement {g : Grammar} {tokens : List Token} {closing : Span}
    {kind : StatementKind} (h : readStatement g tokens closing = .ok kind) :
    kind.isInvalid = false := by
  cases readsStatement_of_readStatement h <;> rfl

/-! ## All segments -/

/-- The statements and the diagnostics of a text. Each diagnostic belongs to an invalid
statement, in order, and stands within it. The statements are cut out of the text, and
a character at least stands between two of them. -/
structure Analysis.InOrder (text : List Char) (a : Analysis) : Prop where
  marked : a.diagnostics.map (·.statement) =
    (a.program.statements.filter (·.kind.isInvalid)).map fun st => some st.span
  within : ∀ d ∈ a.diagnostics, ∃ span, d.statement = some span ∧
    span.start ≤ d.span.start ∧ d.span.start ≤ d.span.stop ∧ d.span.stop ≤ span.stop
  cut : ∀ st ∈ a.program.statements, st.span.start ≤ st.span.stop ∧
    st.span.stop ≤ byteLength text ∧ IsBoundary text st.span.start ∧ IsBoundary text st.span.stop
  apart : a.program.statements.Pairwise fun st next => st.span.stop < next.span.start
  quoted : ∀ st ∈ a.program.statements, ∀ raw, st.kind = .invalid raw →
    ∃ cs, st.span.slice? text = some cs ∧ raw = String.ofList (trimEnd cs)
  increasing : a.diagnostics.Pairwise fun d next => d.span.stop < next.span.start

namespace Judged

variable {text : List Char} {g : Grammar}

theorem span_stmt (text : List Char) (j : Judged) : (j.stmt text).span = j.segment.span := by
  unfold stmt
  split <;> rfl

theorem diagnostic?_eq_some {j : Judged} {d : Diagnostic} (h : j.diagnostic? = some d) :
    ∃ e, j.verdict = .error e ∧ d = e.within j.segment.span := by
  unfold diagnostic? at h
  split at h
  · cases h
  · next e he => exact ⟨e, he, (Option.some.inj h).symm⟩

/-- The invalid statements are those that have a diagnostic. -/
theorem marked_of_segments (text : List Char) (g : Grammar) (ss : List Segment) :
    ((ss.map (ofSegment g)).filterMap diagnostic?).map (·.statement) =
      (((ss.map (ofSegment g)).map (stmt text)).filter (·.kind.isInvalid)).map
        fun st => some st.span := by
  induction ss with
  | nil => rfl
  | cons s ss ih =>
    have hspan := span_stmt text (ofSegment g s)
    cases hv : s.verdict g with
    | ok kind =>
      have hdiagnostic : (ofSegment g s).diagnostic? = none := by
        simp only [diagnostic?, ofSegment, hv]
      have hvalid : ((ofSegment g s).stmt text).kind.isInvalid = false := by
        simp only [stmt, ofSegment, hv]
        exact isInvalid_of_readStatement (readStatement_of_verdict hv)
      simp only [List.map_cons, List.filterMap_cons, List.filter_cons, hdiagnostic, hvalid,
        Bool.false_eq_true, ↓reduceIte, ih]
    | error d =>
      have hdiagnostic : (ofSegment g s).diagnostic? = some (d.within s.span) := by
        simp only [diagnostic?, ofSegment, hv]
      have hinvalid : ((ofSegment g s).stmt text).kind.isInvalid = true := by
        simp only [stmt, ofSegment, hv]
        rfl
      simp only [List.map_cons, List.filterMap_cons, List.filter_cons, hdiagnostic, hinvalid,
        ↓reduceIte, ih, hspan]
      rfl

end Judged

section Source

variable {source : String} {g : Grammar}

/-- A diagnostic of a source stands within its segment. -/
theorem within_of_mem_segments (hg : g.NoEmptyWord) {s : Segment}
    (hs : s ∈ segments source g) {d : Diagnostic}
    (h : (Judged.ofSegment g s).diagnostic? = some d) :
    d.statement = some s.span ∧ s.span.start ≤ d.span.start ∧ d.span.start ≤ d.span.stop ∧
      d.span.stop ≤ s.span.stop := by
  obtain ⟨e, hverdict, rfl⟩ := Judged.diagnostic?_eq_some h
  have hspan : s.span.start ≤ e.span.start ∧ e.span.start ≤ e.span.stop ∧
      e.span.stop ≤ s.span.stop :=
    Segment.span_of_verdict_error (placed_of_mem_segments hg hs) hverdict
  exact ⟨rfl, hspan⟩

/-- **One diagnostic to a broken statement, in order.** -/
theorem analyze_inOrder (source : String) (g : Grammar) (hg : g.NoEmptyWord) :
    (analyze source g).InOrder source.toList where
  marked := Judged.marked_of_segments source.toList g (segments source g)
  within d hd := by
    obtain ⟨j, hj, hdiagnostic⟩ := List.mem_filterMap.mp hd
    obtain ⟨s, hs, rfl⟩ := List.mem_map.mp hj
    exact ⟨s.span, within_of_mem_segments hg hs hdiagnostic⟩
  cut st hst := by
    obtain ⟨s, hs, rfl⟩ := exists_segment_of_mem hst
    obtain ⟨hle, hstart, hstop⟩ := (placed_of_mem_segments hg hs).isBoundary
    rw [Judged.span_stmt]
    exact ⟨hle, hstop.le, hstart, hstop⟩
  apart := by
    refine List.pairwise_map.mpr (List.pairwise_map.mpr ?_)
    refine (segments_pairwise source hg).imp fun h => ?_
    rw [Judged.span_stmt, Judged.span_stmt]
    exact h
  quoted st hst raw hraw := by
    obtain ⟨s, hs, rfl⟩ := exists_segment_of_mem hst
    obtain ⟨hle, hstart, hstop⟩ := (placed_of_mem_segments hg hs).isBoundary
    obtain ⟨cs, hcs⟩ := exists_slice? hstart hstop hle
    rw [Judged.span_stmt]
    refine ⟨cs, hcs, ?_⟩
    rcases readStatement_or_invalid g source.toList s with hread | ⟨_, hinvalid⟩
    · have hvalid := isInvalid_of_readStatement hread
      rw [hraw] at hvalid
      cases hvalid
    · rw [hinvalid] at hraw
      rw [← StatementKind.invalid.inj hraw, Segment.rawText, Span.slice?]
      exact congrArg (fun o => String.ofList (trimEnd (Option.getD o []))) hcs
  increasing := by
    refine List.pairwise_filterMap.mpr (List.pairwise_map.mpr ?_)
    refine (segments_pairwise source hg).imp_of_mem fun {s r} hs hr h d hd next hnext => ?_
    have hbefore := within_of_mem_segments hg hs hd
    have hbehind := within_of_mem_segments hg hr hnext
    omega

end Source

/-- A stray character in front of a no-break space, an operand that is missing at the
end, and an argument too many; the empty statement and the last one are valid. -/
theorem analyze_inOrder_broken :
    Grammar.calculator.NoEmptyWord ∧
      (analyze "1 $\u00a0:θ+ \r\n\nabs(1,2):Disp 1" .calculator).InOrder
        "1 $\u00a0:θ+ \r\n\nabs(1,2):Disp 1".toList ∧
      (analyze "1 $\u00a0:θ+ \r\n\nabs(1,2):Disp 1" .calculator).program.statements.map
        Statement.span =
          [⟨0, 5, 1, 0⟩, ⟨6, 10, 1, 5⟩, ⟨12, 12, 2, 0⟩, ⟨13, 21, 3, 0⟩, ⟨22, 28, 3, 9⟩] ∧
      (analyze "1 $\u00a0:θ+ \r\n\nabs(1,2):Disp 1" .calculator).diagnostics.map
        Diagnostic.span = [⟨2, 3, 1, 2⟩, ⟨10, 10, 1, 8⟩, ⟨13, 17, 3, 0⟩] := by
  have hwords : Grammar.calculator.NoEmptyWord := by decide +kernel
  refine ⟨hwords, analyze_inOrder _ _ hwords, ?_, ?_⟩
  · decide +kernel
  · decide +kernel

end CalcSyntax
