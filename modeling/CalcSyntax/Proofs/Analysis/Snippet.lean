import CalcSyntax.Diagnostic.Snippet
import CalcSyntax.Proofs.Analysis.Diagnostics
import CalcSyntax.Proofs.Token.Mark

/-!
# Snippet — the row that a diagnostic quotes

A snippet is put together from a span and a text, and takes the span at its word: the
row is looked up by the number of the line, the carets are moved by the column, and
the marked text is cut out by the offsets. That the three belong together rests on the
place that the lexer has counted. A diagnostic stands at an item of its segment or in
front of its closer, and both are marks on a line (`marks_of_mem_scan`).

## What is proved

- `marks_of_mem_diagnostics` — every diagnostic of a source marks a stretch of a line.
- `snippet_shows` — its snippet quotes that line, and underlines that stretch by as many
  columns as it has.
- `idxOf_caret` — the two rows do not line up: what stands in front of the quoted row is
  wider than what stands in front of the carets.
-/

set_option autoImplicit false

namespace CalcSyntax

/-! ## Marks -/

/-- A message about a segment marks a stretch of a line. -/
theorem Segment.marks_of_verdict_error {g : Grammar} (hk : g.KeepsLines) {source : String}
    {s : Segment} (hs : s ∈ segments source g) {d : Diagnostic} (h : s.verdict g = .error d) :
    ∃ before marked after, Marks source.toList d.span before marked after := by
  have hsplit := mem_split_of_mem_segments hs
  rcases item_or_stop_of_verdict_error h with ⟨i, hi, hspan⟩ | hstop
  · obtain ⟨_, hitem⟩ := marks_of_mem_scan hk source i (mem_scan_of_mem_marks hsplit (mem_marks hi))
    obtain ⟨before, after, hmarks⟩ := hitem (inner_of_mem_split _ s hsplit i hi)
    exact ⟨before, i.chars, after, hspan ▸ hmarks⟩
  · obtain ⟨⟨before, after, hmarks⟩, _⟩ := marks_of_mem_scan hk source (.ok s.closer)
      (mem_scan_of_mem_marks hsplit s.closer_mem_marks)
    exact ⟨before, [], after, hstop ▸ hmarks⟩

/-- **A diagnostic marks a stretch of a line.** -/
theorem marks_of_mem_diagnostics {g : Grammar} (hk : g.KeepsLines) {source : String}
    {d : Diagnostic} (h : d ∈ (analyze source g).diagnostics) :
    ∃ before marked after, Marks source.toList d.span before marked after := by
  obtain ⟨j, hj, hdiagnostic⟩ := List.mem_filterMap.mp h
  obtain ⟨s, hs, rfl⟩ := List.mem_map.mp hj
  obtain ⟨e, hverdict, rfl⟩ := Judged.diagnostic?_eq_some hdiagnostic
  show ∃ before marked after, Marks source.toList e.span before marked after
  exact Segment.marks_of_verdict_error hk hs hverdict

/-! ## The row -/

/-- What a reader is shown of a span: the row on which it stands, without the line break
there, and the stretch of the row that it covers. -/
structure Span.Shows (text : List Char) (span : Span) (row marked : List Char) : Prop where
  line : ∃ before ending after, IsLine text before row ending after ∧
    span.line = before.count '\n' + 1 ∧ span.start = byteLength (before ++ row.take span.column)
  within : span.column ≤ row.length
  slice : span.slice? text = some marked
  under : marked <+: row.drop span.column

/-- A mark is shown, and its row is the one that a page has under the number of the line. -/
theorem Marks.shows {source : String} {span : Span} {before marked after : List Char}
    (h : Marks source.toList span before marked after) (file : String) :
    ∃ row, span.Shows source.toList row marked ∧
      (Page.ofSource file source).row span.line = row := by
  obtain ⟨earlier, line, row, ending, below, rfl, hline, hcolumns, ⟨behind, rfl⟩, hrow⟩ :=
    exists_isLine h.inner h.apart
  rw [← h.whole] at hrow
  have hcolumn : span.column = line.length := by
    rw [h.place, hcolumns]
    rfl
  have hnumber : span.line = earlier.count '\n' + 1 := by
    rw [h.place, ← count_append_line earlier hline]
    rfl
  have hslice : span.slice? source.toList = some marked := by
    have hcut := slice?_append (earlier ++ line) marked after
    rw [List.append_assoc, ← h.whole] at hcut
    rw [h.place]
    exact hcut
  refine ⟨_, ⟨⟨earlier, ending, below, hrow, hnumber, ?_⟩, ?_, hslice, ?_⟩, ?_⟩
  · rw [hcolumn, List.append_assoc, List.take_left, h.place]
    rfl
  · rw [hcolumn, List.append_assoc, List.length_append]
    exact Nat.le_add_right _ _
  · rw [hcolumn, List.append_assoc, List.drop_left]
    exact List.prefix_append _ _
  · rw [hnumber]
    exact hrow.row_eq

/-! ## The carets -/

/-- So many characters in front of the carets: tabs under tabs, and spaces. -/
structure IsIndent (row : List Char) (column : Nat) (indent : List Char) : Prop where
  length : indent.length = column
  under : ∀ k < column, indent[k]? = if row[k]? = some '\t' then some '\t' else some ' '

theorem isIndent_underRow {row : List Char} {column : Nat} (h : column ≤ row.length) :
    IsIndent row column (underRow row column) where
  length := by
    rw [underRow, List.length_map, List.length_take, Nat.min_eq_left h]
  under k hk := by
    rw [underRow, List.getElem?_map, List.getElem?_take_of_lt hk,
      List.getElem?_eq_getElem (Nat.lt_of_lt_of_le hk h), Option.map_some]
    simp only [Option.some.injEq]
    split <;> rfl

/-- The snippet is made of the message, the place, the row with its number, the carets and
the hint. -/
theorem Diagnostic.snippet?_of_slice? {p : Page} {d : Diagnostic} {marked : List Char}
    (h : d.span.slice? p.text = some marked) :
    d.snippet? p = some (endedLines (
      [s!"error[{d.code}]: {d.message}", s!"  --> {p.file}:{d.span.shown}", "   |",
        padLeft 3 (toString d.span.line) ++ " | " ++ String.ofList (p.row d.span.line),
        "   | " ++ String.ofList
          (underRow (p.row d.span.line) d.span.column ++ List.replicate (max 1 marked.length) '^')]
      ++ d.hint.elim [] fun text => ["", s!"help: {text}"])) := by
  rw [snippet?, h, Option.map_some, snippetLines]
  cases d.hint <;> rfl

/-- **A diagnostic quotes its line and underlines its span.** -/
theorem snippet_shows (file source : String) :
    ∀ d ∈ (analyze source .calculator).diagnostics, ∃ row marked indent,
      d.span.Shows source.toList row marked ∧ IsIndent row d.span.column indent ∧
      d.snippet? (.ofSource file source) = some (endedLines (
        [s!"error[{d.code}]: {d.message}", s!"  --> {file}:{d.span.shown}", "   |",
          padLeft 3 (toString d.span.line) ++ " | " ++ String.ofList row,
          "   | " ++ String.ofList (indent ++ List.replicate (max 1 marked.length) '^')]
        ++ d.hint.elim [] fun text => ["", s!"help: {text}"])) := by
  intro d hd
  obtain ⟨before, marked, after, hmarks⟩ :=
    marks_of_mem_diagnostics Grammar.keepsLines_calculator hd
  obtain ⟨row, hshows, rfl⟩ := hmarks.shows file
  exact ⟨_, marked, underRow _ d.span.column, hshows, isIndent_underRow hshows.within,
    Diagnostic.snippet?_of_slice? hshows.slice⟩

/-- An operand is missing at the end of the second line, behind a tab and a letter that takes
two bytes. -/
def missingOperand : Diagnostic :=
  .within ⟨.syntactic, "E_SYNTAX", "expected expression, found end of statement", ⟨8, 8, 2, 3⟩,
    none, none⟩ ⟨5, 8, 2, 1⟩

theorem missingOperand_mem :
    missingOperand ∈ (analyze "θ\r\n\tθ+\r\n" .calculator).diagnostics := by
  decide +kernel

/-- The break after the row is not quoted, and one caret stands behind the row. -/
theorem snippet_shows_atEnd :
    missingOperand ∈ (analyze "θ\r\n\tθ+\r\n" .calculator).diagnostics ∧
      (∃ row marked indent, missingOperand.span.Shows "θ\r\n\tθ+\r\n".toList row marked ∧
        IsIndent row 3 indent ∧
        missingOperand.snippet? (.ofSource "prgm.tib" "θ\r\n\tθ+\r\n") = some (endedLines
          (["error[E_SYNTAX]: expected expression, found end of statement",
            "  --> prgm.tib:2:4", "   |", "  2 | " ++ String.ofList row,
            "   | " ++ String.ofList (indent ++ List.replicate (max 1 marked.length) '^')] ++ []))) ∧
      missingOperand.snippet? (.ofSource "prgm.tib" "θ\r\n\tθ+\r\n") =
        some ("error[E_SYNTAX]: expected expression, found end of statement\n" ++
          "  --> prgm.tib:2:4\n   |\n  2 | \tθ+\n   | \t  ^\n") := by
  exact ⟨missingOperand_mem,
    snippet_shows "prgm.tib" "θ\r\n\tθ+\r\n" missingOperand missingOperand_mem,
    by decide +kernel⟩

/-! ## Columns -/

theorem length_padLeft (width : Nat) (text : String) :
    (padLeft width text).length = max width text.length := by
  rw [padLeft, String.length_append, String.length_ofList, List.length_replicate]
  omega

theorem not_mem_underRow (row : List Char) (column : Nat) : '^' ∉ underRow row column := by
  intro h
  obtain ⟨c, _, hc⟩ := List.mem_map.mp h
  split at hc <;> cases hc

/-- The first caret stands behind the bar and the indent. -/
theorem idxOf_underline {row : List Char} {column width : Nat} (h : column ≤ row.length)
    (hwidth : 0 < width) :
    let carets := "   | " ++ String.ofList (underRow row column ++ List.replicate width '^')
    '^' ∈ carets.toList ∧ carets.toList.idxOf '^' = 5 + column := by
  obtain ⟨more, rfl⟩ := Nat.exists_eq_add_one_of_ne_zero (Nat.ne_of_gt hwidth)
  have hbar : '^' ∉ "   | ".toList := by decide
  have hlength : "   | ".toList.length = 5 := rfl
  simp only [String.toList_append, String.toList_ofList, List.replicate_succ]
  refine ⟨by simp, ?_⟩
  rw [List.idxOf_append, if_neg hbar, List.idxOf_append, if_neg (not_mem_underRow row column),
    List.idxOf_cons_self, (isIndent_underRow h).length, hlength, Nat.zero_add, Nat.add_comm]

/-- **The first caret stands left of what it points at**: by one column where the number of
the line has up to three digits, and by another one for each digit more. -/
theorem idxOf_caret (file source : String) :
    ∀ d ∈ (analyze source .calculator).diagnostics, ∃ above gutter row carets hint,
      d.snippet? (.ofSource file source) =
          some (endedLines (above ++ [gutter ++ String.ofList row, carets] ++ hint)) ∧
        above.length = 3 ∧ gutter = padLeft 3 (toString d.span.line) ++ " | " ∧
        d.span.column ≤ row.length ∧ '^' ∈ carets.toList ∧
        carets.toList.idxOf '^' + (max 3 (toString d.span.line).length - 2) =
          gutter.length + d.span.column := by
  intro d hd
  obtain ⟨before, marked, after, hmarks⟩ :=
    marks_of_mem_diagnostics Grammar.keepsLines_calculator hd
  obtain ⟨row, hshows, rfl⟩ := hmarks.shows file
  have hwidth : 0 < max 1 marked.length := Nat.lt_of_lt_of_le Nat.one_pos (Nat.le_max_left _ _)
  obtain ⟨hcaret, hidx⟩ := idxOf_underline hshows.within hwidth
  refine ⟨[_, _, _], _, _, _, _, Diagnostic.snippet?_of_slice? hshows.slice, rfl, rfl,
    hshows.within, hcaret, ?_⟩
  have hbar : " | ".length = 3 := rfl
  rw [hidx, String.length_append, length_padLeft, hbar]
  omega

/-- Behind a tab the caret is a column too far to the left as well. -/
theorem idxOf_caret_atEnd :
    ∃ above row carets hint, missingOperand.snippet? (.ofSource "prgm.tib" "θ\r\n\tθ+\r\n") =
        some (endedLines (above ++ ["  2 | " ++ String.ofList row, carets] ++ hint)) ∧
      above.length = 3 ∧ 3 ≤ row.length ∧ '^' ∈ carets.toList ∧
      carets.toList.idxOf '^' + 1 = 6 + 3 := by
  obtain ⟨above, gutter, row, carets, hint, hsnippet, hlength, rfl, hcolumn, hcaret, hidx⟩ :=
    idxOf_caret "prgm.tib" "θ\r\n\tθ+\r\n" missingOperand missingOperand_mem
  exact ⟨above, row, carets, hint, hsnippet, hlength, hcolumn, hcaret, hidx⟩

/-- The star stands in column eight of the quoted row, and the caret in column seven. -/
theorem caret_leftOfStar :
    ∃ d ∈ (analyze "1+*2" .calculator).diagnostics, d.span.column = 2 ∧
      d.snippet? (.ofSource "prgm.tib" "1+*2") =
        some ("error[E_SYNTAX]: expected expression, found operator '*'\n  --> prgm.tib:1:3\n" ++
          "   |\n" ++ "  1 | 1+*2\n" ++ "   |   ^\n" ++
          "\nhelp: '*' needs an operand on its left\n") ∧
      "  1 | 1+*2".toList.idxOf '*' = 8 ∧ "   |   ^".toList.idxOf '^' = 7 := by
  decide +kernel

end CalcSyntax
