import CalcSyntax.Proofs.Text.Line
import CalcSyntax.Proofs.Token.Place
import CalcSyntax.Token.Walk

/-!
# Walk — every place on a walk is counted right

A lexer never looks back at its text to say where it stands, so a slip in
one step would show in all that follow. On a walk the steps come in any
order: a statement may be left in the middle of a word, and a copy made long
ago may be gone back to. Since each step leads from a place in the text to a
place in the text, all of this is harmless.

## What is proved

- `Walk.Stands.step`, `Walk.Stands.run` — one step, and any number of them.
- `walk_standsIn` — behind any steps, the lexer and its copies stand between
  two characters of the text, on the line and in the column that their text
  shows, and so does every item that was read.
-/

set_option autoImplicit false

namespace CalcSyntax

/-! ## Places -/

/-- Line and column are counted from the text in front of the offset: the line feeds
there, and the characters behind the last of them. -/
def IsPlace (text : List Char) (offset line column : Nat) : Prop :=
  ∃ before, takeBytes? offset text = some before ∧ line = 1 + before.count '\n' ∧
    column = (before.reverse.takeWhile (· ≠ '\n')).length

theorem isPlace_behind (before after rest : List Char) :
    IsPlace (before ++ after) (Cursor.behind before rest).offset (Cursor.behind before rest).line
      (Cursor.behind before rest).column :=
  ⟨before, takeBytes?_append before after, Nat.add_comm _ 1, rfl⟩

/-- The offset where the line of a cursor begins: its column counts the characters
since then. -/
def Cursor.lineStart (text : List Char) (c : Cursor) : Nat :=
  let passed := text.take (text.length - c.rest.length)
  byteLength (passed.take (passed.length - c.column))

/-- The cursor stands in the text: its line begins between two characters, it stands
between two characters there or behind, and all that it says of its place is so. -/
structure Cursor.StandsIn (text : List Char) (c : Cursor) : Prop where
  ordered : c.lineStart text ≤ c.offset
  fits : c.offset ≤ byteLength text
  lineStart : IsBoundary text (c.lineStart text)
  offset : IsBoundary text c.offset
  rest : dropBytes? c.offset text = some c.rest
  line : ∃ line, slice? text (c.lineStart text) c.offset = some line ∧
    line.length = c.column ∧ '\n' ∉ line
  counted : IsPlace text c.offset c.line c.column

/-- A line feed, alone or behind a carriage return. -/
def Item.endsLine : Item → Bool
  | .ok t => t.kind == .terminator && t.lexeme != ":"
  | .error _ => false

/-- The lexer stands in the text, and so it does behind the blanks there, where its
next item begins. Its line begins where the text does, until a line break is read; then
it begins behind that. -/
structure Lexer.StandsIn (text : List Char) (lx : Lexer) : Prop where
  whole : lx.text = text
  here : lx.cursor.StandsIn text
  front : lx.front.StandsIn text
  lineStart_front : lx.front.lineStart text = lx.cursor.lineStart text
  lineStart_restart : lx.restart.cursor.lineStart text = 0
  lineStart_skip : lx.skipToTerminator.cursor.lineStart text = lx.cursor.lineStart text
  lineStart_read : lx.read.2.cursor.lineStart text =
    if lx.read.1.endsLine then lx.read.2.cursor.offset else lx.cursor.lineStart text

/-- The item stands in the text: its span covers the characters that it was read from,
it is placed where they begin, and a message about it names them. -/
structure Item.StandsIn (text : List Char) (i : Item) : Prop where
  ordered : i.span.start ≤ i.span.stop
  fits : i.span.stop ≤ byteLength text
  start : IsBoundary text i.span.start
  stop : IsBoundary text i.span.stop
  counted : IsPlace text i.span.start i.span.line i.span.column
  token : ∀ t, i = .ok t → t.span.slice? text = some t.lexeme.toList
  stray : ∀ s, i = .error s → s.report.span = s.span ∧ s.span.slice? text = some [s.char] ∧
    s.message = s!"unrecognized character '{s.char}'"

/-! ## Behind a text -/

namespace Cursor

theorem lineStart_behind {earlier line : List Char} (rest : List Char)
    (hcolumns : line.length = (Distance.after (earlier ++ line)).columns) :
    (behind (earlier ++ line) rest).lineStart (earlier ++ line ++ rest) = byteLength earlier := by
  have hpassed : (earlier ++ line ++ rest).take ((earlier ++ line ++ rest).length - rest.length) =
      earlier ++ line := by
    rw [List.length_append, Nat.add_sub_cancel, List.take_left]
  have hearlier : (earlier ++ line).length - line.length = earlier.length := by
    rw [List.length_append, Nat.add_sub_cancel]
  simp only [lineStart, behind, hpassed, ← hcolumns, hearlier, List.take_left]

/-- Along a line, the line begins where it did. -/
theorem lineStart_append_line (before rest : List Char) {cs : List Char} (h : '\n' ∉ cs) :
    (behind (before ++ cs) rest).lineStart (before ++ cs ++ rest) =
      (behind before (cs ++ rest)).lineStart (before ++ (cs ++ rest)) := by
  obtain ⟨earlier, line, rfl, -, -, hcolumns⟩ := exists_lastLine before
  have hgrown : (line ++ cs).length =
      (Distance.after (earlier ++ (line ++ cs))).columns := by
    rw [← List.append_assoc, Distance.after_append_line _ h, List.length_append, hcolumns]
  rw [List.append_assoc earlier, lineStart_behind rest hgrown, lineStart_behind _ hcolumns]

/-- A cursor that has moved along its line is on the same line. -/
theorem lineStart_eq_of_line {text before cs : List Char} {c moved : Cursor}
    (htext : text = before ++ c.rest) (hc : c = behind before c.rest)
    (hrest : c.rest = cs ++ moved.rest) (hmoved : moved = behind (before ++ cs) moved.rest)
    (h : '\n' ∉ cs) : moved.lineStart text = c.lineStart text := by
  have hstart := lineStart_append_line before moved.rest h
  rw [hrest] at htext hc
  rwa [List.append_assoc before, ← htext, ← hmoved, ← hc] at hstart

/-- Behind a line feed, the line begins there. -/
theorem lineStart_append_break (before rest : List Char) :
    (behind (before ++ ['\n']) rest).lineStart (before ++ ['\n'] ++ rest) =
      (behind (before ++ ['\n']) rest).offset := by
  have hcolumns : ([] : List Char).length = (Distance.after (before ++ ['\n'] ++ [])).columns := by
    rw [List.append_nil, Distance.after_append_break]
    rfl
  have hstart := lineStart_behind rest hcolumns
  rwa [List.append_nil] at hstart

theorem standsIn_behind (before rest : List Char) :
    (behind before rest).StandsIn (before ++ rest) := by
  obtain ⟨earlier, line, rfl, -, hline, hcolumns⟩ := exists_lastLine before
  have hstart := lineStart_behind rest hcolumns
  have hoffset : (behind (earlier ++ line) rest).offset = byteLength earlier + byteLength line :=
    byteLength_append earlier line
  constructor
  case ordered => rw [hstart, hoffset]; exact Nat.le_add_right _ _
  case fits => exact byteLength_le_of_isPrefix (List.prefix_append _ _)
  case lineStart =>
    rw [hstart, List.append_assoc]
    exact isBoundary_append _ _
  case offset => exact isBoundary_append _ _
  case rest => exact dropBytes?_append _ _
  case line =>
    rw [hstart, hoffset]
    exact ⟨line, slice?_append earlier line rest, hcolumns, hline⟩
  case counted => exact isPlace_behind _ _ _

end Cursor

namespace Lexer

variable {text : List Char} {g : Grammar} {lx behind : Lexer} {item : Item}

/-- What is read is a line break, or stays on the line. -/
theorem ReadsItem.break_or_line (hg : g.NoLineFeed) (hl : lx.lexicon = g.lexicon)
    (h : lx.ReadsItem item behind) :
    (item.endsLine = true ∧ ∃ cs, item.chars = cs ++ ['\n']) ∨
      (item.endsLine = false ∧ '\n' ∉ item.chars) := by
  cases h with
  | @token w hw =>
    rw [hl] at hw
    simp only [Item.endsLine, Item.chars, String.toList_ofList]
    rcases Lexicon.counted_of_read hg hw with ⟨hkind, hmem⟩ | ⟨hkind, hline⟩
    · rw [hkind]
      rcases eq_of_mem_terminators hmem with hfeed | hcolon | hreturn
      · rw [hfeed]
        exact .inl ⟨rfl, [], rfl⟩
      · rw [hcolon]
        exact .inr ⟨rfl, by decide⟩
      · rw [hreturn]
        exact .inl ⟨rfl, ['\r'], rfl⟩
    · refine .inr ⟨?_, hline⟩
      rw [beq_eq_false_iff_ne.mpr hkind, Bool.false_and]
  | stray hc => exact .inr ⟨rfl, Lexicon.not_mem_of_read_error hc⟩

/-- The line of a lexer begins behind the last line break that it has read. -/
theorem Stands.lineStart_readsItem (hg : g.NoLineFeed) (h : lx.Stands text g)
    (hread : lx.ReadsItem item behind) :
    behind.cursor.lineStart text =
      if item.endsLine then behind.cursor.offset else lx.cursor.lineStart text := by
  obtain ⟨before, htext, hcursor⟩ := h.place
  obtain ⟨passed, hpassed, hbehind⟩ := (h.readsItem hg hread).1.place
  have hwhole : passed ++ behind.cursor.rest =
      before ++ (leadingBlanks lx.cursor.rest ++ item.chars) ++ behind.cursor.rest := by
    rw [← hpassed, List.append_assoc, List.append_assoc, ← hread.passes.rest, htext]
  rw [List.append_cancel_right hwhole] at hpassed hbehind
  rcases hread.break_or_line hg h.words with ⟨hends, cs, hchars⟩ | ⟨hends, hline⟩
  · rw [if_pos hends, hbehind, hpassed, hchars, ← List.append_assoc, ← List.append_assoc]
    exact Cursor.lineStart_append_break _ _
  · rw [if_neg (Bool.not_eq_true _ ▸ hends)]
    have hstay : '\n' ∉ leadingBlanks lx.cursor.rest ++ item.chars := fun hmem =>
      (List.mem_append.mp hmem).elim (not_mem_leadingBlanks lx.cursor.rest) hline
    refine Cursor.lineStart_eq_of_line htext hcursor ?_ hbehind hstay
    rw [List.append_assoc]
    exact hread.passes.rest

theorem Stands.standsIn (hg : g.NoLineFeed) (h : lx.Stands text g) : lx.StandsIn text := by
  obtain ⟨before, htext, hcursor⟩ := h.place
  have hfront := front_behind hcursor
  constructor
  case whole => exact h.whole
  case here =>
    rw [htext, hcursor]
    exact Cursor.standsIn_behind _ _
  case front =>
    rw [htext, ← lx.rest_front, ← List.append_assoc, hfront]
    exact Cursor.standsIn_behind _ _
  case lineStart_front =>
    exact Cursor.lineStart_eq_of_line htext hcursor lx.rest_front.symm hfront
      (not_mem_leadingBlanks _)
  case lineStart_restart =>
    have hcolumns : ([] : List Char).length = (Distance.after ([] ++ [])).columns := rfl
    rw [← h.whole]
    exact Cursor.lineStart_behind lx.text hcolumns
  case lineStart_skip =>
    exact Cursor.lineStart_eq_of_line htext hcursor lx.rest_skipToTerminator
      (skip_behind hcursor) (not_mem_untilTerminator _)
  case lineStart_read => exact h.lineStart_readsItem hg lx.readsItem_read

end Lexer

theorem Item.CutFrom.standsIn {text : List Char} {i : Item} {before after : List Char}
    (h : i.CutFrom text before after) : i.StandsIn text := by
  have hspan := h.place
  have hslice : i.span.slice? text = some i.chars := by
    rw [hspan, h.whole]
    exact slice?_append before i.chars after
  have hstop : i.span.stop = byteLength (before ++ i.chars) := by
    rw [hspan, byteLength_append]
    rfl
  have hboundary : IsBoundary text i.span.stop := by
    rw [hstop, h.whole]
    exact isBoundary_append _ _
  constructor
  case ordered => rw [hspan]; exact Nat.le_add_right _ _
  case fits => exact hboundary.le
  case start =>
    rw [hspan, h.whole, List.append_assoc]
    exact isBoundary_append _ _
  case stop => exact hboundary
  case counted =>
    rw [hspan, h.whole, List.append_assoc]
    exact isPlace_behind before (i.chars ++ after) (i.chars ++ after)
  case token => rintro t rfl; exact hslice
  case stray => rintro s rfl; exact ⟨s.span_report, hslice, s.message_eq⟩

/-! ## Steps -/

/-- All lexers of a walk stand in the text, and all its items were cut out of it. -/
structure Walk.Stands (text : List Char) (g : Grammar) (w : Walk) : Prop where
  lexer : w.lexer.Stands text g
  kept : ∀ lx ∈ w.kept, lx.Stands text g
  met : ∀ i ∈ w.met, ∃ before after, i.CutFrom text before after

namespace Walk

variable {text : List Char} {g : Grammar} {w : Walk}

theorem stands_ofSource (source : String) (g : Grammar) :
    (ofSource source g).Stands source.toList g :=
  ⟨Lexer.stands_ofSource source g, nofun, nofun⟩

theorem Stands.reading (h : w.Stands text g) {items : List Item} {behind : Lexer}
    (hbehind : behind.Stands text g)
    (hitems : ∀ i ∈ items, ∃ before after, i.CutFrom text before after) :
    (w.reading items behind).Stands text g :=
  ⟨hbehind, h.kept, List.forall_mem_append.mpr ⟨h.met, hitems⟩⟩

/-- **One step.** -/
theorem Stands.step (hg : g.NoLineFeed) (h : w.Stands text g) (s : Step) :
    (w.step s).Stands text g := by
  obtain ⟨hread, before, hcut⟩ := h.lexer.readsItem hg w.lexer.readsItem_read
  have hitem : ∃ before after, w.lexer.read.1.CutFrom text before after := ⟨before, _, hcut⟩
  cases s with
  | next =>
    rw [Walk.step]
    cases hended : w.lexer.ended with
    | true =>
      rw [Lexer.next?_of_ended hended]
      exact h.reading h.lexer nofun
    | false =>
      rw [Lexer.next?_of_not_ended hended]
      exact h.reading ⟨hread.whole, hread.words, hread.place⟩
        (List.forall_mem_singleton.mpr hitem)
  | read => exact h.reading hread (List.forall_mem_singleton.mpr hitem)
  | skip => exact ⟨h.lexer.skip, h.kept, h.met⟩
  | restart => exact ⟨h.lexer.restart, h.kept, h.met⟩
  | keep =>
    exact ⟨h.lexer, List.forall_mem_append.mpr ⟨h.kept, List.forall_mem_singleton.mpr h.lexer⟩,
      h.met⟩
  | resume number =>
    refine ⟨?_, h.kept, h.met⟩
    show (w.kept.getD number w.lexer).Stands text g
    rw [List.getD_eq_getElem?_getD]
    cases hkept : w.kept[number]? with
    | none => exact h.lexer
    | some lx => exact h.kept lx (List.mem_of_getElem? hkept)

/-- **Any steps.** -/
theorem Stands.run (hg : g.NoLineFeed) (steps : List Step) (h : w.Stands text g) :
    (w.run steps).Stands text g := by
  induction steps generalizing w with
  | nil => exact h
  | cons s steps ih => exact ih (h.step hg s)

end Walk

/-- **Where a lexer stands.** Behind any steps from the beginning of a source, the lexer
and all its copies stand in the source, and so do all items that were read. -/
theorem walk_standsIn (source : String) (g : Grammar) (hg : g.NoLineFeed) (steps : List Step) :
    let w := (Walk.ofSource source g).run steps
    w.lexer.StandsIn source.toList ∧ (∀ lx ∈ w.kept, lx.StandsIn source.toList) ∧
      ∀ i ∈ w.met, i.StandsIn source.toList := by
  have h := (Walk.stands_ofSource source g).run hg steps
  refine ⟨h.lexer.standsIn hg, fun lx hlx => (h.kept lx hlx).standsIn hg, fun i hi => ?_⟩
  obtain ⟨before, after, hcut⟩ := h.met i hi
  exact hcut.standsIn

/-- A walk behind a line break: over a letter of two bytes and a stray character, on to
the colon, back to a copy, and from the beginning to the end of the first line. -/
theorem walk_standsIn_copy :
    Grammar.calculator.NoLineFeed ∧
      let w := (Walk.ofSource "1\r\n θ$3:2" .calculator).run
        [.next, .next, .keep, .next, .next, .skip, .read, .resume 0, .read, .restart, .skip, .read]
      (w.lexer.StandsIn "1\r\n θ$3:2".toList ∧
        (∀ lx ∈ w.kept, lx.StandsIn "1\r\n θ$3:2".toList) ∧
        ∀ i ∈ w.met, i.StandsIn "1\r\n θ$3:2".toList) ∧
      w.met.map Item.span = [⟨0, 1, 1, 0⟩, ⟨1, 3, 1, 1⟩, ⟨4, 6, 2, 1⟩, ⟨6, 7, 2, 2⟩, ⟨8, 9, 2, 4⟩,
        ⟨4, 6, 2, 1⟩, ⟨1, 3, 1, 1⟩] := by
  have hline : Grammar.calculator.NoLineFeed := by decide +kernel
  refine ⟨hline, walk_standsIn _ _ hline _, ?_⟩
  decide +kernel

end CalcSyntax
