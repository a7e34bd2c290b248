import CalcSyntax.Proofs.Text.Line
import CalcSyntax.Proofs.Token.Tiling

/-!
# Mark — the stretch of a line that a span marks

Where no spelling holds a break, no item but the end of a statement reaches over a
line. And no reader of the text stops in the middle of a line break: blanks and
skipped text end in front of its carriage return, and a terminator takes all of it.
So every item, and every place in front of one, is on one line of the text, with
nothing of the break before or after that line.

## What is proved

- `Lexer.StandsWhole.readsItem`, `Lexer.StandsWhole.skip` — reading and skipping lead
  from one line break, or none, to the next, and never into one.
- `marks_of_mem_scan` — the front of each item of a source is a mark, and so is each
  item that ends no statement.
-/

set_option autoImplicit false

namespace CalcSyntax

/-- A span marks a stretch of one line: it says where the stretch stands, and no line
break lies in it or begins at its end. -/
structure Marks (text : List Char) (span : Span) (before marked after : List Char) : Prop where
  whole : text = before ++ (marked ++ after)
  place : span = (Cursor.behind before (marked ++ after)).spanOf marked
  inner : '\n' ∉ marked
  apart : Apart (before ++ marked) after

theorem Grammar.KeepsLines.noLineFeed {g : Grammar} (h : g.KeepsLines) : g.NoLineFeed :=
  fun s hs => (h s hs).2.not_mem

/-! ## Line breaks are not cut in two -/

variable {text before : List Char}

theorem Apart.append {gap behind : List Char} (h : Apart before (gap ++ behind))
    (hgap : KeepsReturns gap behind) : Apart (before ++ gap) behind := by
  rcases List.eq_nil_or_concat gap with rfl | ⟨init, c, rfl⟩
  · rwa [List.append_nil]
  · rw [List.concat_eq_append] at hgap ⊢
    rw [Apart, ← List.append_assoc, List.getLast?_concat]
    rintro ⟨⟩ hhead
    obtain ⟨back, rfl⟩ := List.head?_eq_some_iff.mp hhead
    have hle := hgap init back (List.append_assoc init ['\r'] _)
    rw [List.length_append, List.length_singleton] at hle
    exact Nat.not_succ_le_self _ hle

theorem apart_of_getLast? {behind cs : List Char} {c : Char} (h : cs.getLast? = some c)
    (hc : c ≠ '\r') : Apart (before ++ cs) behind := by
  intro hlast
  rw [List.getLast?_append, h, Option.some_or] at hlast
  exact absurd (Option.some.inj hlast) hc

theorem Unbroken.apart {behind cs : List Char} (h : Unbroken cs) (hne : cs ≠ []) :
    Apart (before ++ cs) behind := by
  apply apart_of_getLast? (List.getLast?_eq_some_getLast hne)
  intro hreturn
  have hbreak := h _ (List.getLast_mem hne)
  rw [hreturn] at hbreak
  cases hbreak

namespace Lexer

variable {g : Grammar} {lx behind : Lexer} {item : Item}

/-- An item ends neither in the middle of a line break nor in front of its line feed. -/
theorem ReadsItem.apart (hk : lx.lexicon.KeepsLines) (h : lx.ReadsItem item behind)
    (hfront : Apart before (item.chars ++ behind.cursor.rest)) :
    Apart (before ++ item.chars) behind.cursor.rest := by
  cases h with
  | @token w hw =>
    have hchars : (String.ofList w.spelling).toList = w.spelling := String.toList_ofList
    simp only [Item.chars, hchars] at hfront ⊢
    rcases Lexicon.end_or_terminator_or_inner (fun w hw => ⟨(hk w hw).nonempty, (hk w hw).inner⟩)
      hw with ⟨_, rfl⟩ | ⟨_, ht⟩ | ⟨hne, hinner⟩
    · rwa [List.append_nil]
    · rcases eq_of_mem_terminators (mem_terminators_of_terminator? ht) with hs | hs | hs
      all_goals
        rw [hs]
        exact apart_of_getLast? rfl (by decide)
    · exact (Lexicon.unbroken_of_read hk hw hinner).apart hne
  | @stray c hc =>
    -- a carriage return in front of a line feed would have been a terminator
    have hnone := Lexicon.terminator?_of_read_error hc
    obtain ⟨rest, hrest⟩ := Lexicon.head_of_read_error hc
    intro hlast hhead
    have hbehind : (lx.front.pass [c]).rest = rest := by
      show lx.front.rest.drop 1 = rest
      rw [hrest, List.drop_one, List.tail_cons]
    obtain ⟨back, hback⟩ := List.head?_eq_some_iff.mp (hbehind ▸ hhead)
    have hreturn : c = '\r' := by
      rw [Item.chars, List.getLast?_concat] at hlast
      exact Option.some.inj hlast
    rw [hrest, hreturn, hback] at hnone
    cases hnone

/-- An item that ends no statement stays on its line. -/
theorem ReadsItem.not_mem (hk : lx.lexicon.KeepsLines) (h : lx.ReadsItem item behind)
    (hinner : item.closes = false) : '\n' ∉ item.chars := by
  cases h with
  | @token w hw =>
    have hchars : (String.ofList w.spelling).toList = w.spelling := String.toList_ofList
    simp only [Item.chars, hchars]
    exact (Lexicon.unbroken_of_read hk hw hinner).not_mem
  | stray hc => exact Lexicon.not_mem_of_read_error hc

/-- The lexer stands in a text, and not in the middle of a line break. -/
structure StandsWhole (text : List Char) (g : Grammar) (lx : Lexer) : Prop where
  stands : lx.Stands text g
  apart : ∃ before, text = before ++ lx.cursor.rest ∧ Apart before lx.cursor.rest

theorem standsWhole_ofSource (source : String) (g : Grammar) :
    (ofSource source g).StandsWhole source.toList g :=
  ⟨stands_ofSource source g, [], rfl, nofun⟩

theorem StandsWhole.skip (h : lx.StandsWhole text g) : lx.skipToTerminator.StandsWhole text g := by
  obtain ⟨before, htext, hapart⟩ := h.apart
  refine ⟨h.stands.skip, before ++ untilTerminator lx.cursor.rest, ?_, ?_⟩
  · rw [List.append_assoc, ← lx.rest_skipToTerminator, htext]
  · rw [lx.rest_skipToTerminator] at hapart
    exact hapart.append (keepsReturns_untilTerminator lx.cursor.rest)

/-- **One reading** leads out of no line break and into none, and the item stands in
between. -/
theorem StandsWhole.readsItem (hk : g.KeepsLines) (h : lx.StandsWhole text g)
    (hread : lx.ReadsItem item behind) :
    behind.StandsWhole text g ∧ ∃ before, item.CutFrom text before behind.cursor.rest ∧
      Apart before (item.chars ++ behind.cursor.rest) ∧
      Apart (before ++ item.chars) behind.cursor.rest := by
  obtain ⟨passed, htext, hapart⟩ := h.apart
  obtain ⟨hbehind, before, hcut⟩ := h.stands.readsItem hk.noLineFeed hread
  have hlexicon : lx.lexicon.KeepsLines := h.stands.words ▸ Grammar.keepsLines_lexicon hk
  have hbefore : passed ++ leadingBlanks lx.cursor.rest = before := by
    have hwhole := hcut.whole
    rw [htext, hread.passes.rest, List.append_assoc, ← List.append_assoc] at hwhole
    exact List.append_cancel_right hwhole
  rw [← lx.rest_front] at hapart
  have hfront := hapart.append (keepsReturns_leadingBlanks lx.cursor.rest)
  rw [hread.passes.front_rest, hbefore] at hfront
  have hback := hread.apart hlexicon hfront
  exact ⟨⟨hbehind, before ++ item.chars, hcut.whole, hback⟩, before, hcut, hfront, hback⟩

end Lexer

/-- **Marks.** The place in front of an item is on a line, and so is an item that ends no
statement. -/
theorem marks_of_mem_scan {g : Grammar} (hk : g.KeepsLines) (source : String) :
    ∀ i ∈ scan source g,
      (∃ before after, Marks source.toList i.span.front before [] after) ∧
        (i.closes = false → ∃ before after, Marks source.toList i.span before i.chars after) := by
  refine Lexer.forall_mem_items (P := Lexer.StandsWhole source.toList g) (fun lx h => ?_)
    (fun lx h => (h.readsItem hk lx.readsItem_read).1) (fun lx h => h.skip)
    (Lexer.standsWhole_ofSource source g)
  obtain ⟨_, before, hcut, hfront, hback⟩ := h.readsItem hk lx.readsItem_read
  have hwhole := hcut.whole
  rw [List.append_assoc] at hwhole
  refine ⟨⟨before, lx.read.1.chars ++ lx.read.2.cursor.rest, hwhole, ?_, nofun, ?_⟩, fun hinner =>
    ⟨before, lx.read.2.cursor.rest, hwhole, hcut.place, ?_, hback⟩⟩
  · rw [hcut.place]
    rfl
  · rwa [List.append_nil]
  · exact lx.readsItem_read.not_mem (h.stands.words ▸ Grammar.keepsLines_lexicon hk) hinner

end CalcSyntax
