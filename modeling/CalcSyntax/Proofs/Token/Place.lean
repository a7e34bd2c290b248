import CalcSyntax.Proofs.Token.Stretch

/-!
# Place — a lexer knows where it stands

A cursor counts along: bytes, lines and columns grow with what it passes,
and nobody counts them anew. `Cursor.behind before rest` is what the counts
come to: the place behind a text. Blanks, words and skipped text do not end
a line, as long as no spelling holds a line feed (`Grammar.NoLineFeed`), and
a terminator ends it where it ends with one. So whatever steps a lexer has
taken, it stands behind the text that it has passed.

## What is proved

- `Lexer.readsItem_read` — the two ways to read an item, and what each of
  them leaves behind.
- `Lexer.ReadsItem.passes` — a reading passes the blanks in front of the
  item and the item's own characters, and nothing else.
- `Lexer.Stands.readsItem`, `Lexer.Stands.skip`, `Lexer.Stands.restart` —
  reading, skipping and starting over lead from place to place.
-/

set_option autoImplicit false

namespace CalcSyntax

/-! ## Terminators -/

/-- The terminators. -/
def terminators : List (List Char) := [['\n'], [':'], ['\r', '\n']]

theorem eq_of_mem_terminators {t : List Char} (ht : t ∈ terminators) :
    t = ['\n'] ∨ t = [':'] ∨ t = ['\r', '\n'] := by
  simpa only [terminators, List.mem_cons, List.not_mem_nil, or_false] using ht

theorem mem_terminators_of_terminator? {cs t : List Char} (h : terminator? cs = some t) :
    t ∈ terminators := by
  revert h
  fun_cases terminator? cs <;> rintro ⟨⟩ <;> decide

/-! ## Places -/

namespace Cursor

/-- The place behind a text, in front of the rest. -/
def behind (before rest : List Char) : Cursor :=
  ⟨rest, (Distance.after before).bytes, (Distance.after before).lines + 1,
    (Distance.after before).columns⟩

/-- Along a line. -/
theorem pass_behind (before rest : List Char) {cs : List Char} (h : '\n' ∉ cs) :
    (behind before (cs ++ rest)).pass cs = behind (before ++ cs) rest := by
  rw [behind, behind, Distance.after_append_line before h]
  simp only [pass, List.drop_left]

/-- Over a terminator. -/
theorem passWord_terminator (before rest : List Char) {t : List Char} (ht : t ∈ terminators) :
    (behind before (t ++ rest)).passWord ⟨t, .terminator⟩ = behind (before ++ t) rest := by
  rcases eq_of_mem_terminators ht with rfl | rfl | rfl
  · rw [behind, behind, Distance.after_append_break]
    rfl
  · rw [behind, behind, Distance.after_append_line before (by decide)]
    rfl
  · have hline : '\n' ∉ ['\r'] := by decide
    have hreturn := Distance.after_append_line before hline
    have hsplit : before ++ ['\r', '\n'] = before ++ ['\r'] ++ ['\n'] := by
      rw [List.append_assoc]
      rfl
    rw [behind, behind, hsplit, Distance.after_append_break, hreturn]
    rfl

end Cursor

/-- A word over which a cursor counts right: a terminator, or one without a line feed. -/
def Word.Counted (w : Word) : Prop :=
  w.kind = .terminator ∧ w.spelling ∈ terminators ∨ w.kind ≠ .terminator ∧ '\n' ∉ w.spelling

/-- Over a word. -/
theorem Cursor.passWord_behind (before rest : List Char) {w : Word} (h : w.Counted) :
    (behind before (w.spelling ++ rest)).passWord w = behind (before ++ w.spelling) rest := by
  obtain ⟨spelling, kind⟩ := w
  rcases h with ⟨rfl, hmem⟩ | ⟨hkind, hline⟩
  · exact passWord_terminator before rest hmem
  · rw [passWord, if_neg fun h => hkind h.1]
    exact pass_behind before rest hline

/-! ## Blanks and skipped text -/

theorem leadingBlanks_append_drop (cs : List Char) :
    leadingBlanks cs ++ cs.drop (leadingBlanks cs).length = cs :=
  List.prefix_iff_eq_append.mp (leadingBlanks_isPrefixOf cs)

theorem untilTerminator_append_drop (cs : List Char) :
    untilTerminator cs ++ cs.drop (untilTerminator cs).length = cs :=
  List.prefix_iff_eq_append.mp (untilTerminator_isPrefixOf cs)

theorem not_mem_leadingBlanks (cs : List Char) : '\n' ∉ leadingBlanks cs := by
  intro h
  exact absurd (isBlank_of_mem_leadingBlanks h) (by decide)

theorem ne_of_mem_untilTerminator {c : Char} {cs : List Char} (h : c ∈ untilTerminator cs) :
    c ≠ '\n' ∧ c ≠ ':' := by
  fun_induction untilTerminator cs with
  | case1 => cases h
  | case2 => cases h
  | case3 d cs hd ih =>
    rcases List.mem_cons.mp h with rfl | h
    · constructor <;> rintro rfl <;> exact hd rfl
    · exact ih h

theorem not_mem_untilTerminator (cs : List Char) : '\n' ∉ untilTerminator cs := fun h =>
  (ne_of_mem_untilTerminator h).1 rfl

namespace Lexicon

/-- Where no spelling holds a line feed, a word that is read is a terminator or
holds none. -/
theorem counted_of_read {g : Grammar} (hg : g.NoLineFeed) {awaitsLabel : Bool} {cs : List Char}
    {w : Word} (h : g.lexicon.read awaitsLabel cs = .ok w) : w.Counted := by
  rcases unbroken_or_listed h with ⟨hk, ht⟩ | hw | ⟨hk, hu⟩
  · exact .inl ⟨hk, mem_terminators_of_terminator? ht⟩
  · refine .inr ⟨?_, Grammar.not_mem_of_mem_words hg hw⟩
    intro hk
    have hinner := Grammar.inner_of_mem_words hw
    rw [hk] at hinner
    cases hinner
  · exact .inr ⟨hk, hu.not_mem⟩

/-- A character that no token starts with begins no terminator. -/
theorem terminator?_of_read_error {lx : Lexicon} {awaitsLabel : Bool} {cs : List Char} {c : Char}
    (h : lx.read awaitsLabel cs = .error c) : terminator? cs = none := by
  cases ht : terminator? cs with
  | none => rfl
  | some t =>
    rw [read_of_terminator? ht] at h
    cases h

theorem not_mem_of_read_error {lx : Lexicon} {awaitsLabel : Bool} {cs : List Char} {c : Char}
    (h : lx.read awaitsLabel cs = .error c) : '\n' ∉ [c] := by
  obtain ⟨rest, rfl⟩ := head_of_read_error h
  rintro (_ | ⟨_, ⟨⟩⟩)
  cases terminator?_of_read_error h

end Lexicon

/-! ## Reading -/

/-- The characters that an item was read from. -/
def Item.chars : Item → List Char
  | .ok t => t.lexeme.toList
  | .error s => [s.char]

namespace Lexer

variable {lx behind : Lexer} {item : Item}

/-- The place behind the blanks in front of a lexer. -/
def front (lx : Lexer) : Cursor := lx.cursor.pass (leadingBlanks lx.cursor.rest)

/-- The ways to read an item. -/
inductive ReadsItem (lx : Lexer) : Item → Lexer → Prop where
  | token {w : Word} (h : lx.lexicon.read lx.awaitsLabel lx.front.rest = .ok w) :
    ReadsItem lx (.ok ⟨w.kind, String.ofList w.spelling, lx.front.spanOf w.spelling⟩)
      { lx with cursor := lx.front.passWord w, awaitsLabel := lx.lexicon.announcesLabel w }
  | stray {c : Char} (h : lx.lexicon.read lx.awaitsLabel lx.front.rest = .error c) :
    ReadsItem lx (.error ⟨c, lx.front.spanOf [c]⟩)
      { lx with cursor := lx.front.pass [c], awaitsLabel := false }

theorem readsItem_read (lx : Lexer) : lx.ReadsItem lx.read.1 lx.read.2 := by
  fun_cases read lx with
  | case1 start w hw => exact .token hw
  | case2 start c hc => exact .stray hc

theorem readsItem_of_read (h : lx.read = (item, behind)) : lx.ReadsItem item behind := by
  have hread := lx.readsItem_read
  rwa [h] at hread

theorem read_of_ok {w : Word} (hw : lx.lexicon.read lx.awaitsLabel lx.front.rest = .ok w) :
    lx.read = (.ok ⟨w.kind, String.ofList w.spelling, lx.front.spanOf w.spelling⟩,
      { lx with cursor := lx.front.passWord w, awaitsLabel := lx.lexicon.announcesLabel w }) := by
  rw [front] at hw
  simp only [read, hw]
  rfl

theorem read_of_error {c : Char} (hc : lx.lexicon.read lx.awaitsLabel lx.front.rest = .error c) :
    lx.read = (.error ⟨c, lx.front.spanOf [c]⟩,
      { lx with cursor := lx.front.pass [c], awaitsLabel := false }) := by
  rw [front] at hc
  simp only [read, hc]
  rfl

theorem next?_of_ended (h : lx.ended = true) : lx.next? = (none, lx) := by
  rw [next?, if_pos h]

theorem next?_of_not_ended (h : lx.ended = false) :
    lx.next? = (some lx.read.1, { lx.read.2 with ended := isEnd lx.read.1 }) := by
  rw [next?, if_neg (Bool.not_eq_true _ ▸ h)]

/-- What a reading passes: the blanks in front of the item, and its characters. -/
structure Passes (lx : Lexer) (item : Item) (behind : Lexer) : Prop where
  rest : lx.cursor.rest =
    leadingBlanks lx.cursor.rest ++ (item.chars ++ behind.cursor.rest)
  span : item.span = lx.front.spanOf item.chars
  offset : behind.cursor.offset = item.span.stop
  text : behind.text = lx.text
  lexicon : behind.lexicon = lx.lexicon

theorem rest_front (lx : Lexer) :
    leadingBlanks lx.cursor.rest ++ lx.front.rest = lx.cursor.rest :=
  leadingBlanks_append_drop lx.cursor.rest

/-- Behind the blanks, the item comes first. -/
theorem Passes.front_rest (h : lx.Passes item behind) :
    lx.front.rest = item.chars ++ behind.cursor.rest :=
  List.append_cancel_left (lx.rest_front.trans h.rest)

theorem ReadsItem.passes (h : lx.ReadsItem item behind) : lx.Passes item behind := by
  have hfront := lx.rest_front
  cases h with
  | @token w h =>
    have hword := List.prefix_iff_eq_append.mp (Lexicon.isPrefixOf_of_read h)
    have hchars : Item.chars (.ok ⟨w.kind, String.ofList w.spelling, lx.front.spanOf w.spelling⟩) =
        w.spelling := String.toList_ofList
    refine ⟨?_, ?_, ?_, rfl, rfl⟩
    · rw [hchars, rest_passWord]
      exact (hword ▸ hfront).symm
    · rw [hchars]
      rfl
    · show (lx.front.passWord w).offset = _
      unfold Cursor.passWord
      split <;> rfl
  | @stray c h =>
    obtain ⟨rest, hrest⟩ := Lexicon.head_of_read_error h
    refine ⟨?_, rfl, rfl, rfl, rfl⟩
    show lx.cursor.rest = _ ++ ([c] ++ lx.front.rest.drop 1)
    rw [hrest, List.drop_one, List.tail_cons, List.singleton_append, ← hrest, hfront]

/-- What skipping passes: what is left of the statement. -/
theorem rest_skipToTerminator (lx : Lexer) : lx.cursor.rest =
    untilTerminator lx.cursor.rest ++ lx.skipToTerminator.cursor.rest :=
  (untilTerminator_append_drop lx.cursor.rest).symm

/-! ## Standing in a text -/

/-- The lexer reads this text with the words of the grammar and stands behind what
it has passed. -/
structure Stands (text : List Char) (g : Grammar) (lx : Lexer) : Prop where
  whole : lx.text = text
  words : lx.lexicon = g.lexicon
  place : ∃ before, text = before ++ lx.cursor.rest ∧ lx.cursor = .behind before lx.cursor.rest

end Lexer

/-- The item was cut out of the text behind `before`, and says so. -/
structure Item.CutFrom (text : List Char) (i : Item) (before after : List Char) : Prop where
  whole : text = before ++ i.chars ++ after
  place : i.span = (Cursor.behind before (i.chars ++ after)).spanOf i.chars

namespace Lexer

variable {text : List Char} {g : Grammar} {lx behind : Lexer} {item : Item}

theorem stands_ofSource (source : String) (g : Grammar) :
    (ofSource source g).Stands source.toList g :=
  ⟨rfl, rfl, [], rfl, rfl⟩

theorem Stands.restart (h : lx.Stands text g) : lx.restart.Stands text g :=
  ⟨h.whole, h.words, [], h.whole.symm, rfl⟩

/-- Blanks stay on the line. -/
theorem front_behind {before : List Char} (h : lx.cursor = .behind before lx.cursor.rest) :
    lx.front = .behind (before ++ leadingBlanks lx.cursor.rest) lx.front.rest := by
  have hpass := Cursor.pass_behind before lx.front.rest (not_mem_leadingBlanks lx.cursor.rest)
  rwa [lx.rest_front, ← h] at hpass

/-- Skipping stays on the line. -/
theorem skip_behind {before : List Char} (h : lx.cursor = .behind before lx.cursor.rest) :
    lx.skipToTerminator.cursor = .behind (before ++ untilTerminator lx.cursor.rest)
      lx.skipToTerminator.cursor.rest := by
  have hpass := Cursor.pass_behind before lx.skipToTerminator.cursor.rest
    (not_mem_untilTerminator lx.cursor.rest)
  rwa [← lx.rest_skipToTerminator, ← h] at hpass

theorem Stands.skip (h : lx.Stands text g) : lx.skipToTerminator.Stands text g := by
  obtain ⟨before, htext, hcursor⟩ := h.place
  refine ⟨h.whole, h.words, before ++ untilTerminator lx.cursor.rest, ?_, skip_behind hcursor⟩
  rw [List.append_assoc, ← lx.rest_skipToTerminator, htext]

/-- Over an item. -/
theorem ReadsItem.cursor_behind (hwords : ∀ {w : Word}, lx.lexicon.read lx.awaitsLabel
      lx.front.rest = .ok w → w.Counted)
    (h : lx.ReadsItem item behind) {before : List Char}
    (hfront : lx.front = .behind before (item.chars ++ behind.cursor.rest)) :
    behind.cursor = .behind (before ++ item.chars) behind.cursor.rest := by
  cases h with
  | @token w hw =>
    have hpass := Cursor.passWord_behind before (lx.front.passWord w).rest (hwords hw)
    have hchars : (String.ofList w.spelling).toList = w.spelling := String.toList_ofList
    simp only [Item.chars, hchars] at hfront ⊢
    rwa [← hfront] at hpass
  | @stray c hc =>
    have hline := Lexicon.not_mem_of_read_error hc
    have hpass := Cursor.pass_behind before (lx.front.pass [c]).rest hline
    simp only [Item.chars] at hfront ⊢
    rwa [← hfront] at hpass

/-- **One reading** leads from a place to a place, and the item lies in between. -/
theorem Stands.readsItem (hg : g.NoLineFeed) (h : lx.Stands text g)
    (hread : lx.ReadsItem item behind) :
    behind.Stands text g ∧ ∃ before, item.CutFrom text before behind.cursor.rest := by
  obtain ⟨before, htext, hcursor⟩ := h.place
  have hpasses := hread.passes
  have hfront := front_behind hcursor
  have hsplit : text =
      before ++ leadingBlanks lx.cursor.rest ++ item.chars ++ behind.cursor.rest := by
    rw [List.append_assoc, List.append_assoc, ← hpasses.rest, htext]
  rw [hpasses.front_rest] at hfront
  have hwords : ∀ {w : Word}, lx.lexicon.read lx.awaitsLabel lx.front.rest = .ok w →
      w.Counted := by
    rw [h.words]
    exact Lexicon.counted_of_read hg
  have hbehind := hread.cursor_behind hwords hfront
  refine ⟨⟨hpasses.text.trans h.whole, hpasses.lexicon.trans h.words, _, hsplit, hbehind⟩,
    _, hsplit, ?_⟩
  rw [hpasses.span, hfront]

end Lexer

end CalcSyntax
