import CalcSyntax.Proofs.Token.Place
import CalcSyntax.Segment
import CalcSyntax.Text.Space
import Mathlib.Data.List.DropRight

/-!
# Kept — a text with white space behind it

The text of a broken statement is kept without the white space at its end.
White space is more than blanks: a no-break space separates no words, and is
a stray character where it stands. So a text that is kept may read otherwise
than the text it was cut from.

Where no spelling holds white space (`Grammar.Compact`), reading stops at
all of it. What is read of the kept text is therefore the same with the white
space behind it. Behind it there may be one item more, a stray character of the
white space, if the kept text has none itself.

## What is proved

- `exists_trimmed` — a text is what is kept of it, and white space.
- `Lexer.items_whiteSpace` — what is read of white space alone.
- `Lexer.exists_readsKept` — the run.
-/

set_option autoImplicit false

namespace CalcSyntax

/-! ## White space at the end -/

theorem isWhiteSpace_of_isBlank {c : Char} (h : isBlank c = true) : isWhiteSpace c = true := by
  simp only [isBlank, Bool.or_eq_true, beq_iff_eq] at h
  rcases h with ((rfl | rfl) | rfl) | rfl <;> decide

/-- A text is what is kept of it, and white space. -/
theorem exists_trimmed (cs : List Char) :
    ∃ space, trimEnd cs ++ space = cs ∧ ∀ c ∈ space, isWhiteSpace c = true :=
  ⟨cs.rtakeWhile isWhiteSpace, List.rdropWhile_append_rtakeWhile, fun _ => List.mem_rtakeWhile_imp⟩

/-- Nothing more is trimmed off what is kept. -/
theorem trimEnd_trimEnd (cs : List Char) : trimEnd (trimEnd cs) = trimEnd cs :=
  List.rdropWhile_idempotent isWhiteSpace cs

/-- What is kept does not end with white space. -/
theorem not_whiteSpace_of_getLast? {cs : List Char} {c : Char}
    (h : (trimEnd cs).getLast? = some c) : isWhiteSpace c = false := by
  have hne : cs.rdropWhile isWhiteSpace ≠ [] := by
    intro hnil
    rw [show trimEnd cs = [] from hnil] at h
    cases h
  have hlast : (cs.rdropWhile isWhiteSpace).getLast hne = c :=
    Option.some.inj ((List.getLast?_eq_some_getLast hne).symm.trans h)
  exact hlast ▸ Bool.eq_false_iff.mpr (List.rdropWhile_last_not isWhiteSpace cs hne)

/-! ## Grammars whose spellings hold no white space -/

/-- No character is white space or a colon. -/
def IsSolid (cs : List Char) : Prop := ∀ c ∈ cs, isWhiteSpace c = false ∧ c ≠ ':'

instance (cs : List Char) : Decidable (IsSolid cs) := List.decidableBAll _ cs

/-- No registered spelling is empty, and none holds white space or a colon. -/
def Grammar.Compact (g : Grammar) : Prop := ∀ s ∈ g.registered, s ≠ "" ∧ IsSolid s.toList

instance (g : Grammar) : Decidable g.Compact :=
  inferInstanceAs (Decidable (∀ s ∈ g.registered, s ≠ "" ∧ IsSolid s.toList))

/-- The calculator's spellings hold no white space. -/
theorem Grammar.compact_calculator : Grammar.calculator.Compact := by decide +kernel

theorem Grammar.Compact.keepsLines {g : Grammar} (h : g.Compact) : g.KeepsLines := by
  intro s hs
  obtain ⟨hne, hchars⟩ := h s hs
  refine ⟨hne, ?_⟩
  intro c hc
  obtain ⟨hspace, hcolon⟩ := hchars c hc
  refine Bool.eq_false_iff.mpr ?_
  intro hbreak
  simp only [isBreak, Bool.or_eq_true, beq_iff_eq] at hbreak
  rcases hbreak with (rfl | rfl) | rfl
  · cases hspace
  · cases hspace
  · exact hcolon rfl

/-- White space is no capital and no digit. -/
theorem not_isUpper_of_isWhiteSpace {c : Char} (h : isWhiteSpace c = true) :
    c.isUpper = false ∧ c.isDigit = false := by
  have hupper : c.isUpper = true ↔ 65 ≤ c.toNat ∧ c.toNat ≤ 90 := decide_eq_true_iff
  have hdigit : c.isDigit = true ↔ 48 ≤ c.toNat ∧ c.toNat ≤ 57 := by
    simp only [Char.isDigit, Bool.and_eq_true, decide_eq_true_eq, ge_iff_le,
      UInt32.le_iff_toNat_le]
    rfl
  simp only [isWhiteSpace, whiteSpaceRanges, List.any_cons, List.any_nil, Bool.or_eq_true,
    Bool.and_eq_true, decide_eq_true_eq, Bool.or_false] at h
  rw [Bool.eq_false_iff, Bool.eq_false_iff, ne_eq, ne_eq, hupper, hdigit]
  omega

/-- Reading stops at white space. -/
theorem Grammar.Compact.stopsAt {g : Grammar} (hg : g.Compact) {c : Char}
    (h : isWhiteSpace c = true) : g.lexicon.StopsAt c := by
  obtain ⟨hupper, hdigit⟩ := not_isUpper_of_isWhiteSpace h
  have other {d : Char} (hd : isWhiteSpace d = false) : (c == d) = false := by
    refine beq_eq_false_iff_ne.mpr ?_
    rintro rfl
    rw [h] at hd
    cases hd
  refine ⟨?_, ?_, ?_⟩
  · rw [Numeral.continues, Numeral.isMark, hdigit, other (by decide), other (by decide),
      other (by decide), other (by decide)]
    rfl
  · rw [isLabelChar, hupper, hdigit, other (by decide)]
    rfl
  · refine Grammar.forall_mem_words (P := fun w => c ∉ w.spelling) ?_ ?_
    · intro s hs _ _ hc
      rw [((hg s hs).2 c hc).1] at h
      cases h
    · have key : ∀ w ∈ namedVariables.map (Word.ofString .var) ++ punctuation,
          IsSolid w.spelling := by decide
      intro w hw hc
      rw [(key w hw c hc).1] at h
      cases h

/-- Where reading stops and no blank stands, nothing is read. -/
theorem Lexicon.read_of_stopsAt {lx : Lexicon} (hk : lx.KeepsLines) {awaitsLabel : Bool}
    {c : Char} (h : lx.StopsAt c) (hb : isBlank c = false) (hn : c ≠ '\n') (hc : c ≠ ':')
    (cs : List Char) : lx.read awaitsLabel (c :: cs) = .error c := by
  have hnumeral := h.numeral
  simp only [Numeral.continues, Bool.or_eq_false_iff, beq_eq_false_iff_ne] at hnumeral
  obtain ⟨⟨⟨hdigit, hpoint⟩, _⟩, hmark⟩ := hnumeral
  have hupper := h.label
  simp only [isLabelChar, Bool.or_eq_false_iff] at hupper
  have hword : lx.word? (c :: cs) = none := by
    refine List.find?_eq_none.mpr ?_
    intro w hw hp
    obtain ⟨rest, hrest⟩ := List.isPrefixOf_iff_prefix.mp hp
    cases hspelling : w.spelling with
    | nil => exact (hk w hw).nonempty hspelling
    | cons d ds =>
      rw [hspelling] at hrest
      refine h.words w hw ?_
      rw [hspelling, (List.cons.inj hrest).1]
      exact List.mem_cons_self
  have hplain : lx.readPlain c cs = .error c := by
    simp only [readPlain, Numeral.numeral?_cons_eq_none hdigit hpoint hmark cs, if_neg hpoint,
      hword, hupper.1.1, Bool.false_eq_true, ↓reduceIte]
  simp only [read, terminator?_eq_none hb hn hc, h.label, Bool.and_false, Bool.false_eq_true,
    ↓reduceIte, hplain]

/-- Behind the blanks at the front of a text there are no more. -/
theorem leadingBlanks_drop (cs : List Char) :
    leadingBlanks (cs.drop (leadingBlanks cs).length) = [] := by
  fun_induction leadingBlanks cs with
  | case1 => rfl
  | case2 c cs _ _ ih => exact ih
  | case3 c cs _ hc => exact leadingBlanks_of_not_blank (Bool.eq_false_iff.mpr hc) cs
  | case4 => rfl

namespace Lexer

variable {lx behind : Lexer} {g : Grammar}

/-- What is read does not change when the blanks in front are passed. -/
theorem items_front (lx : Lexer) (resync : Bool) :
    ({ lx with cursor := lx.front } : Lexer).items resync = lx.items resync := by
  have hblanks : leadingBlanks lx.front.rest = [] := leadingBlanks_drop lx.cursor.rest
  have hread : ({ lx with cursor := lx.front } : Lexer).read = lx.read := by
    simp only [read, hblanks, Cursor.pass_nil]
    rfl
  rw [items, items, hread]
  rfl

/-! ## White space alone -/

/-- A line of white space. -/
def IsSpace (cs : List Char) : Prop := ∀ c ∈ cs, isWhiteSpace c = true ∧ c ≠ '\n'

theorem IsSpace.ne_colon {cs : List Char} (h : IsSpace cs) : ∀ c ∈ cs, c ≠ '\n' ∧ c ≠ ':' := by
  intro c hc
  refine ⟨(h c hc).2, ?_⟩
  rintro rfl
  cases (h _ hc).1

/-- Of white space the end is read, or one stray character in front of it. -/
theorem items_whiteSpace (hg : g.Compact) (hl : lx.lexicon = g.lexicon)
    (h : IsSpace lx.cursor.rest) : ∃ p,
      lx.items true = [.ok (.closing p)] ∨
        ∃ s, lx.items true = [.error s, .ok (.closing p)] ∧ lx.cursor.offset ≤ s.span.start := by
  have hk := Grammar.keepsLines_lexicon hg.keepsLines
  rcases blank_or_split lx.cursor.rest with hb | ⟨b, c, q, hrest, hb, hc⟩
  · have hend : (lx.cursor.pass lx.cursor.rest).rest = [] := List.drop_length
    exact ⟨_, .inl (items_end lx true (leadingBlanks_of_blank hb) hend)⟩
  have hmem : c ∈ lx.cursor.rest := by
    rw [hrest]
    exact List.mem_append_right _ List.mem_cons_self
  obtain ⟨hn, hcolon⟩ := h.ne_colon c hmem
  have hblanks : leadingBlanks lx.cursor.rest = b := by
    rw [hrest, leadingBlanks_split hb hc hn]
  have hstart : (lx.cursor.pass b).rest = c :: q := by
    show lx.cursor.rest.drop b.length = c :: q
    rw [hrest, List.drop_left]
  have hread : lx.lexicon.read lx.awaitsLabel (lx.cursor.pass b).rest = .error c := by
    rw [hstart, hl]
    exact Lexicon.read_of_stopsAt hk (hg.stopsAt (h c hmem).1) hc hn hcolon q
  let behind : Lexer := { lx with cursor := (lx.cursor.pass b).pass [c], awaitsLabel := false }
  have hbehind : behind.cursor.rest = q := by
    show (lx.cursor.pass b).rest.drop 1 = q
    rw [hstart]
    rfl
  have hseals : Seals behind.cursor.rest [] := by
    refine seals_end ?_
    intro d hd
    rw [hbehind] at hd
    refine h.ne_colon d ?_
    rw [hrest]
    exact List.mem_append_right _ (List.mem_cons_of_mem _ hd)
  refine ⟨behind.stop, .inr ⟨⟨c, (lx.cursor.pass b).spanOf [c]⟩, ?_, Nat.le_add_right _ _⟩⟩
  rw [items_of_read_error (read_error hblanks hread), if_pos rfl, items_skip hseals]

/-! ## The run -/

/-- `body` is what the lexer reads of its text, and with white space behind that text it
reads `extra` as well. That is nothing, or one stray character of the white space, for
which the text must have none itself. -/
structure ReadsKept (lx : Lexer) (d : Distance) (space : List Char) (body extra : List Item) :
    Prop where
  inner : ∀ i ∈ body, i.closes = false
  alone : lx.items true = body ++ [.ok (.closing lx.stop)]
  within : ∃ p, (lx.within d space).items true =
    body.map (Item.relocate (Span.shift d)) ++ (extra ++ [.ok (.closing p)])
  behind : extra = [] ∨ (∀ i ∈ body, i.stray? = none) ∧ ∃ s, extra = [.error s] ∧
    d.bytes + (lx.cursor.offset + byteLength lx.cursor.rest) ≤ s.span.start

/-- At the end of the kept text there is only white space. -/
theorem readsKept_end (hg : g.Compact) (hl : lx.lexicon = g.lexicon) (d : Distance)
    {space : List Char} (hspace : IsSpace space) (hrest : lx.cursor.rest = []) :
    ∃ extra, lx.ReadsKept d space [] extra := by
  have halone : lx.items true = [.ok (.closing lx.stop)] := by
    have hblank : leadingBlanks lx.cursor.rest = [] := by
      rw [hrest]
      rfl
    rw [items_end lx true hblank (by rw [Cursor.pass_nil, hrest]), stop, hrest]
  have hwithin : IsSpace (lx.within d space).cursor.rest := by
    show IsSpace (lx.cursor.rest ++ space)
    rwa [hrest, List.nil_append]
  have hlexicon : (lx.within d space).lexicon = g.lexicon := hl
  obtain ⟨p, hend | ⟨s, hstray, hle⟩⟩ := items_whiteSpace hg hlexicon hwithin
  · exact ⟨[], nofun, halone, ⟨p, hend⟩, .inl rfl⟩
  · refine ⟨[.error s], nofun, halone, ⟨p, hstray⟩, .inr ⟨nofun, s, rfl, ?_⟩⟩
    rwa [hrest]

theorem ReadsKept.cons {t : Token} {d : Distance} {space : List Char} {body extra : List Item}
    (step : lx.Advances (.ok t) behind)
    (hwithin : (lx.within d space).read =
      (Item.relocate (Span.shift d) (.ok t), behind.within d space))
    (h : behind.ReadsKept d space body extra) : lx.ReadsKept d space (.ok t :: body) extra := by
  have hne := step.nonempty t rfl
  have hfinish := step.leaves.2.2.2
  have hoffset : behind.cursor.offset + byteLength behind.cursor.rest =
      lx.cursor.offset + byteLength lx.cursor.rest :=
    congrArg (fun l : Lexer => l.cursor.offset) hfinish
  obtain ⟨p, hp⟩ := h.within
  refine ⟨List.forall_mem_cons.mpr ⟨step.inner, h.inner⟩, ?_, ⟨p, ?_⟩, ?_⟩
  · rw [items_of_read_ok step.reads hne, h.alone, stop_eq_of_finish hfinish, List.cons_append]
  · rw [items_of_read_ok hwithin hne, hp]
    rfl
  · refine h.behind.imp_right ?_
    rintro ⟨hstray, s, hs, hle⟩
    exact ⟨List.forall_mem_cons.mpr ⟨rfl, hstray⟩, s, hs, hoffset ▸ hle⟩

/-- Behind a stray character all is skipped, the white space with it. -/
theorem ReadsKept.stray {s : Stray} {d : Distance} {space : List Char}
    (step : lx.Advances (.error s) behind)
    (hclear : ∀ c ∈ lx.cursor.rest, c ≠ '\n' ∧ c ≠ ':') (hspace : IsSpace space)
    (hwithin : (lx.within d space).read =
      (Item.relocate (Span.shift d) (.error s), behind.within d space)) :
    lx.ReadsKept d space [.error s] [] := by
  obtain ⟨_, hsuffix, _, hfinish⟩ := step.leaves
  have hbehind : ∀ c ∈ behind.cursor.rest, c ≠ '\n' ∧ c ≠ ':' :=
    fun c hc => hclear c (hsuffix.subset hc)
  have hseals : Seals behind.cursor.rest [] := seals_end hbehind
  have hseals' : Seals (behind.within d space).cursor.rest [] :=
    seals_end (List.forall_mem_append.mpr ⟨hbehind, hspace.ne_colon⟩)
  refine ⟨List.forall_mem_singleton.mpr rfl, ?_, ⟨(behind.within d space).stop, ?_⟩, .inl rfl⟩
  · rw [items_of_read_error step.reads, if_pos rfl, items_skip hseals, stop_eq_of_finish hfinish]
    rfl
  · rw [items_of_read_error hwithin, if_pos rfl, items_skip hseals']
    rfl

/-- **The run.** With white space behind it, a text that ends in no blank is read as it
is alone, up to a stray character in the white space. The induction is on the length
of the text. -/
theorem exists_readsKept (lx : Lexer) (hg : g.Compact) (hl : lx.lexicon = g.lexicon)
    (hclear : ∀ c ∈ lx.cursor.rest, c ≠ '\n' ∧ c ≠ ':')
    (hlast : ∀ c ∈ lx.cursor.rest.getLast?, isBlank c = false) (d : Distance)
    {space : List Char} (hspace : IsSpace space) :
    ∃ body extra, lx.ReadsKept d space body extra := by
  rcases blank_or_split lx.cursor.rest with hb | ⟨b, c, q, hrest, hb, hc⟩
  · have hnil : lx.cursor.rest = [] := by
      cases hend : lx.cursor.rest.getLast? with
      | none => exact List.getLast?_eq_none_iff.mp hend
      | some c =>
        have hblank := hb c (List.mem_of_getLast? hend)
        rw [hlast c hend] at hblank
        cases hblank
    exact ⟨[], readsKept_end hg hl d hspace hnil⟩
  · have hk : lx.lexicon.KeepsLines := hl ▸ Grammar.keepsLines_lexicon hg.keepsLines
    have hstops : ∀ c ∈ space.head?, lx.lexicon.StopsAt c := fun c hc =>
      hl ▸ hg.stopsAt (hspace c (List.mem_of_mem_head? hc)).1
    obtain ⟨item, behind, step, hwithin⟩ := read_within hk hclear hstops hrest hb hc d
    cases item with
    | error s => exact ⟨[.error s], [], .stray step hclear hspace hwithin⟩
    | ok t =>
      obtain ⟨hlexicon, hsuffix, hshorter, _⟩ := step.leaves
      have hlast' : ∀ c ∈ behind.cursor.rest.getLast?, isBlank c = false := by
        intro c hc
        obtain ⟨front, hfront⟩ := hsuffix
        refine hlast c ?_
        rw [← hfront, List.getLast?_append, hc]
        rfl
      obtain ⟨body, extra, h⟩ := exists_readsKept behind hg (hlexicon.trans hl)
        (fun c hc => hclear c (hsuffix.subset hc)) hlast' d hspace
      exact ⟨.ok t :: body, extra, .cons step hwithin h⟩
termination_by lx.cursor.rest.length

end Lexer

end CalcSyntax
