import CalcSyntax.Proofs.Expr.Layout
import CalcSyntax.Proofs.Token.Kept

/-!
# Legible — the expressions that are read back from their text

An expression that was read from a source has a text of its own, and the text ought to
be read as the expression again. A grammar may have registered spellings with which
it is not. The text puts words next to each other that were apart in the source, and
there one of them may be outgrown: `3! !` is written `3!!`, and if `!!` is registered
too, that is another expression. Apart from the minus, nothing is kept from that.

The other words that the text adds are the parentheses that the source left open. They
do not close anything if a closing parenthesis is registered as a word of another kind.

Nothing else can go wrong. All tokens of the text are then read again, and they are
the tokens of the expression (`exists_tokens_of_mem_kinds`), from which it is read.

## What is proved

`reread_iff_isLegible` — the expressions of a source that are read back from their text,
for every grammar whose spellings hold no white space and no terminator.
-/

set_option autoImplicit false

namespace CalcSyntax

open Spaced

/-! ## Words that were read -/

namespace Lexicon

variable {lx : Lexicon} {awaits : Bool} {cs : List Char} {w : Word}

/-- Awaiting a label matters to labels alone. -/
theorem read_false_of_read (h : lx.read awaits cs = .ok w) (hw : w.kind ≠ .label) :
    lx.read false cs = .ok w := by
  cases cs with
  | nil => exact h
  | cons c cs =>
    rw [read] at h ⊢
    cases ht : terminator? (c :: cs) with
    | some t => rwa [ht] at h
    | none =>
      rw [ht] at h
      by_cases hlabel : (awaits && isLabelChar c) = true
      · simp only [hlabel, ↓reduceIte] at h
        cases h
        exact absurd rfl hw
      · simpa only [hlabel, Bool.false_and, Bool.false_eq_true, ↓reduceIte] using h

end Lexicon

variable {g : Grammar} {source : String} {e : Expr} {t : Token}

/-- Where no spelling holds white space or a terminator, no word does. -/
theorem Grammar.ReadsWord.isClear (hg : g.Compact) {behind : List Char}
    (h : g.ReadsWord t behind) (ht : t.kind.closes = false) : t.IsClear := by
  have hk := Grammar.keepsLines_lexicon hg.keepsLines
  have hfinds := Lexicon.finds_of_read h
  constructor
  · intro hempty
    rcases Lexicon.end_or_terminator_or_inner
        (fun w hw => ⟨(hk w hw).nonempty, (hk w hw).inner⟩) h with ⟨_, he⟩ | ⟨he, _⟩ | ⟨hne, _⟩
    · rw [show t.kind = .eof from congrArg Word.kind he] at ht
      cases ht
    · rw [show t.kind = .terminator from he] at ht
      cases ht
    · exact hne (String.toList_eq_nil_iff.mpr hempty)
  · intro c hc
    have hstop : ¬ g.lexicon.StopsAt c := Lexicon.not_stopsAt_of_mem hfinds ht hc
    constructor
    · exact Bool.eq_false_iff.mpr fun hblank =>
        hstop (hg.stopsAt (isWhiteSpace_of_isBlank hblank))
    · exact Bool.eq_false_iff.mpr fun hbreak =>
        hstop (Lexicon.stopsAt_of_isBreak hk hbreak)

theorem Token.isClear_closer : Token.closer.IsClear where
  nonempty := by decide
  clear c hc := by
    obtain rfl : c = ')' := List.mem_singleton.mp hc
    decide

/-- The spelling of a closing parenthesis makes one, unless it is registered. -/
theorem Grammar.kindOf?_closer_iff : g.kindOf? ")" = some .rightParen ↔ ")" ∉ g.registered := by
  rw [mem_registered_iff, not_or, not_or, kindOf?]
  constructor
  · intro h
    split at h
    · cases h
    split at h
    · cases h
    split at h
    · cases h
    exact ⟨‹_›, ‹_›, ‹_›⟩
  · intro h
    obtain ⟨hcommand, hfunction, hoperator⟩ := h
    rw [if_neg hcommand, if_neg hfunction, if_neg hoperator]
    decide

/-- A closing parenthesis is read as one, unless it is registered as something else. -/
theorem Grammar.readsWord_closer_iff :
    (∃ behind, g.ReadsWord .closer behind) ↔ ")" ∉ g.registered := by
  have hmem : (⟨[')'], .rightParen⟩ : Word) ∈ g.lexicon.words ↔ ")" ∉ g.registered :=
    mem_words_iff.trans kindOf?_closer_iff
  constructor
  · intro ⟨behind, h⟩
    exact hmem.mp (mem_punctuation_of_read h rfl).1
  · intro h
    have hword : g.lexicon.word? [')'] = some ⟨[')'], .rightParen⟩ :=
      (Lexicon.word?_eq_some_iff g.ordered_words).mpr
        ⟨hmem.mpr h, List.prefix_rfl, fun _ _ hp => hp⟩
    have hlexeme : Token.closer.lexeme.toList = ')' :: [] := rfl
    refine ⟨[], (readsWord_iff hlexeme rfl (by decide) (by decide)).mpr ?_⟩
    exact .inr ⟨rfl, by decide, .inl hword⟩

/-! ## The words of an expression -/

/-- The tokens of an expression were read, but for the parentheses that were left open. -/
theorem eq_closer_or_readsWord (h : .expression e ∈ (analyze source g).program.kinds)
    (ht : t ∈ e.tokens) : t = .closer ∨ ∃ behind, g.ReadsWord t behind := by
  obtain ⟨s, hs, _, missing, htokens⟩ := exists_tokens_of_mem_kinds h
  have hplain := e.isPlain_of_mem_tokens t ht
  rw [htokens] at ht
  rcases List.mem_append.mp ht with hread | hclose
  · obtain ⟨u, hu, rfl⟩ := List.mem_map.mp hread
    obtain ⟨awaits, behind, hword⟩ :=
      (Lexer.ofSource source g).exists_read_of_mem_items rfl (mem_scan_of_mem_segments hs hu)
    have hlabel : u.kind ≠ .label := (TokenKind.of_isPlain hplain.kind).2.2
    exact .inr ⟨behind, Lexicon.read_false_of_read hword hlabel⟩
  · exact .inl (List.eq_of_mem_replicate hclose)

/-- They hold no blank and end no statement. -/
theorem isClear_of_mem_tokens (hg : g.Compact)
    (h : .expression e ∈ (analyze source g).program.kinds) (ht : t ∈ e.tokens) : t.IsClear := by
  rcases eq_closer_or_readsWord h ht with rfl | ⟨behind, hread⟩
  · exact Token.isClear_closer
  · exact hread.isClear hg (TokenKind.of_isPlain (e.isPlain_of_mem_tokens t ht).kind).1

/-- In the text of the expression no word is outgrown by what stands behind it, and no closing
parenthesis is a word of another kind. -/
structure Expr.IsLegible (g : Grammar) (e : Expr) : Prop where
  whole : Each (fun t behind => t.StaysWhole g behind) (e.layout false)
  closed : .closer ∈ e.tokens → ")" ∉ g.registered

theorem mem_tokens_of_mem_layout {w : Spaced} (h : w ∈ e.layout false) : w.token ∈ e.tokens :=
  e.token_layout false ▸ List.mem_map_of_mem h

/-- The words of a legible text are read where they stand, and only those. -/
theorem each_readsWord_iff (hg : g.Compact)
    (h : .expression e ∈ (analyze source g).program.kinds) :
    Each g.ReadsWord (e.layout false) ↔ e.IsLegible g := by
  -- once each token can be read somewhere, being read and not being outgrown are the same
  have hcongr (hread : ∀ t ∈ e.tokens, ∃ other, g.ReadsWord t other) :
      Each g.ReadsWord (e.layout false) ↔
        Each (fun t behind => t.StaysWhole g behind) (e.layout false) :=
    Each.congr fun w hw behind => by
      have ht := mem_tokens_of_mem_layout hw
      obtain ⟨other, hother⟩ := hread _ ht
      exact hother.iff_staysWhole (isClear_of_mem_tokens hg h ht)
  constructor
  · intro heach
    have hread : ∀ t ∈ e.tokens, ∃ other, g.ReadsWord t other :=
      e.token_layout false ▸ heach.exists
    refine ⟨(hcongr hread).mp heach, fun hclose => ?_⟩
    exact Grammar.readsWord_closer_iff.mp (hread _ hclose)
  · intro ⟨hwhole, hclosed⟩
    refine (hcongr fun t ht => ?_).mpr hwhole
    rcases eq_closer_or_readsWord h ht with rfl | hread
    · exact Grammar.readsWord_closer_iff.mpr (hclosed ht)
    · exact hread

/-! ## The text -/

/-- A text that is read as the expression is read as its words, with nothing missing. -/
theorem reads_of_reread (hg : g.Compact) (hclear : ∀ w ∈ e.layout false, w.token.IsClear)
    (h : .expression e ∈ (analyze e.source g).program.kinds) :
    ∃ a rest, Reads g.lexicon false (text (e.layout false)) e.tokens a rest := by
  have htext : text (e.layout false) = e.source.toList := e.text_layout false
  obtain ⟨s, hs, hstray, missing, htokens⟩ := exists_tokens_of_mem_kinds h
  obtain ⟨a, rest, hreads, hblank⟩ :=
    reads_of_mem_segments hg.keepsLines (htext ▸ clear_text hclear) hs hstray
  rw [← htext] at hreads
  have hread : ∀ t ∈ s.tokens.map (Token.relocate nowhere), t.IsClear := fun t ht =>
    isClear_of_mem_tokens hg h (htokens ▸ List.mem_append_left _ ht)
  -- without its blanks the text is the lexemes of the tree, and those that are read
  have hlexemes : lexemes e.tokens = lexemes (s.tokens.map (Token.relocate nowhere)) := by
    rw [← e.token_layout false, ← dense_text hclear, hreads.dense_eq hread,
      dense_of_blank hblank, List.append_nil]
  rw [htokens, lexemes_append, List.append_right_eq_self] at hlexemes
  obtain rfl : missing = 0 := by
    cases missing with
    | zero => rfl
    | succ missing => cases hlexemes
  rw [htokens, List.replicate_zero, List.append_nil]
  exact ⟨a, rest, hreads⟩

/-- **An expression of a source is read back from its text exactly if it is legible.** -/
theorem reread_iff_isLegible (hg : g.Compact)
    (h : .expression e ∈ (analyze source g).program.kinds) :
    ((analyze e.source g).program.kinds = [.expression e] ∧
      (analyze e.source g).diagnostics = []) ↔ e.IsLegible g := by
  have hwords : ∀ w ∈ e.layout false, w.token.IsPlain ∧ w.token.IsClear := fun w hw =>
    ⟨e.isPlain_of_mem_tokens _ (mem_tokens_of_mem_layout hw),
      isClear_of_mem_tokens hg h (mem_tokens_of_mem_layout hw)⟩
  have hclear : ∀ w ∈ e.layout false, w.token.IsClear := fun w hw => (hwords w hw).2
  rw [← each_readsWord_iff hg h]
  constructor
  · intro ⟨hkinds, _⟩
    have hmem : .expression e ∈ (analyze e.source g).program.kinds := by
      rw [hkinds]
      exact List.mem_cons_self
    obtain ⟨a, rest, hreads⟩ := reads_of_reread hg hclear hmem
    rw [← e.token_layout false] at hreads
    exact each_of_reads hwords hreads
  · intro hread
    have hreads := reads_text hwords hread
    rw [e.token_layout, e.text_layout] at hreads
    obtain ⟨st, hst, hkind⟩ := List.mem_map.mp h
    have hreadable : e.IsReadable g := by
      rcases readable_or_invalid hst with hr | hi
      · rw [hkind] at hr
        cases hr with
        | expression hr => exact hr
      · rw [hkind] at hi
        cases hi
    exact (analyze_of_reads hreads e.tokens_ne_nil).1 _
      (readStatement_tokens_iff.mpr ⟨hreadable.fits, hreadable.levels⟩)

/-- The calculator with a factorial and a double factorial. -/
def factorials : Grammar :=
  [.usual "!" .postfixOp .suffix, .usual "!!" .postfixOp .suffix].foldl .registerOperator
    .calculator

/-- The factorial of a factorial. -/
def twiceFactorial : Expr := .suffixed (.suffixed (.literal .integer "3") "!") "!"

/-- A factorial of a factorial is not legible, since its two words make a longer one. So it is
not read back. The double factorial is read back, so it is legible. -/
theorem reread_iff_isLegible_factorials :
    factorials.Compact ∧
      (.expression twiceFactorial ∈ (analyze "3! !" factorials).program.kinds ∧
        ¬ twiceFactorial.IsLegible factorials ∧
        ¬ ((analyze twiceFactorial.source factorials).program.kinds =
            [.expression twiceFactorial] ∧
          (analyze twiceFactorial.source factorials).diagnostics = [])) ∧
      .expression (.suffixed (.literal .integer "3") "!!") ∈
          (analyze "3 !!" factorials).program.kinds ∧
        (Expr.suffixed (.literal .integer "3") "!!").IsLegible factorials := by
  have hg : factorials.Compact := by decide +kernel
  have htwice : .expression twiceFactorial ∈ (analyze "3! !" factorials).program.kinds := by
    decide +kernel
  have honce : .expression (.suffixed (.literal .integer "3") "!!") ∈
      (analyze "3 !!" factorials).program.kinds := by decide +kernel
  have houtgrown : ¬ twiceFactorial.IsLegible factorials := by
    intro hlegible
    obtain ⟨_, hfactorial, _⟩ := hlegible.whole
    have hword : ⟨['!', '!'], .operator⟩ ∈ factorials.lexicon.words := by decide +kernel
    exact hfactorial.word nofun nofun _ hword
      ⟨List.prefix_append ['!'] ['!'], List.prefix_rfl, by decide⟩
  refine ⟨hg, ⟨htwice, houtgrown, ?_⟩, honce, (reread_iff_isLegible hg honce).mp ?_⟩
  · intro hread
    exact houtgrown ((reread_iff_isLegible hg htwice).mp hread)
  · constructor <;> decide +kernel

/-- The factorial of a factorial is read from a source, and its text is read as a double
factorial. -/
theorem twiceFactorial_notReread :
    factorials.Compact ∧
      .expression twiceFactorial ∈ (analyze "3! !" factorials).program.kinds ∧
      (analyze twiceFactorial.source factorials).program.kinds =
        [.expression (.suffixed (.literal .integer "3") "!!")] ∧
      (analyze twiceFactorial.source factorials).program.kinds ≠ [.expression twiceFactorial] := by
  decide +kernel

end CalcSyntax
