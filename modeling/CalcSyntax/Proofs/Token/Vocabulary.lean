import CalcSyntax.Proofs.Expr.Shape
import CalcSyntax.Proofs.Token.Reads

/-!
# Vocabulary — the calculator's words in a text

A word is read as itself unless what follows makes it longer. Of the
calculator's words only the minus and the comparisons are the beginning of
others. Blanks, commas and closing parentheses go on with no word at all,
and with no number (`Separated`).

## What is proved

`reads_word`, `reads_numeral` and `reads_variable` — a registered word, a
number and a variable at the front of a text. `reads_closed_word` is about
the words that no other word begins with: anything may follow them.
-/

set_option autoImplicit false

namespace CalcSyntax

/-- The calculator's lexicon. -/
abbrev calcLexicon : Lexicon := Grammar.calculator.lexicon

/-- The characters that stand behind words and numbers. -/
def isSeparator (c : Char) : Bool := c == ' ' || c == ',' || c == ')'

/-- Whatever stands in front of the text ends there. -/
def Separated (r : List Char) : Prop := ∀ c ∈ r.head?, isSeparator c = true

/-- The first characters of words: none of them can be skipped, ends a statement or
begins a number. -/
def startsWord (c : Char) : Bool :=
  !(isBlank c || isBreak c || c.isDigit || c == '.' || Numeral.isMark c)

theorem separated_cons {c : Char} {r : List Char} (h : isSeparator c = true) : Separated (c :: r) :=
  fun _ hd => (Option.some.inj hd) ▸ h

/-! ## Words -/

/-- The ends of words that no other word goes on from. -/
def endsWord (cs : List Char) : Bool :=
  cs.getLast? == some '(' || cs == [')'] || cs == [','] || cs == ['-', '-']

/-- What all words of the calculator have in common. -/
structure IsCalcWord (w : Word) : Prop where
  found : calcLexicon.word? w.spelling = some w
  starts : w.spelling.head?.any startsWord = true
  /-- No separator stands behind the first character. -/
  whole : w.spelling.tail.all (fun c => !isSeparator c) = true
  inner : w.kind.closes = false
  noCapital : w.spelling.length = 1 → w.spelling.all Char.isUpper = false
  minus : ['-'] <+: w.spelling → w.spelling ∈ [['-'], ['-', '-'], ['-', '>']]
  /-- No other word goes on from such an end. -/
  closed : endsWord w.spelling = true →
    ∀ v ∈ calcLexicon.words, w.spelling <+: v.spelling → v.spelling = w.spelling

/-- The table of words, gone through once. -/
theorem calcLexicon_words :
    (∀ w ∈ calcLexicon.words, calcLexicon.word? w.spelling = some w ∧
      w.spelling.head?.any startsWord = true ∧
      w.spelling.tail.all (fun c => !isSeparator c) = true ∧ w.kind.closes = false ∧
      (w.spelling.length = 1 → w.spelling.all Char.isUpper = false) ∧
      (['-'] <+: w.spelling → w.spelling ∈ [['-'], ['-', '-'], ['-', '>']]) ∧
      (endsWord w.spelling = true → ∀ v ∈ calcLexicon.words,
        w.spelling <+: v.spelling → v.spelling = w.spelling)) ∧
      ∀ w ∈ Grammar.calculator.spellings, w ∈ calcLexicon.words := by
  decide +kernel

theorem isCalcWord_of_mem {w : Word} (h : w ∈ calcLexicon.words) : IsCalcWord w := by
  obtain ⟨found, starts, whole, inner, noCapital, minus, closed⟩ := calcLexicon_words.1 w h
  exact ⟨found, starts, whole, inner, noCapital, minus, closed⟩

/-- No registered word is lost among the others. -/
theorem mem_words_of_mem_spellings {w : Word} (h : w ∈ Grammar.calculator.spellings) :
    w ∈ calcLexicon.words := calcLexicon_words.2 w h

/-- No number begins like a word. -/
theorem numeral?_eq_none {c : Char} (h : startsWord c = true) (cs : List Char) :
    numeral? (c :: cs) = none := by
  simp only [startsWord, Bool.not_eq_true', Bool.or_eq_false_iff, beq_eq_false_iff_ne] at h
  obtain ⟨⟨⟨_, hdigit⟩, hpoint⟩, hmark⟩ := h
  exact Numeral.numeral?_cons_eq_none hdigit hpoint hmark cs

theorem not_blank_of_startsWord {c : Char} (h : startsWord c = true) :
    isBlank c = false ∧ c ≠ '\n' ∧ c ≠ ':' ∧ c ≠ '.' := by
  simp only [startsWord, Bool.not_eq_true', Bool.or_eq_false_iff, beq_eq_false_iff_ne] at h
  obtain ⟨⟨⟨⟨hblank, hbreak⟩, _⟩, hpoint⟩, _⟩ := h
  simp only [isBreak, Bool.or_eq_false_iff, beq_eq_false_iff_ne] at hbreak
  exact ⟨hblank, hbreak.1.1, hbreak.2, hpoint⟩

/-- What begins like a word is read as the longest word or as a variable. -/
theorem read_of_startsWord {c : Char} (h : startsWord c = true) (lx : Lexicon) (cs : List Char) :
    lx.read false (c :: cs) =
      match lx.word? (c :: cs) with
      | some w => .ok w
      | none => if c.isUpper then .ok ⟨[c], .var⟩ else .error c := by
  obtain ⟨hblank, hn, hcolon, hpoint⟩ := not_blank_of_startsWord h
  cases hw : lx.word? (c :: cs) <;>
    simp only [Lexicon.read, terminator?_eq_none hblank hn hcolon, Bool.false_and,
      Bool.false_eq_true, ↓reduceIte, Lexicon.readPlain, numeral?_eq_none h, if_neg hpoint, hw]

/-- A word of the calculator is read in front of a text, where no longer word is. -/
theorem reads_word {kind : TokenKind} {lexeme : String} {r : List Char}
    (hw : Word.ofString kind lexeme ∈ calcLexicon.words)
    (hr : ∀ c ∈ r.head?, ∀ v ∈ calcLexicon.words, ¬ lexeme.toList ++ [c] <+: v.spelling) :
    Reads calcLexicon false (lexeme.toList ++ r) [.bare kind lexeme]
      (calcLexicon.announcesLabel ⟨lexeme.toList, kind⟩) r := by
  have hcalc := isCalcWord_of_mem hw
  have hfound : calcLexicon.word? (lexeme.toList ++ r) = some ⟨lexeme.toList, kind⟩ :=
    (Lexicon.word?_append hr).trans hcalc.found
  obtain ⟨c, cs, hcs, hc⟩ : ∃ c cs, lexeme.toList = c :: cs ∧ startsWord c = true := by
    have hstart : lexeme.toList.head?.any startsWord = true := hcalc.starts
    cases hl : lexeme.toList with
    | nil => rw [hl] at hstart; cases hstart
    | cons c cs => rw [hl] at hstart; exact ⟨c, cs, rfl, hstart⟩
  refine .single ?_ ?_ hcalc.inner ?_
  · rw [hcs, List.cons_append]
    exact leadingBlanks_of_not_blank (not_blank_of_startsWord hc).1 _
  · rw [hcs, List.cons_append] at hfound ⊢
    rw [read_of_startsWord hc, hfound]
  · rintro rfl
    cases hcs

theorem not_longer_of_separated {w r : List Char} (hw : w ≠ []) (hr : Separated r) :
    ∀ c ∈ r.head?, ∀ v ∈ calcLexicon.words, ¬ w ++ [c] <+: v.spelling := by
  intro c hc v hv hp
  obtain ⟨t, ht⟩ := hp
  cases w with
  | nil => exact hw rfl
  | cons d w =>
    have hin : c ∈ v.spelling.tail := by
      rw [← ht]
      simp
    have hwhole := List.all_eq_true.mp (isCalcWord_of_mem hv).whole c hin
    rw [hr c hc] at hwhole
    cases hwhole

/-- A word of the calculator is read in front of a separator. -/
theorem reads_separated_word {kind : TokenKind} {lexeme : String} {r : List Char}
    (hw : Word.ofString kind lexeme ∈ Grammar.calculator.spellings) (hr : Separated r) :
    Reads calcLexicon false (lexeme.toList ++ r) [.bare kind lexeme]
      (calcLexicon.announcesLabel ⟨lexeme.toList, kind⟩) r := by
  have mem := mem_words_of_mem_spellings hw
  have hkeeps := Grammar.keepsLines_lexicon Grammar.keepsLines_calculator _ mem
  exact reads_word mem (not_longer_of_separated hkeeps.nonempty hr)

/-- A word of the calculator that no other word begins with. -/
structure IsClosedWord (kind : TokenKind) (lexeme : String) : Prop where
  mem : Word.ofString kind lexeme ∈ calcLexicon.words
  closed : ∀ v ∈ calcLexicon.words, lexeme.toList <+: v.spelling → v.spelling = lexeme.toList

/-- Anything may follow a word that no other word begins with. -/
theorem reads_closed_word {kind : TokenKind} {lexeme : String} (h : IsClosedWord kind lexeme)
    (r : List Char) :
    Reads calcLexicon false (lexeme.toList ++ r) [.bare kind lexeme]
      (calcLexicon.announcesLabel ⟨lexeme.toList, kind⟩) r := by
  refine reads_word h.mem ?_
  intro c _ v hv hp
  have hlen := hp.length_le
  rw [h.closed v hv ((List.prefix_append _ _).trans hp), List.length_append] at hlen
  exact absurd hlen (by simp)

theorem isClosedWord_of_mem_spellings {kind : TokenKind} {lexeme : String}
    (hw : Word.ofString kind lexeme ∈ Grammar.calculator.spellings)
    (hend : endsWord lexeme.toList = true) : IsClosedWord kind lexeme := by
  have mem := mem_words_of_mem_spellings hw
  exact ⟨mem, (isCalcWord_of_mem mem).closed hend⟩

theorem isClosedWord_leftParen : IsClosedWord .leftParen "(" :=
  isClosedWord_of_mem_spellings (List.mem_append_right _ (by decide)) (by decide)

theorem isClosedWord_rightParen : IsClosedWord .rightParen ")" :=
  isClosedWord_of_mem_spellings (List.mem_append_right _ (by decide)) (by decide)

theorem isClosedWord_comma : IsClosedWord .comma "," :=
  isClosedWord_of_mem_spellings (List.mem_append_right _ (by decide)) (by decide)

theorem isClosedWord_function {f : String} {d : FunctionEntry}
    (h : Grammar.calculator.function? f = some d) : IsClosedWord .function f := by
  obtain ⟨hm, rfl⟩ := Table.get?_eq_some_iff.mp h
  have key : ∀ d ∈ calculatorFunctions, endsWord d.name.toList = true := by decide
  exact isClosedWord_of_mem_spellings (Grammar.mem_spellings_iff.mpr (.inr (.inl ⟨d, hm, rfl⟩)))
    (key d hm)

theorem mem_spellings_of_operator {o : String} {f : Fixity} {d : OperatorEntry}
    (h : Grammar.calculator.operators.operator? o f = some d) :
    Word.ofString .operator o ∈ Grammar.calculator.spellings := by
  obtain ⟨hm, hk⟩ := Table.get?_eq_some_iff.mp h
  obtain rfl : d.symbol = o := (Prod.mk.inj hk).1
  exact Grammar.mem_spellings_iff.mpr (.inr (.inr (.inl ⟨d, hm, rfl⟩)))

/-- The operators that stand in front of an operand. -/
theorem minus_of_prefixOp {o : String} {d : OperatorEntry}
    (h : Grammar.calculator.operators.operator? o .prefixOp = some d) : o = "-" ∨ o = "--" := by
  obtain ⟨hm, hk⟩ := Table.get?_eq_some_iff.mp h
  have key : ∀ d ∈ calculatorOperators,
      d.fixity = .prefixOp → d.symbol = "-" ∨ d.symbol = "--" := by
    decide
  exact (Prod.mk.inj hk).1 ▸ key d hm (Prod.mk.inj hk).2

/-- A minus goes on as a longer word only with another minus or an arrow head. -/
theorem not_longer_minus {r : List Char} (h : ∀ c ∈ r.head?, c ≠ '-' ∧ c ≠ '>') :
    ∀ c ∈ r.head?, ∀ v ∈ calcLexicon.words, ¬ "-".toList ++ [c] <+: v.spelling := by
  intro c hc v hv hp
  have hs := (isCalcWord_of_mem hv).minus ((List.prefix_append ['-'] [c]).trans hp)
  obtain ⟨t, ht⟩ := hp
  simp only [List.mem_cons, List.not_mem_nil, or_false] at hs
  rcases hs with hs | hs | hs
  · rw [hs] at ht
    cases ht
  · rw [hs] at ht
    cases ht
    exact (h _ hc).1 rfl
  · rw [hs] at ht
    cases ht
    exact (h _ hc).2 rfl

theorem announcesLabel_of_kind {w : Word} (h : w.kind ≠ .command) (lx : Lexicon) :
    lx.announcesLabel w = false := by
  rw [Lexicon.announcesLabel, beq_false_of_ne h]
  rfl

/-! ## Numbers and variables -/

theorem endsNumeral_of_separated {r : List Char} (h : Separated r) : Numeral.EndsNumeral r := by
  intro c hc
  have := h c hc
  simp only [isSeparator, Bool.or_eq_true, beq_iff_eq] at this
  rcases this with (rfl | rfl) | rfl <;> decide

/-- A class of characters without the blanks and the ends of statements. -/
theorem not_blank_of_class {p : Char → Bool}
    (hp : [' ', '\t', '\x0c', '\r', '\n', ':'].all (fun d => !p d) = true) {c : Char}
    (h : p c = true) : isBlank c = false ∧ c ≠ '\n' ∧ c ≠ ':' := by
  have other {d : Char} (hd : d ∈ [' ', '\t', '\x0c', '\r', '\n', ':']) : c ≠ d := by
    rintro rfl
    have hc := List.all_eq_true.mp hp c hd
    rw [h] at hc
    cases hc
  refine ⟨?_, other (by decide), other (by decide)⟩
  simp only [isBlank, Bool.or_eq_false_iff, beq_eq_false_iff_ne]
  exact ⟨⟨⟨other (by decide), other (by decide)⟩, other (by decide)⟩, other (by decide)⟩

theorem not_blank_of_continues {c : Char} (h : Numeral.continues c = true) :
    isBlank c = false ∧ c ≠ '\n' ∧ c ≠ ':' := not_blank_of_class (by decide) h

/-- A number is read in front of a separator. -/
theorem reads_numeral {kind : TokenKind} {lexeme : String} {r : List Char}
    (h : Numeral.IsNumeral ⟨lexeme.toList, kind⟩) (hr : Separated r) :
    Reads calcLexicon false (lexeme.toList ++ r) [.bare kind lexeme] false r := by
  have hfound : numeral? (lexeme.toList ++ r) = some ⟨lexeme.toList, kind⟩ :=
    (numeral?_append (endsNumeral_of_separated hr)).trans (numeral?_eq_self h)
  have hkind : kind ≠ .command ∧ kind.closes = false := by
    rcases h with ⟨hk, _⟩ | ⟨hk, _⟩ <;> simp only at hk <;> rw [hk] <;> exact ⟨by decide, rfl⟩
  obtain ⟨c, cs, hcs⟩ : ∃ c cs, lexeme.toList = c :: cs :=
    List.exists_cons_of_ne_nil (Numeral.numeral?_eq_some hfound).2
  have hc : c ∈ lexeme.toList := by
    rw [hcs]
    exact List.mem_cons_self
  obtain ⟨hblank, hn, hcolon⟩ := not_blank_of_continues (Numeral.continues_of_mem h c hc)
  have hread : calcLexicon.read false (lexeme.toList ++ r) = .ok ⟨lexeme.toList, kind⟩ := by
    rw [hcs, List.cons_append] at hfound ⊢
    simp only [Lexicon.read, terminator?_eq_none hblank hn hcolon, Bool.false_and,
      Bool.false_eq_true, ↓reduceIte, Lexicon.readPlain, hfound]
  have hfront : leadingBlanks (lexeme.toList ++ r) = [] := by
    rw [hcs, List.cons_append]
    exact leadingBlanks_of_not_blank hblank _
  have := Reads.single hfront hread hkind.2 (by rintro rfl; cases hcs)
  rwa [announcesLabel_of_kind hkind.1] at this

theorem startsWord_of_isUpper {c : Char} (h : c.isUpper = true) : startsWord c = true := by
  have hdigit : c.isDigit = false := by
    have hrange : 'A'.val ≤ c.val ∧ c.val ≤ 'Z'.val := of_decide_eq_true h
    have hlow := UInt32.le_iff_toNat_le.mp hrange.1
    refine Bool.and_eq_false_iff.mpr (.inr (decide_eq_false fun hd => ?_))
    exact absurd (Nat.le_trans hlow (UInt32.le_iff_toNat_le.mp hd)) (by decide)
  have hother : ∀ d : Char, d.isUpper = false → c ≠ d := by
    rintro d hd rfl
    rw [h] at hd
    cases hd
  simp only [startsWord, isBlank, isBreak, Numeral.isMark, hdigit, Bool.not_eq_true',
    Bool.or_eq_false_iff, beq_eq_false_iff_ne]
  simp only [hother _ (by decide : Char.isUpper ' ' = false),
    hother '\t' (by decide), hother '\x0c' (by decide), hother '\r' (by decide),
    hother '\n' (by decide), hother ':' (by decide), hother '.' (by decide),
    hother 'e' (by decide), hother 'ᴇ' (by decide), ne_eq, not_false_eq_true, and_self]

/-- No word of the calculator is a capital letter. -/
theorem word?_capital {c : Char} (h : c.isUpper = true) : calcLexicon.word? [c] = none := by
  refine List.find?_eq_none.mpr ?_
  intro v hv hp
  have hkeeps := Grammar.keepsLines_lexicon Grammar.keepsLines_calculator v hv
  obtain ⟨d, ds, hds⟩ := List.exists_cons_of_ne_nil hkeeps.nonempty
  have hp := List.isPrefixOf_iff_prefix.mp hp
  rw [hds, List.cons_prefix_cons, List.prefix_nil] at hp
  obtain ⟨rfl, rfl⟩ := hp
  have hcapital := (isCalcWord_of_mem hv).noCapital (by rw [hds]; rfl)
  rw [hds, List.all_cons, h] at hcapital
  cases hcapital

/-- A variable is read in front of a separator. -/
theorem reads_variable {name : String} {r : List Char} (h : Expr.IsVariable name)
    (hr : Separated r) : Reads calcLexicon false (name.toList ++ r) [.bare .var name] false r := by
  rcases h with h | ⟨c, hupper, hc⟩
  · have hm : Word.ofString .var name ∈ Grammar.calculator.spellings :=
      Grammar.mem_spellings_iff.mpr (.inr (.inr (.inr (.inl ⟨name, h, rfl⟩))))
    exact reads_separated_word hm hr
  · have hstart := startsWord_of_isUpper hupper
    have hword : calcLexicon.word? ([c] ++ r) = none :=
      (Lexicon.word?_append (not_longer_of_separated (List.cons_ne_nil c []) hr)).trans
        (word?_capital hupper)
    have hread : calcLexicon.read false (name.toList ++ r) = .ok ⟨name.toList, .var⟩ := by
      rw [hc, List.singleton_append, read_of_startsWord hstart]
      rw [List.singleton_append] at hword
      rw [hword]
      exact if_pos hupper
    have hfront : leadingBlanks (name.toList ++ r) = [] := by
      rw [hc]
      exact leadingBlanks_of_not_blank (not_blank_of_startsWord hstart).1 _
    exact .single hfront hread rfl (by rintro rfl; cases hc)

end CalcSyntax
