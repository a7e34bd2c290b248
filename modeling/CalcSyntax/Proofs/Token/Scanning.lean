import CalcSyntax.Proofs.Grammar.Sorting
import CalcSyntax.Proofs.Token.Growth
import CalcSyntax.Proofs.Token.Place

/-!
# Scanning — the longest word, or a letter, or nothing

Where a lexer stands before no terminator, no label that is awaited and no number, it
tries the words of the grammar in their order and takes the first that fits. Since
longer words stand in front of shorter ones, that is the longest, whichever tables
the words come from and in whatever order they were registered. Two words that fit
and are equally long are the same word, so the kind of the token is that of the
spelling. Only where no word fits at all, single letters are looked at.

## What is proved

- `Grammar.exists_mem_words_iff` — the spellings that the words of a grammar have.
- `Lexer.ReachesWords.read_of_word?` and its companions — what is read there.
- `read_longest` — the words of a grammar, and what a lexer reads where it looks for
  them.
-/

set_option autoImplicit false

namespace CalcSyntax

/-! ## Words and spellings -/

namespace Grammar

variable {g : Grammar}

/-- Each spelling of the tables, the named variables and the punctuation is that of a word. -/
theorem exists_mem_words_iff {s : String} : (∃ w ∈ g.lexicon.words, w.spelling = s.toList) ↔
    s ∈ g.registered ∨ s ∈ namedVariables ∨ ∃ w ∈ punctuation, w.spelling = s.toList := by
  rw [← isSome_kindOf?_iff, Option.isSome_iff_exists]
  constructor
  · rintro ⟨w, hw, hs⟩
    rw [mem_words_iff, hs, String.ofList_toList] at hw
    exact ⟨w.kind, hw⟩
  · rintro ⟨kind, hkind⟩
    refine ⟨⟨s.toList, kind⟩, mem_words_iff.mpr ?_, rfl⟩
    rw [String.ofList_toList]
    exact hkind

/-- No two words have one spelling. -/
theorem nodup_map_spelling (g : Grammar) : (g.lexicon.words.map Word.spelling).Nodup :=
  List.pairwise_map.mpr (g.ordered_words.imp Word.ne_of_before)

/-- The words are what a stable sort leaves of the spellings, without repetitions. -/
theorem words_eq_destutter (g : Grammar) : g.lexicon.words =
    (g.spellings.mergeSort Word.notAfter).destutter fun a b => a.spelling ≠ b.spelling :=
  Word.enterAll_eq g.spellings

end Grammar

/-! ## Reading -/

namespace Lexer

/-- Behind the blanks the lexer stands before a character at which it looks for words:
neither a terminator nor a number begins there, nor a label that is awaited. -/
structure ReachesWords (lx : Lexer) (c : Char) (cs : List Char) : Prop where
  rest : lx.front.rest = c :: cs
  terminator : terminator? (c :: cs) = none
  label : (lx.awaitsLabel && isLabelChar c) = false
  numeral : numeral? (c :: cs) = none
  point : c ≠ '.'

variable {lx : Lexer} {c : Char} {cs : List Char}

/-- Neither the end of a statement nor a label goes before numbers and words. -/
theorem ReachesWords.read_front (h : lx.ReachesWords c cs) :
    lx.lexicon.read lx.awaitsLabel lx.front.rest = lx.lexicon.readPlain c cs := by
  have hlabel : ¬ (lx.awaitsLabel && isLabelChar c) = true := by
    rw [h.label]
    exact Bool.false_ne_true
  rw [h.rest, Lexicon.read, h.terminator]
  exact if_neg hlabel

/-- Where a word fits, the first one is read. -/
theorem ReachesWords.read_of_word? (h : lx.ReachesWords c cs) {w : Word}
    (hw : lx.lexicon.word? (c :: cs) = some w) :
    lx.read.1 = .ok ⟨w.kind, String.ofList w.spelling, lx.front.spanOf w.spelling⟩ := by
  have hplain : lx.lexicon.readPlain c cs = .ok w :=
    Lexicon.readPlain_eq_ok_iff.mpr (.inr ⟨h.numeral, h.point, .inl hw⟩)
  rw [read_of_ok (h.read_front.trans hplain)]

/-- Where no word fits, a capital is read as a variable. -/
theorem ReachesWords.read_of_isUpper (h : lx.ReachesWords c cs)
    (hnone : lx.lexicon.word? (c :: cs) = none) (hupper : c.isUpper = true) :
    lx.read.1 = .ok ⟨.var, String.ofList [c], lx.front.spanOf [c]⟩ := by
  have hplain : lx.lexicon.readPlain c cs = .ok ⟨[c], .var⟩ :=
    Lexicon.readPlain_eq_ok_iff.mpr (.inr ⟨h.numeral, h.point, .inr ⟨hnone, hupper, rfl⟩⟩)
  rw [read_of_ok (h.read_front.trans hplain)]

/-- Where no word fits, any other character is stray. -/
theorem ReachesWords.read_of_not_isUpper (h : lx.ReachesWords c cs)
    (hnone : lx.lexicon.word? (c :: cs) = none) (hupper : c.isUpper = false) :
    lx.read.1 = .error ⟨c, lx.front.spanOf [c]⟩ := by
  have hplain : lx.lexicon.readPlain c cs = .error c := by
    simp only [Lexicon.readPlain, h.numeral, h.point, hnone, hupper, Bool.false_eq_true,
      ↓reduceIte]
  rw [read_of_error (h.read_front.trans hplain)]

end Lexer

/-- **The words of a grammar, and the longest match.** Each spelling is that of one word, of
the kind that goes first. Where a lexer looks for words it reads the longest that fits; if
none fits it reads a single letter as a variable, and any other character is stray. -/
theorem read_longest (g : Grammar) :
    (g.lexicon.words.map Word.spelling).Nodup ∧
      (∀ s : String, (∃ w ∈ g.lexicon.words, w.spelling = s.toList) ↔
        s ∈ g.registered ∨ s ∈ namedVariables ∨ ∃ w ∈ punctuation, w.spelling = s.toList) ∧
      (∀ w ∈ g.lexicon.words, g.kindOf? (String.ofList w.spelling) = some w.kind) ∧
      ∀ (lx : Lexer) (c : Char) (cs : List Char), lx.lexicon = g.lexicon →
        lx.ReachesWords c cs →
          ((∃ v ∈ g.lexicon.words, v.spelling <+: c :: cs) →
            ∃ w ∈ g.lexicon.words, w.spelling <+: c :: cs ∧
              (∀ v ∈ g.lexicon.words, v.spelling <+: c :: cs →
                byteLength v.spelling ≤ byteLength w.spelling) ∧
              lx.read.1 =
                .ok ⟨w.kind, String.ofList w.spelling, lx.front.spanOf w.spelling⟩) ∧
          ((∀ v ∈ g.lexicon.words, ¬ v.spelling <+: c :: cs) →
            (c.isUpper = true →
              lx.read.1 = .ok ⟨.var, String.ofList [c], lx.front.spanOf [c]⟩) ∧
            (c.isUpper = false → lx.read.1 = .error ⟨c, lx.front.spanOf [c]⟩)) := by
  refine ⟨g.nodup_map_spelling, fun s => Grammar.exists_mem_words_iff,
    fun w hw => Grammar.mem_words_iff.mp hw, fun lx c cs hwords h => ⟨?_, ?_⟩⟩
  · rintro ⟨v, hv, hp⟩
    cases hfirst : g.lexicon.word? (c :: cs) with
    | none => exact absurd hp (Lexicon.word?_eq_none_iff.mp hfirst v hv)
    | some w =>
      obtain ⟨hw, hpw, hlongest⟩ := (Lexicon.word?_eq_some_iff g.ordered_words).mp hfirst
      refine ⟨w, hw, hpw, fun u hu hpu => byteLength_le_of_isPrefix (hlongest u hu hpu), ?_⟩
      exact h.read_of_word? (hwords ▸ hfirst)
  · intro hnone
    have hnone : lx.lexicon.word? (c :: cs) = none :=
      hwords ▸ Lexicon.word?_eq_none_iff.mpr hnone
    exact ⟨h.read_of_isUpper hnone, h.read_of_not_isUpper hnone⟩

/-- A function that begins a command, and an operator that is spelled like it. -/
def overlapGrammar : Grammar :=
  (Grammar.calculator.registerFunction ⟨"Dis", .exactly 1⟩).registerOperator
    (.usual "Disp" .prefixOp .negation)

/-- Behind a blank, the command goes before the function that it begins with, and before the
operator of its own spelling. -/
theorem read_longest_overlap :
    overlapGrammar.kindOf? "Dis" = some .function ∧ overlapGrammar.isOperator "Disp" = true ∧
      (Lexer.ofSource " Display" overlapGrammar).ReachesWords 'D' "isplay".toList ∧
      (Lexer.ofSource " Display" overlapGrammar).read.1 =
        .ok ⟨.command, "Disp", ⟨1, 5, 1, 1⟩⟩ := by
  have hreaches : (Lexer.ofSource " Display" overlapGrammar).ReachesWords 'D' "isplay".toList := by
    constructor <;> decide +kernel
  have hword : (⟨"Disp".toList, .command⟩ : Word) ∈ overlapGrammar.lexicon.words := by
    decide +kernel
  have hfits : "Disp".toList <+: 'D' :: "isplay".toList := by decide
  obtain ⟨w, hw, hp, hlongest, hread⟩ := ((read_longest overlapGrammar).2.2.2
    (.ofSource " Display" overlapGrammar) 'D' "isplay".toList rfl hreaches).1 ⟨_, hword, hfits⟩
  have honly : ∀ w ∈ overlapGrammar.lexicon.words, w.spelling <+: 'D' :: "isplay".toList →
      4 ≤ byteLength w.spelling → w = ⟨"Disp".toList, .command⟩ := by
    decide +kernel
  obtain rfl := honly w hw hp (hlongest _ hword hfits)
  exact ⟨by decide +kernel, by decide +kernel, hreaches, hread⟩

end CalcSyntax
