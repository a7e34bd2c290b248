import CalcSyntax.Proofs.Grammar.Lexicon
import CalcSyntax.Proofs.Token.Place
import CalcSyntax.Text.Space

/-!
# Recognition — what a lexer makes of a registered spelling

Registering an entry is enough for a lexer to find its spelling: the word is in
the lexicon, and where the spelling is all there is, no other word is as long.
One rule goes before the lexicon. A number is read as far as it reaches, whatever
words are registered, so a spelling that begins with one is read as the number. A
point belongs to that rule too. Where no number begins with it, it is stray.

## What is proved

- `Grammar.word?_of_registered` — a registered spelling finds itself.
- `read_registered` — what a fresh lexer answers on it.
-/

set_option autoImplicit false

namespace CalcSyntax

variable {g : Grammar} {s : String}

namespace Grammar

/-- **A registered spelling finds itself**: no word at its front is longer. -/
theorem word?_of_registered (hs : s ∈ g.registered) :
    ∃ kind, g.kindOf? s = some kind ∧ g.lexicon.word? s.toList = some (.ofString kind s) := by
  obtain ⟨kind, hkind⟩ := Option.isSome_iff_exists.mp (isSome_kindOf?_iff.mpr (.inl hs))
  refine ⟨kind, hkind, (Lexicon.word?_eq_some_iff g.ordered_words).mpr
    ⟨mem_words_iff.mpr ?_, List.prefix_rfl, fun _ _ hv => hv⟩⟩
  rwa [Word.ofString, String.ofList_toList]

end Grammar

/-- At the first character of a source nothing goes before numbers and words. -/
theorem Lexer.read_front_ofSource (g : Grammar) {c : Char} {cs : List Char}
    (hs : s.toList = c :: cs) (hblank : isBlank c = false) (hbreak : isBreak c = false) :
    (ofSource s g).lexicon.read (ofSource s g).awaitsLabel (ofSource s g).front.rest =
      g.lexicon.readPlain c cs := by
  have hne : c ≠ '\n' ∧ c ≠ ':' := by
    constructor <;> rintro rfl <;> exact absurd hbreak (by decide)
  have hfront : (ofSource s g).front.rest = c :: cs := by
    show s.toList.drop (leadingBlanks s.toList).length = c :: cs
    rw [hs, leadingBlanks_of_not_blank hblank]
    rfl
  rw [hfront, Lexicon.read, terminator?_eq_none hblank hne.1 hne.2]
  rfl

/-- A source that begins with no blank is read from its first byte on. -/
theorem Lexer.spanOf_front_ofSource (g : Grammar) {c : Char} {cs : List Char}
    (hs : s.toList = c :: cs) (hblank : isBlank c = false) (spelling : List Char) :
    (ofSource s g).front.spanOf spelling = ⟨0, byteLength spelling, 1, 0⟩ := by
  have hfront : (ofSource s g).front = (ofSource s g).cursor.pass [] := by
    show (ofSource s g).cursor.pass (leadingBlanks s.toList) = _
    rw [hs, leadingBlanks_of_not_blank hblank]
  rw [hfront]
  simp [Cursor.spanOf, Cursor.pass, ofSource, ofText, Cursor.ofText, byteLength]

/-- **What a fresh lexer answers on a registered spelling** that is not empty and holds no
blank and no terminator. If a number stands at its front, the longest such number is read. If
none does, the spelling is read, with the kind that it makes, unless it begins with a point:
then the point is stray. -/
theorem read_registered (g : Grammar) (s : String) (hs : s ∈ g.registered) (hne : s ≠ "")
    (hclear : ∀ c ∈ s.toList, isBlank c = false ∧ isBreak c = false) :
    (∀ n, Numeral.IsNumeral n → n.spelling <+: s.toList →
        (∀ v, Numeral.IsNumeral v → v.spelling <+: s.toList → v.spelling <+: n.spelling) →
        ∃ p, (Lexer.ofSource s g).read.1 = .ok ⟨n.kind, String.ofList n.spelling, p⟩) ∧
      ((∀ n, Numeral.IsNumeral n → ¬ n.spelling <+: s.toList) → s.toList.head? ≠ some '.' →
        ∃ kind p, g.kindOf? s = some kind ∧ (Lexer.ofSource s g).read.1 = .ok ⟨kind, s, p⟩) ∧
      ((∀ n, Numeral.IsNumeral n → ¬ n.spelling <+: s.toList) → s.toList.head? = some '.' →
        (Lexer.ofSource s g).read.1 = .error ⟨'.', ⟨0, 1, 1, 0⟩⟩) := by
  cases hcs : s.toList with
  | nil => exact absurd (String.toList_eq_nil_iff.mp hcs) hne
  | cons c cs =>
    rw [hcs] at hclear
    obtain ⟨hblank, hbreak⟩ := hclear c List.mem_cons_self
    have hfront := Lexer.read_front_ofSource g hcs hblank hbreak
    refine ⟨fun n hn hp hlongest => ?_, fun hnone hpoint => ?_, fun hnone hpoint => ?_⟩
    · have hnumeral : numeral? (c :: cs) = some n := numeral?_eq_some_iff.mpr ⟨hn, hp, hlongest⟩
      rw [Lexicon.readPlain, hnumeral] at hfront
      exact ⟨_, congrArg Prod.fst (Lexer.read_of_ok hfront)⟩
    · obtain ⟨kind, hkind, hword⟩ := Grammar.word?_of_registered hs
      have hc : c ≠ '.' := fun hc => hpoint (congrArg some hc)
      rw [hcs] at hword
      rw [Lexicon.readPlain, numeral?_eq_none_iff.mpr hnone, hword] at hfront
      have hread := Lexer.read_of_ok (hfront.trans (if_neg hc))
      rw [Word.ofString, String.ofList_toList] at hread
      exact ⟨kind, _, hkind, congrArg Prod.fst hread⟩
    · obtain rfl : c = '.' := Option.some.inj hpoint
      rw [Lexicon.readPlain, numeral?_eq_none_iff.mpr hnone] at hfront
      rw [Lexer.read_of_error hfront, Lexer.spanOf_front_ofSource g hcs hblank]
      rfl

/-- A function whose name begins with a number, and an operator that begins with a point. What
is read is the number, and the point is stray. -/
theorem read_registered_powerOfTen :
    let g : Grammar := (Grammar.calculator.registerFunction ⟨"10^(", .exactly 1⟩).registerOperator
      (.usual ".*" .infixOp .multiplicative)
    (∀ s ∈ ["10^(", ".*"], s ∈ g.registered ∧ s ≠ "" ∧
        ∀ c ∈ s.toList, isBlank c = false ∧ isBreak c = false) ∧
      (∃ p, (Lexer.ofSource "10^(" g).read.1 = .ok ⟨.integer, "10", p⟩) ∧
      (Lexer.ofSource ".*" g).read.1 = .error ⟨'.', ⟨0, 1, 1, 0⟩⟩ := by
  intro g
  have hclear : ∀ s ∈ ["10^(", ".*"], s ∈ g.registered ∧ s ≠ "" ∧
      ∀ c ∈ s.toList, isBlank c = false ∧ isBreak c = false := by
    have hall : ∀ s ∈ ["10^(", ".*"], s ∈ g.registered ∧ s ≠ "" ∧
        (s.toList.all fun c => !isBlank c && !isBreak c) = true := by decide +kernel
    simpa only [List.all_eq_true, Bool.and_eq_true, Bool.not_eq_true'] using hall
  refine ⟨hclear, ?_, ?_⟩
  · obtain ⟨hs, hne, hchars⟩ := hclear "10^(" (by simp)
    have hten : numeral? "10^(".toList = some ⟨['1', '0'], .integer⟩ := by decide
    obtain ⟨hn, hp, hlongest⟩ := numeral?_eq_some_iff.mp hten
    exact (read_registered g "10^(" hs hne hchars).1 _ hn hp hlongest
  · obtain ⟨hs, hne, hchars⟩ := hclear ".*" (by simp)
    have hnone : numeral? ".*".toList = none := by decide
    exact (read_registered g ".*" hs hne hchars).2.2 (numeral?_eq_none_iff.mp hnone) rfl

/-- The name is registered and not read: registration alone does not make it a word. -/
theorem powerOfTen_notRead :
    let g : Grammar := Grammar.calculator.registerFunction ⟨"10^(", .exactly 1⟩
    "10^(" ∈ g.registered ∧
      (∀ c ∈ "10^(".toList, isWhiteSpace c = false ∧ isBreak c = false) ∧
      ¬ ∃ t, (Lexer.ofSource "10^(" g).read.1 = .ok t ∧ t.lexeme = "10^(" := by
  intro g
  have hall : ("10^(".toList.all fun c => !isWhiteSpace c && !isBreak c) = true := by decide
  refine ⟨by decide +kernel, ?_, ?_⟩
  · simpa only [List.all_eq_true, Bool.and_eq_true, Bool.not_eq_true'] using hall
  · rintro ⟨t, ht, hlexeme⟩
    have hchars : "10^(".toList = ['1', '0', '^', '('] := by decide
    have hplain : g.lexicon.readPlain '1' ['0', '^', '('] = .ok ⟨['1', '0'], .integer⟩ := rfl
    have hfront := Lexer.read_front_ofSource g hchars (by decide) (by decide)
    rw [Lexer.read_of_ok (hfront.trans hplain)] at ht
    cases ht
    have hten : String.ofList ['1', '0'] = "10^(" := hlexeme
    exact absurd hten (by decide)

end CalcSyntax
