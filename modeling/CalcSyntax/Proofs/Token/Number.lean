import CalcSyntax.Proofs.Text.Pattern
import CalcSyntax.Proofs.Token.Numeral
import CalcSyntax.Proofs.Token.Place

/-!
# Number — patterns of numbers, and the longest of them

Numbers can be given as patterns, tried in an order: first the one for floats, then the one
for integers. That is a scanner's view, and its answer is what comes first. The other view
is that of a reader, for whom a number is a word of a language and goes on as far as it can.
The two agree on every text. No pattern gives a part back, and where the patterns stop, the
word could not go on.

A scanner asks besides whether it should look for a number at all: at a digit, at a point,
or where an exponent begins. It misses none by that, and at a point it may look in vain.

## What is proved

- `byPatterns_eq`, `isTried_eq` — the patterns find the longest number, and are tried wherever
  there is one.
- `read_number` — what a lexer reads in front of a number, and in front of a point that
  begins none.
-/

set_option autoImplicit false

namespace CalcSyntax

namespace Numeral

open Pattern

/-! ## The patterns -/

/-- A digit. -/
def digit : Pattern := .one Char.isDigit

/-- A point. -/
def point : Pattern := .one (· == '.')

/-- One digit or more. -/
def integerPattern : Pattern := .seq digit (.many Char.isDigit)

/-- A mark, perhaps a minus, and a digit. -/
def startPattern : Pattern := .seq (.one isMark) (.seq (.option (.one (· == '-'))) digit)

/-- A mark, perhaps a minus, and one digit or two. -/
def exponentPattern : Pattern :=
  .seq (.one isMark) (.seq (.option (.one (· == '-'))) (.seq digit (.option digit)))

/-- A number with a point and perhaps an exponent, or digits and an exponent, or an exponent. -/
def floatPattern : Pattern :=
  .either
    (.seq
      (.either (.seq integerPattern (.seq point (.many Char.isDigit))) (.seq point integerPattern))
      (.option exponentPattern))
    (.either (.seq integerPattern exponentPattern) exponentPattern)

/-- Whether a number is looked for at the front of a text. -/
def isTried : List Char → Bool
  | [] => false
  | c :: cs => c.isDigit || c == '.' || (startPattern.match? (c :: cs)).isSome

/-- What the patterns make of a text at whose front a number is looked for. -/
def byPatterns (cs : List Char) : Except Char Word :=
  match floatPattern.match? cs with
  | some s => .ok ⟨s, .float⟩
  | none =>
    match integerPattern.match? cs with
    | some s => .ok ⟨s, .integer⟩
    | none => .error '.'

/-! ## What the patterns take -/

theorem dropWhile_isDigit (cs : List Char) :
    cs.dropWhile Char.isDigit = cs.drop (digits cs).length := by
  have hdrop : (digits cs ++ cs.dropWhile Char.isDigit).drop (digits cs).length = _ :=
    List.drop_left
  rw [digits, List.takeWhile_append_dropWhile] at hdrop
  exact hdrop.symm

theorem digits_cons (c : Char) (cs : List Char) :
    digits (c :: cs) = if c.isDigit then c :: digits cs else [] := List.takeWhile_cons

theorem isEmpty_digits_cons (c : Char) (cs : List Char) :
    (digits (c :: cs)).isEmpty = !c.isDigit := by
  rw [digits_cons]
  cases c.isDigit <;> rfl

theorem first?_digit_of_not {c : Char} (h : c.isDigit = false) (b : Pattern) (cs : List Char) :
    (Pattern.seq digit b).first? (c :: cs) = none := by
  rw [digit, first?_seq_one, h]
  rfl

/-- Behind digits, a part that begins with none is looked for behind all of them. -/
theorem first?_seq_integer {b : Pattern}
    (hb : ∀ c cs, c.isDigit = true → b.first? (c :: cs) = none) (cs : List Char) :
    (Pattern.seq integerPattern b).first? cs =
      if (digits cs).isEmpty then none else b.first? (cs.drop (digits cs).length) := by
  rw [integerPattern, first?_seq_assoc]
  cases cs with
  | nil => rfl
  | cons c cs =>
    rw [digit, first?_seq_one, first?_seq_many hb, dropWhile_isDigit, digits_cons]
    cases c.isDigit <;> rfl

theorem takes_integerPattern : integerPattern.Takes digits := by
  intro cs
  cases cs with
  | nil => rfl
  | cons c cs =>
    rw [integerPattern, digit, first?_seq_one, first?_many, dropWhile_isDigit, digits_cons]
    cases c.isDigit <;> rfl

theorem takes_exponentDigits : (Pattern.seq digit (.option digit)).Takes exponentDigits := by
  intro cs
  cases cs with
  | nil => rfl
  | cons c cs =>
    rw [first?_seq_option, digit, first?_one_cons, exponentDigits, List.take_succ_cons, digits_cons]
    cases c.isDigit with
    | false => rfl
    | true =>
      cases cs with
      | nil => rfl
      | cons d cs =>
        rw [List.take_succ_cons, digits_cons]
        cases hd : d.isDigit <;> simp [hd, digits]

/-- A minus is taken if there is one, since nothing that follows begins with it. -/
theorem first?_seq_minus {b : Pattern} (hb : ∀ cs, b.first? ('-' :: cs) = none)
    (cs : List Char) : (Pattern.seq (.option (.one (· == '-'))) b).first? cs =
      if '-' ∈ cs.head? then b.first? cs.tail else b.first? cs := by
  rw [first?_seq]
  cases cs with
  | nil =>
    have hnone : ¬ '-' ∈ ([] : List Char).head? := nofun
    rw [if_neg hnone]
    exact List.findSome?_singleton
  | cons c cs =>
    by_cases hc : c = '-'
    · subst hc
      have hways : (Pattern.option (.one (· == '-'))).rests ('-' :: cs) = [cs, '-' :: cs] := rfl
      have hhead : '-' ∈ ('-' :: cs).head? := rfl
      rw [hways, List.findSome?_cons, List.findSome?_singleton, hb, if_pos hhead, List.tail_cons]
      cases b.first? cs <;> rfl
    · have hne : ¬ '-' ∈ (c :: cs).head? := fun h => hc (Option.some.inj h)
      rw [if_neg hne]
      simp [rests, hc]

theorem takes_exponentPattern : exponentPattern.Takes exponent := by
  intro cs
  cases cs with
  | nil => rfl
  | cons m cs =>
    have hminus : ∀ cs, (Pattern.seq digit (.option digit)).first? ('-' :: cs) = none :=
      first?_digit_of_not (by decide) _
    rw [exponentPattern, first?_seq_one, first?_seq_minus hminus]
    by_cases hm : '-' ∈ cs.head?
    · obtain ⟨ds, rfl⟩ := List.head?_eq_some_iff.mp hm
      rw [if_pos hm, List.tail_cons, takes_exponentDigits ds, exponent]
      cases isMark m <;> cases (exponentDigits ds).isEmpty <;> rfl
    · rw [if_neg hm, takes_exponentDigits cs, exponent_plain hm]
      cases isMark m <;> cases (exponentDigits cs).isEmpty <;> rfl

theorem isSome_first?_digit (cs : List Char) :
    (digit.first? cs).isSome = !(exponentDigits cs).isEmpty := by
  cases cs with
  | nil => rfl
  | cons c cs =>
    rw [digit, first?_one_cons, exponentDigits, List.take_succ_cons, isEmpty_digits_cons]
    cases c.isDigit <;> rfl

/-- An exponent is looked for where there is one. -/
theorem isSome_startPattern (cs : List Char) :
    (startPattern.match? cs).isSome = !(exponent cs).isEmpty := by
  rw [match?, Option.isSome_map]
  cases cs with
  | nil => rfl
  | cons m cs =>
    have hminus : ∀ cs, digit.first? ('-' :: cs) = none := fun _ => rfl
    rw [startPattern, first?_seq_one, first?_seq_minus hminus]
    by_cases hm : '-' ∈ cs.head?
    · obtain ⟨ds, rfl⟩ := List.head?_eq_some_iff.mp hm
      rw [if_pos hm, List.tail_cons, exponent, apply_ite Option.isSome, isSome_first?_digit]
      cases isMark m <;> cases (exponentDigits ds).isEmpty <;> rfl
    · rw [if_neg hm, exponent_plain hm, apply_ite Option.isSome, isSome_first?_digit]
      cases isMark m <;> cases (exponentDigits cs).isEmpty <;> rfl

theorem first?_seq_point (b : Pattern) (cs : List Char) : (Pattern.seq point b).first? cs =
    if '.' ∈ cs.head? then b.first? cs.tail else none := by
  cases cs with
  | nil => rfl
  | cons c cs =>
    rw [point, first?_seq_one]
    by_cases hc : c = '.' <;> simp [hc]

/-- Behind a number that may go on with an exponent, the exponent is taken if there is one. -/
theorem getD_exponentPattern (cs : List Char) :
    (exponentPattern.first? cs).getD cs = cs.drop (exponent cs).length := by
  rw [takes_exponentPattern cs]
  cases exponent cs <;> rfl

theorem exponentPattern_eq_none {cs : List Char} (h : ∀ c ∈ cs.head?, isMark c = false) :
    exponentPattern.first? cs = none := by
  cases cs with
  | nil => rfl
  | cons c cs => rw [exponentPattern, first?_seq_one, h c rfl]; rfl

theorem isMark_eq_false {c : Char} (h : c.isDigit = true ∨ c = '.') : isMark c = false :=
  Bool.eq_false_iff.mpr fun hm => by
    obtain ⟨hdigit, hpoint⟩ := not_digit_of_isMark hm
    rw [hdigit] at h
    exact h.elim nofun hpoint

/-- The three ways to be a float are tried one after the other. -/
theorem first?_floatPattern (cs : List Char) : floatPattern.first? cs =
    (((if (digits cs).isEmpty then none
        else (Pattern.seq point (.many Char.isDigit)).first? (cs.drop (digits cs).length)).or
      ((Pattern.seq point integerPattern).first? cs)).map
        fun rest => rest.drop (exponent rest).length).or
      ((if (digits cs).isEmpty then none
        else exponentPattern.first? (cs.drop (digits cs).length)).or (exponentPattern.first? cs)) := by
  have hpoint : ∀ c cs, c.isDigit = true →
      (Pattern.seq point (.many Char.isDigit)).first? (c :: cs) = none := by
    intro c cs hc
    rw [first?_seq_point, if_neg]
    rintro ⟨⟩
    cases hc
  have hmark : ∀ c cs, c.isDigit = true → exponentPattern.first? (c :: cs) = none := by
    intro c cs hc
    exact exponentPattern_eq_none fun d hd => isMark_eq_false (.inl (Option.some.inj hd ▸ hc))
  simp only [floatPattern, first?_either, first?_seq_option, first?_seq_integer hpoint,
    first?_seq_integer hmark, getD_exponentPattern]

/-- What is left behind a float, and nothing if the word is no float. -/
def behindFloat (cs : List Char) (w : Word) : Option (List Char) :=
  if w.kind = .float then some (cs.drop w.spelling.length) else none

/-- Digits at the front are followed by a fraction, by an exponent, or are an integer. -/
theorem first?_floatPattern_afterDigits {cs : List Char} (h : (digits cs).isEmpty = false) :
    floatPattern.first? cs =
      behindFloat cs (afterDigits (digits cs) (cs.drop (digits cs).length)) := by
  have hdigit : ∀ c ∈ cs.head?, c.isDigit = true := by
    cases cs with
    | nil => nofun
    | cons c cs =>
      rw [isEmpty_digits_cons, Bool.not_eq_false'] at h
      exact fun d hd => Option.some.inj hd ▸ h
  have hpoint : ¬ '.' ∈ cs.head? := fun hc => absurd (hdigit '.' hc) (by decide)
  have hmark : exponentPattern.first? cs = none :=
    exponentPattern_eq_none fun c hc => isMark_eq_false (.inl (hdigit c hc))
  rw [first?_floatPattern, h, if_neg Bool.false_ne_true, if_neg Bool.false_ne_true,
    first?_seq_point _ cs, if_neg hpoint, hmark, Option.or_none, Option.or_none, first?_seq_point]
  by_cases hrest : '.' ∈ (cs.drop (digits cs).length).head?
  · obtain ⟨rest, hcs⟩ := List.head?_eq_some_iff.mp hrest
    rw [if_pos hrest, hcs, List.tail_cons, first?_many, dropWhile_isDigit]
    simp only [Option.map_some, Option.some_or, behindFloat, afterDigits, ↓reduceIte,
      List.length_append, List.length_cons, ← List.drop_drop, hcs, List.drop_succ_cons]
  · rw [if_neg hrest, Option.map_none, Option.none_or, afterDigits_plain _ hrest,
      takes_exponentPattern]
    cases he : (exponent (cs.drop (digits cs).length)).isEmpty with
    | true => rfl
    | false => simp [behindFloat, List.drop_drop]

/-- Without digits at the front there is a point and a fraction, or an exponent. -/
theorem first?_floatPattern_withoutDigits {cs : List Char} (h : (digits cs).isEmpty = true) :
    floatPattern.first? cs = (withoutDigits? cs).bind (behindFloat cs) := by
  rw [first?_floatPattern, h, if_pos rfl, if_pos rfl, Option.none_or, Option.none_or,
    first?_seq_point]
  by_cases hpoint : '.' ∈ cs.head?
  · obtain ⟨rest, rfl⟩ := List.head?_eq_some_iff.mp hpoint
    have hmark : exponentPattern.first? ('.' :: rest) = none :=
      exponentPattern_eq_none fun c hc => isMark_eq_false (.inr (Option.some.inj hc).symm)
    rw [if_pos hpoint, List.tail_cons, takes_integerPattern, hmark, Option.or_none, withoutDigits?]
    cases he : (digits rest).isEmpty with
    | true => rfl
    | false => simp [behindFloat, List.drop_drop]
  · rw [if_neg hpoint, Option.map_none, Option.none_or, takes_exponentPattern,
      withoutDigits?_plain hpoint]
    cases he : (exponent cs).isEmpty <;> rfl

/-- The pattern for floats finds the number that is read if it is a float, and nothing else. -/
theorem first?_floatPattern_eq (cs : List Char) :
    floatPattern.first? cs = (numeral? cs).bind (behindFloat cs) := by
  rw [numeral?]
  cases h : (digits cs).isEmpty with
  | true => exact first?_floatPattern_withoutDigits h
  | false => exact first?_floatPattern_afterDigits h

theorem isSome_numeral?_cons (c : Char) (cs : List Char) :
    (numeral? (c :: cs)).isSome = (c.isDigit || (withoutDigits? (c :: cs)).isSome) := by
  simp only [numeral?, isEmpty_digits_cons]
  cases c.isDigit <;> rfl

/-- An integer that is read is all the digits at the front. -/
theorem digits_eq_of_numeral? {cs s : List Char} (h : numeral? cs = some ⟨s, .integer⟩) :
    digits cs = s := by
  obtain ⟨hs, hp, hlongest⟩ := numeral?_eq_some_iff.mp h
  obtain ⟨_, hi⟩ | ⟨hk, _⟩ := hs
  · have hle : s <+: digits cs := by
      obtain ⟨rest, rfl⟩ := hp
      rw [digits, List.takeWhile_append_of_pos hi.2]
      exact List.prefix_append _ _
    have hne : digits cs ≠ [] := fun hnil => hi.1 (List.prefix_nil.mp (hnil ▸ hle))
    have hge : digits cs <+: s :=
      hlongest ⟨digits cs, .integer⟩ (.inl ⟨rfl, hne, areDigits_digits cs⟩) (digits_isPrefixOf cs)
    exact hge.eq_of_length_le hle.length_le
  · cases hk

/-- **The patterns find the number that is read.** -/
theorem byPatterns_eq (cs : List Char) :
    byPatterns cs = (numeral? cs).elim (.error '.') .ok := by
  have hfloat := first?_floatPattern_eq cs
  have hinteger := match?_of_takes takes_integerPattern digits_isPrefixOf cs
  cases hn : numeral? cs with
  | none =>
    have hdigits : (digits cs).isEmpty = true := by
      cases hd : (digits cs).isEmpty with
      | true => rfl
      | false => rw [numeral?, hd] at hn; cases hn
    rw [hn, Option.bind_none] at hfloat
    rw [hdigits, if_pos rfl] at hinteger
    rw [byPatterns, match?, hfloat, Option.map_none, hinteger]
    rfl
  | some w =>
    obtain ⟨s, kind⟩ := w
    rw [hn, Option.bind_some] at hfloat
    obtain ⟨rfl, hi⟩ | ⟨rfl, hf⟩ := isNumeral_of_numeral? hn
    · rw [digits_eq_of_numeral? hn, hi.isEmpty_eq_false, if_neg Bool.false_ne_true] at hinteger
      rw [byPatterns, match?, hfloat, hinteger]
      rfl
    · have hmatch := match?_of_first? (numeral?_eq_some hn).1 hfloat
      rw [byPatterns, hmatch]
      rfl

/-- **A number is looked for where there is one**, and at a point. -/
theorem isTried_eq (cs : List Char) :
    isTried cs = ((numeral? cs).isSome || cs.head? == some '.') := by
  cases cs with
  | nil => rfl
  | cons c cs =>
    rw [isTried, isSome_startPattern, isSome_numeral?_cons, List.head?_cons, Option.some_beq_some]
    by_cases hc : c = '.'
    · simp [hc]
    · have hpoint : ¬ '.' ∈ (c :: cs).head? := fun h => hc (Option.some.inj h)
      rw [withoutDigits?_plain hpoint, beq_eq_false_iff_ne.mpr hc]
      cases (exponent (c :: cs)).isEmpty <;> simp

/-! ## The language -/

/-- A word of the language of numbers. -/
def IsLiteral (s : List Char) : Prop := IsInteger s ∨ IsFloat s

/-- Digits are an integer, any other number is a float. -/
def kindOf (s : List Char) : TokenKind := if AreDigits s then .integer else .float

/-- No word of the language at the front of a text is longer. -/
structure IsLongest (s cs : List Char) : Prop where
  literal : IsLiteral s
  front : s <+: cs
  longest : ∀ v, IsLiteral v → v <+: cs → v.length ≤ s.length

variable {s cs : List Char}

theorem IsExponent.not_areDigits (h : IsExponent s) : ¬ AreDigits s := by
  intro hd
  cases h with
  | plain hm => exact absurd (hd _ List.mem_cons_self) (by simp [(not_digit_of_isMark hm).1])
  | minus hm => exact absurd (hd _ List.mem_cons_self) (by simp [(not_digit_of_isMark hm).1])

theorem IsFloat.not_areDigits (h : IsFloat s) : ¬ AreDigits s := by
  intro hd
  cases h with
  | point => exact absurd (hd '.' (List.mem_append_right _ List.mem_cons_self)) (by decide)
  | scaled _ he => exact he.not_areDigits fun c hc => hd c (List.mem_append_right _ hc)

theorem IsLiteral.isNumeral (h : IsLiteral s) : IsNumeral ⟨s, kindOf s⟩ := by
  rcases h with hi | hf
  · exact .inl ⟨if_pos hi.2, hi⟩
  · exact .inr ⟨if_neg hf.not_areDigits, hf⟩

theorem IsNumeral.isLiteral {w : Word} (h : IsNumeral w) : IsLiteral w.spelling :=
  h.imp (·.2) (·.2)

theorem IsNumeral.kind_eq {w : Word} (h : IsNumeral w) : w.kind = kindOf w.spelling :=
  congrArg Word.kind (h.eq_of_spelling h.isLiteral.isNumeral rfl)

/-- The number that is read is the longest word of the language. -/
theorem numeral?_eq_some_iff_isLongest {n : Word} :
    numeral? cs = some n ↔ IsLongest n.spelling cs ∧ n.kind = kindOf n.spelling := by
  rw [numeral?_eq_some_iff]
  constructor
  · rintro ⟨hn, hp, hlongest⟩
    refine ⟨⟨hn.isLiteral, hp, fun v hv hvp => ?_⟩, hn.kind_eq⟩
    exact (hlongest ⟨v, kindOf v⟩ hv.isNumeral hvp).length_le
  · rintro ⟨hn, hk⟩
    have hword : n = ⟨n.spelling, kindOf n.spelling⟩ := by rw [← hk]
    refine ⟨hword ▸ hn.literal.isNumeral, hn.front, fun v hv hvp => ?_⟩
    exact List.prefix_of_prefix_length_le hvp hn.front (hn.longest _ hv.isLiteral hvp)

theorem isSome_numeral?_iff : (numeral? cs).isSome = true ↔ ∃ v, IsLiteral v ∧ v <+: cs := by
  constructor
  · intro h
    obtain ⟨n, hn⟩ := Option.isSome_iff_exists.mp h
    obtain ⟨hlongest, _⟩ := numeral?_eq_some_iff_isLongest.mp hn
    exact ⟨_, hlongest.literal, hlongest.front⟩
  · rintro ⟨v, hv, rest, rfl⟩
    obtain ⟨n, hn, _⟩ := exists_numeral?_append hv.isNumeral rest
    rw [hn]
    rfl

end Numeral

open Numeral

/-! ## Reading -/

namespace Lexicon

variable {lx : Lexicon} {cs : List Char}

/-- No number begins with a break, and no break is a point. -/
theorem terminator?_of_isTried (h : isTried cs = true) : terminator? cs = none := by
  revert h
  fun_cases terminator? cs with
  | case1 => exact fun h => absurd h Bool.false_ne_true
  | case2 => exact fun h => absurd h Bool.false_ne_true
  | case3 => exact fun h => absurd h Bool.false_ne_true
  | case4 => exact fun _ => rfl

/-- Where a number is looked for, what the patterns make of the text is read, whatever words
the lexicon has. -/
theorem read_eq_byPatterns (h : isTried cs = true) : lx.read false cs = byPatterns cs := by
  have hterminator := terminator?_of_isTried h
  rw [isTried_eq, Bool.or_eq_true, beq_iff_eq] at h
  rw [byPatterns_eq]
  cases cs with
  | nil => rcases h with h | h <;> cases h
  | cons c cs =>
    rw [read, hterminator, Bool.false_and]
    cases hn : numeral? (c :: cs) with
    | some n => simp only [readPlain, hn, Bool.false_eq_true, ↓reduceIte, Option.elim_some]
    | none =>
      obtain rfl : c = '.' := by
        rw [hn] at h
        exact Option.some.inj (h.resolve_left Bool.false_ne_true)
      simp only [readPlain, hn, Bool.false_eq_true, ↓reduceIte, Option.elim_none]

end Lexicon

/-- **What a lexer reads in front of a number.** Where no label is awaited, the longest word
of the language that the rest of the text begins with is read, whatever words are registered;
it is an integer if it is made of digits, and a float otherwise. A point that begins no such
word is a stray character, and nothing but the point is taken. The scanner's patterns are
tried in exactly these two cases, and say the same. -/
theorem read_number (lx : Lexer) (hlabel : lx.awaitsLabel = false) :
    ((∃ v, IsLiteral v ∧ v <+: lx.front.rest) →
        ∃ s, IsLongest s lx.front.rest ∧
          lx.read = (.ok ⟨kindOf s, String.ofList s, lx.front.spanOf s⟩,
            { lx with cursor := lx.front.pass s, awaitsLabel := false })) ∧
      ((∀ v, IsLiteral v → ¬ v <+: lx.front.rest) → lx.front.rest.head? = some '.' →
        lx.read = (.error ⟨'.', lx.front.spanOf ['.']⟩,
          { lx with cursor := lx.front.pass ['.'], awaitsLabel := false })) ∧
      (isTried lx.front.rest = true ↔
        (∃ v, IsLiteral v ∧ v <+: lx.front.rest) ∨ lx.front.rest.head? = some '.') ∧
      (isTried lx.front.rest = true →
        lx.lexicon.read lx.awaitsLabel lx.front.rest = byPatterns lx.front.rest) := by
  have htried : isTried lx.front.rest = true ↔
      (∃ v, IsLiteral v ∧ v <+: lx.front.rest) ∨ lx.front.rest.head? = some '.' := by
    rw [isTried_eq, Bool.or_eq_true, isSome_numeral?_iff, beq_iff_eq]
  have hread (h : isTried lx.front.rest = true) :
      lx.lexicon.read lx.awaitsLabel lx.front.rest = byPatterns lx.front.rest := by
    rw [hlabel]
    exact Lexicon.read_eq_byPatterns h
  refine ⟨fun hsome => ?_, fun hnone hpoint => ?_, htried, hread⟩
  · obtain ⟨n, hn⟩ := Option.isSome_iff_exists.mp (isSome_numeral?_iff.mpr hsome)
    obtain ⟨hlongest, hkind⟩ := numeral?_eq_some_iff_isLongest.mp hn
    have hword : lx.lexicon.read lx.awaitsLabel lx.front.rest = .ok n := by
      rw [hread (htried.mpr (.inl hsome)), byPatterns_eq, hn]
      rfl
    have hplain : n.kind.closes = false ∧ lx.lexicon.announcesLabel n = false := by
      rw [Lexicon.announcesLabel]
      rcases isNumeral_of_numeral? hn with ⟨hk, _⟩ | ⟨hk, _⟩ <;> rw [hk] <;> exact ⟨rfl, rfl⟩
    refine ⟨n.spelling, hlongest, ?_⟩
    rw [Lexer.read_of_ok hword, Cursor.passWord_of_inner _ hplain.1, hplain.2, hkind]
  · have hn : numeral? lx.front.rest = none := by
      cases hn : numeral? lx.front.rest with
      | none => rfl
      | some n =>
        obtain ⟨v, hv, hp⟩ := isSome_numeral?_iff.mp (congrArg Option.isSome hn)
        exact absurd hp (hnone v hv)
    refine Lexer.read_of_error ?_
    rw [hread (htried.mpr (.inr hpoint)), byPatterns_eq, hn]
    rfl

/-- A grammar with the word `12.` and an operator that is spelled like an exponent. Behind a
tab the number goes on over both, up to the second digit of its exponent. Behind the point of
`.e5` there is no digit, so the point is stray. -/
theorem read_number_powers :
    let g : Grammar := (Grammar.calculator.registerFunction ⟨"12.", .exactly 1⟩).registerOperator
      (.usual "e" .infixOp .exponentiation)
    (Lexer.ofSource "\t12.e-345" g).read.1 = .ok ⟨.float, "12.e-34", ⟨1, 8, 1, 1⟩⟩ ∧
      (Lexer.ofSource ".e5" g).read.1 = .error ⟨'.', ⟨0, 1, 1, 0⟩⟩ := by
  intro g
  have hnumber : numeral? "12.e-345".toList = some ⟨"12.e-34".toList, .float⟩ := by decide
  have hnone : numeral? ".e5".toList = none := by decide
  constructor
  · have hsome : ∃ v, IsLiteral v ∧ v <+: "12.e-345".toList :=
      isSome_numeral?_iff.mp (congrArg Option.isSome hnumber)
    obtain ⟨s, hs, hread⟩ := (read_number (Lexer.ofSource "\t12.e-345" g) rfl).1 hsome
    have hsame := numeral?_eq_some_iff_isLongest (n := ⟨s, kindOf s⟩).mpr ⟨hs, rfl⟩
    have hword : s = "12.e-34".toList :=
      congrArg Word.spelling (Option.some.inj (hsame.symm.trans hnumber))
    subst hword
    rw [hread, String.ofList_toList]
    rfl
  · have hfree : ∀ v, IsLiteral v → ¬ v <+: ".e5".toList := fun v hv hp => by
      have hsome := isSome_numeral?_iff.mpr ⟨v, hv, hp⟩
      rw [hnone] at hsome
      cases hsome
    rw [(read_number (Lexer.ofSource ".e5" g) rfl).2.1 hfree rfl]
    rfl

end CalcSyntax
