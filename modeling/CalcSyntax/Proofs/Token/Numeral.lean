import CalcSyntax.Token.Numeral

/-!
# Numeral — the words that are numbers

`IsInteger`, `IsFloat` and `IsExponent` say which words are numbers,
apart from the reader that finds them at the front of a text.

## What is proved

- `numeral?_append`: what follows a number does not change it, as long as
  it begins with no character of a number (`EndsNumeral`). A number is
  therefore read off the text up to the next separator.
- `numeral?_eq_self`: a word of either form is read as itself.
- `isNumeral_of_numeral?`: whatever is read is a word of its form.
- `numeral?_eq_some_iff`: it is the longest such word at the front of the text.
-/

set_option autoImplicit false

namespace CalcSyntax

namespace Numeral

/-! ## The words -/

/-- A run of digits, perhaps empty. -/
def AreDigits (ds : List Char) : Prop := ∀ c ∈ ds, c.isDigit = true

/-- One digit or more. -/
def IsInteger (ds : List Char) : Prop := ds ≠ [] ∧ AreDigits ds

instance (ds : List Char) : Decidable (AreDigits ds) := List.decidableBAll _ ds

instance (ds : List Char) : Decidable (IsInteger ds) :=
  inferInstanceAs (Decidable (ds ≠ [] ∧ AreDigits ds))

/-- A mark, perhaps a minus, and one or two digits. -/
inductive IsExponent : List Char → Prop
  | plain {m : Char} {ds : List Char} :
      isMark m = true → IsInteger ds → ds.length ≤ 2 → IsExponent (m :: ds)
  | minus {m : Char} {ds : List Char} :
      isMark m = true → IsInteger ds → ds.length ≤ 2 → IsExponent (m :: '-' :: ds)

/-- A number with a point, an exponent, or both. -/
inductive IsFloat : List Char → Prop
  | point {whole fraction e : List Char} :
      AreDigits whole → AreDigits fraction → (whole ≠ [] ∨ fraction ≠ []) →
      (e = [] ∨ IsExponent e) → IsFloat (whole ++ '.' :: (fraction ++ e))
  | scaled {whole e : List Char} : AreDigits whole → IsExponent e → IsFloat (whole ++ e)

/-- A word of one of the two kinds of numbers. -/
def IsNumeral (w : Word) : Prop :=
  (w.kind = .integer ∧ IsInteger w.spelling) ∨ (w.kind = .float ∧ IsFloat w.spelling)

/-- The characters that may go on with a number. -/
def continues (c : Char) : Bool := c.isDigit || c == '.' || c == '-' || isMark c

/-- A text that does not go on with a number. -/
def EndsNumeral (r : List Char) : Prop := ∀ c ∈ r.head?, continues c = false

/-! ## What follows a number -/

variable {cs r : List Char}

theorem EndsNumeral.not_digit (h : EndsNumeral r) : ∀ c ∈ r.head?, c.isDigit = false := by
  intro c hc
  have := h c hc
  simp only [continues, Bool.or_eq_false_iff] at this
  exact this.1.1.1

/-- Digits end where no digit follows. -/
theorem takeWhile_append_stop {p : Char → Bool} (h : ∀ c ∈ r.head?, p c = false) :
    (cs ++ r).takeWhile p = cs.takeWhile p := by
  induction cs with
  | nil =>
    cases r with
    | nil => rfl
    | cons c r => simp only [List.nil_append, List.takeWhile_cons, h c rfl]; rfl
  | cons c cs ih => simp only [List.cons_append, List.takeWhile_cons, ih]

/-- The same of the front of a text, cut at some length. -/
theorem takeWhile_take_append_stop {p : Char → Bool} (h : ∀ c ∈ r.head?, p c = false) (n : Nat) :
    ((cs ++ r).take n).takeWhile p = (cs.take n).takeWhile p := by
  rw [List.take_append]
  refine takeWhile_append_stop fun c hc => h c ?_
  cases r with
  | nil => rw [List.take_nil] at hc; cases hc
  | cons d r =>
    cases hn : n - cs.length with
    | zero => rw [hn] at hc; cases hc
    | succ m => rwa [hn] at hc

theorem digits_append (h : EndsNumeral r) : digits (cs ++ r) = digits cs :=
  takeWhile_append_stop h.not_digit

theorem exponentDigits_append (h : EndsNumeral r) :
    exponentDigits (cs ++ r) = exponentDigits cs :=
  takeWhile_take_append_stop h.not_digit 2

/-- An exponent without a minus. -/
theorem exponent_plain {m : Char} (h : '-' ∉ cs.head?) :
    exponent (m :: cs) =
      if isMark m && !(exponentDigits cs).isEmpty then m :: exponentDigits cs else [] := by
  rw [exponent.eq_2]
  rintro x rfl
  exact h rfl

theorem exponent_of_not_mark {m : Char} (h : isMark m = false) : exponent (m :: cs) = [] := by
  by_cases hm : '-' ∈ cs.head?
  · obtain ⟨ds, rfl⟩ := List.head?_eq_some_iff.mp hm
    simp only [exponent, h, Bool.false_and, Bool.false_eq_true, ↓reduceIte]
  · rw [exponent_plain hm, h, Bool.false_and, if_neg Bool.false_ne_true]

/-- An exponent that is not in the text is not made by what follows. -/
theorem exponent_append (h : EndsNumeral r) : exponent (cs ++ r) = exponent cs := by
  have hr : ∀ c ∈ r.head?, isMark c = false ∧ c ≠ '-' := by
    intro c hc
    have := h c hc
    simp only [continues, Bool.or_eq_false_iff, beq_eq_false_iff_ne] at this
    exact ⟨this.2, this.1.2⟩
  cases cs with
  | nil =>
    cases r with
    | nil => rfl
    | cons c r => exact exponent_of_not_mark (hr c rfl).1
  | cons m cs =>
    by_cases hm : '-' ∈ cs.head?
    · obtain ⟨ds, rfl⟩ := List.head?_eq_some_iff.mp hm
      simp only [List.cons_append, exponent, exponentDigits_append h]
    · have hm' : '-' ∉ (cs ++ r).head? := by
        cases cs with
        | nil => exact fun hc => (hr '-' hc).2 rfl
        | cons c cs => exact hm
      rw [List.cons_append, exponent_plain hm', exponent_plain hm, exponentDigits_append h]

theorem drop_digits_append : (cs ++ r).drop (digits cs).length = cs.drop (digits cs).length ++ r :=
  List.drop_append_of_le_length (digits_isPrefixOf cs).length_le

theorem EndsNumeral.not_point (h : EndsNumeral r) : '.' ∉ r.head? :=
  fun hc => absurd (h '.' hc) (by decide)

/-- A number without a point. -/
theorem afterDigits_plain (whole : List Char) (h : '.' ∉ cs.head?) :
    afterDigits whole cs =
      if (exponent cs).isEmpty then ⟨whole, .integer⟩ else ⟨whole ++ exponent cs, .float⟩ := by
  rw [afterDigits.eq_2]
  rintro x rfl
  exact h rfl

theorem withoutDigits?_plain (h : '.' ∉ cs.head?) :
    withoutDigits? cs = if (exponent cs).isEmpty then none else some ⟨exponent cs, .float⟩ := by
  rw [withoutDigits?.eq_2]
  rintro x rfl
  exact h rfl

/-- A number begins with a digit, a point or the mark of an exponent. -/
theorem numeral?_cons_eq_none {c : Char} (hdigit : c.isDigit = false) (hpoint : c ≠ '.')
    (hmark : isMark c = false) (cs : List Char) : numeral? (c :: cs) = none := by
  have hpoint : '.' ∉ (c :: cs).head? := fun hc => hpoint (Option.some.inj hc)
  rw [numeral?, digits, List.takeWhile_cons, hdigit]
  simp only [Bool.false_eq_true, ↓reduceIte, List.isEmpty_nil, withoutDigits?_plain hpoint,
    exponent_of_not_mark hmark]

/-- A point that does not begin the text does not begin what follows either. -/
theorem EndsNumeral.append_not_point (h : EndsNumeral r) (hc : '.' ∉ cs.head?) :
    '.' ∉ (cs ++ r).head? := by
  cases cs with
  | nil => exact h.not_point
  | cons c cs => exact hc

theorem afterDigits_append (h : EndsNumeral r) (whole : List Char) :
    afterDigits whole (cs ++ r) = afterDigits whole cs := by
  by_cases hc : '.' ∈ cs.head?
  · obtain ⟨ds, rfl⟩ := List.head?_eq_some_iff.mp hc
    simp only [List.cons_append, afterDigits, digits_append h, drop_digits_append,
      exponent_append h]
  · rw [afterDigits_plain whole (h.append_not_point hc), afterDigits_plain whole hc,
      exponent_append h]

theorem withoutDigits?_append (h : EndsNumeral r) :
    withoutDigits? (cs ++ r) = withoutDigits? cs := by
  by_cases hc : '.' ∈ cs.head?
  · obtain ⟨ds, rfl⟩ := List.head?_eq_some_iff.mp hc
    simp only [List.cons_append, withoutDigits?, digits_append h, drop_digits_append,
      exponent_append h]
  · rw [withoutDigits?_plain (h.append_not_point hc), withoutDigits?_plain hc, exponent_append h]

/-! ## Reading a number back -/

theorem areDigits_digits (cs : List Char) : AreDigits (digits cs) :=
  List.all_eq_true.mp List.all_takeWhile

/-- Digits are read up to the first other character. -/
theorem digits_append_of_areDigits {ds : List Char} (hd : AreDigits ds)
    (hr : ∀ c ∈ r.head?, c.isDigit = false) : digits (ds ++ r) = ds := by
  have hn : r.takeWhile Char.isDigit = [] := @takeWhile_append_stop [] r Char.isDigit hr
  rw [digits, List.takeWhile_append_of_pos hd, hn, List.append_nil]

theorem digits_of_areDigits {ds : List Char} (hd : AreDigits ds) : digits ds = ds := by
  have := digits_append_of_areDigits (r := []) hd nofun
  rwa [List.append_nil] at this

theorem IsInteger.isEmpty_eq_false {ds : List Char} (h : IsInteger ds) : ds.isEmpty = false :=
  List.isEmpty_eq_false_iff.mpr h.1

theorem exponentDigits_of_isInteger {ds : List Char} (h : IsInteger ds) (hl : ds.length ≤ 2) :
    exponentDigits ds = ds := by
  unfold exponentDigits
  rw [List.take_of_length_le hl, digits_of_areDigits h.2]

theorem AreDigits.not_mem_head? {ds : List Char} {c : Char} (h : AreDigits ds)
    (hc : c.isDigit = false) : c ∉ ds.head? := fun hm => by
  rw [h c (List.mem_of_mem_head? hm)] at hc
  cases hc

/-- An exponent is read as itself. -/
theorem exponent_eq_self {e : List Char} (h : IsExponent e) : exponent e = e := by
  cases h with
  | plain hm hi hl =>
    rw [exponent_plain (hi.2.not_mem_head? (by decide)), exponentDigits_of_isInteger hi hl, hm,
      hi.isEmpty_eq_false]
    rfl
  | minus hm hi hl =>
    simp only [exponent, exponentDigits_of_isInteger hi hl, hm, hi.isEmpty_eq_false,
      Bool.not_false, Bool.and_self, ↓reduceIte]

theorem IsExponent.head_isMark {e : List Char} (h : IsExponent e) :
    ∀ c ∈ e.head?, isMark c = true := by
  cases h with
  | plain hm => exact fun c hc => (Option.some.inj hc) ▸ hm
  | minus hm => exact fun c hc => (Option.some.inj hc) ▸ hm

theorem IsExponent.isEmpty_eq_false {e : List Char} (h : IsExponent e) : e.isEmpty = false := by
  cases h <;> rfl

/-- A mark is neither a digit nor a point. -/
theorem not_digit_of_isMark {c : Char} (h : isMark c = true) : c.isDigit = false ∧ c ≠ '.' := by
  simp only [isMark, Bool.or_eq_true, beq_iff_eq] at h
  rcases h with rfl | rfl <;> decide

/-- Exponents, and the empty text, do not begin with a digit. -/
theorem head_not_digit {e : List Char} (h : e = [] ∨ IsExponent e) :
    ∀ c ∈ e.head?, c.isDigit = false := by
  rcases h with rfl | h
  · nofun
  · exact fun c hc => (not_digit_of_isMark (h.head_isMark c hc)).1

theorem exponent_eq_of_optional {e : List Char} (h : e = [] ∨ IsExponent e) : exponent e = e := by
  rcases h with rfl | h
  · rfl
  · exact exponent_eq_self h

/-- What is read as an exponent is one. -/
theorem isExponent_exponent (cs : List Char) : exponent cs = [] ∨ IsExponent (exponent cs) := by
  have digitsOk (ds : List Char) (h : ¬ (exponentDigits ds).isEmpty = true) :
      IsInteger (exponentDigits ds) ∧ (exponentDigits ds).length ≤ 2 := by
    refine ⟨⟨fun hn => h (by rw [hn]; rfl), areDigits_digits _⟩, ?_⟩
    exact Nat.le_trans (digits_isPrefixOf _).length_le (List.length_take_le 2 ds)
  fun_cases exponent cs with
  | case1 m cs hok =>
    simp only [Bool.and_eq_true, Bool.not_eq_true'] at hok
    have := digitsOk cs (by rw [hok.2]; decide)
    exact .inr (.minus hok.1 this.1 this.2)
  | case2 => exact .inl rfl
  | case3 m cs _ hok =>
    simp only [Bool.and_eq_true, Bool.not_eq_true'] at hok
    have := digitsOk cs (by rw [hok.2]; decide)
    exact .inr (.plain hok.1 this.1 this.2)
  | case4 => exact .inl rfl
  | case5 => exact .inl rfl

/-! ## The characters of a number -/

theorem continues_of_isDigit {c : Char} (h : c.isDigit = true) : continues c = true := by
  rw [continues, h]
  rfl

theorem IsExponent.continues_of_mem {e : List Char} (h : IsExponent e) :
    ∀ c ∈ e, continues c = true := by
  have mark {m : Char} (hm : isMark m = true) : continues m = true := by
    rw [continues, hm, Bool.or_true]
  cases h with
  | plain hm hi _ =>
    exact List.forall_mem_cons.mpr ⟨mark hm, fun c hc => continues_of_isDigit (hi.2 c hc)⟩
  | minus hm hi _ =>
    refine List.forall_mem_cons.mpr ⟨mark hm, List.forall_mem_cons.mpr ⟨by decide, ?_⟩⟩
    exact fun c hc => continues_of_isDigit (hi.2 c hc)

/-- All characters of a number are of those that go on with numbers. -/
theorem continues_of_mem {w : Word} (h : IsNumeral w) : ∀ c ∈ w.spelling, continues c = true := by
  have digits {ds : List Char} (hd : AreDigits ds) : ∀ c ∈ ds, continues c = true :=
    fun c hc => continues_of_isDigit (hd c hc)
  obtain ⟨cs, kind⟩ := w
  rcases h with ⟨_, hi⟩ | ⟨_, hf⟩
  · exact digits hi.2
  · cases hf with
    | point hw hfr _ he =>
      refine List.forall_mem_append.mpr ⟨digits hw, List.forall_mem_cons.mpr ⟨by decide, ?_⟩⟩
      refine List.forall_mem_append.mpr ⟨digits hfr, ?_⟩
      rcases he with rfl | he
      · nofun
      · exact he.continues_of_mem
    | scaled hw he => exact List.forall_mem_append.mpr ⟨digits hw, he.continues_of_mem⟩

end Numeral

open Numeral

/-- **What follows a number does not change it**, and makes none where there
was none. -/
theorem numeral?_append {cs r : List Char} (h : EndsNumeral r) :
    numeral? (cs ++ r) = numeral? cs := by
  unfold numeral?
  simp only [digits_append h, drop_digits_append, withoutDigits?_append h, afterDigits_append h]

theorem numeral?_of_digits {whole r : List Char} (hd : AreDigits whole)
    (hr : ∀ c ∈ r.head?, c.isDigit = false) :
    numeral? (whole ++ r) =
      if whole.isEmpty then withoutDigits? r else some (afterDigits whole r) := by
  unfold numeral?
  simp only [digits_append_of_areDigits hd hr, List.drop_left]
  by_cases hw : whole = []
  · subst hw; rfl
  · rw [if_neg (by simpa using hw), if_neg (by simpa using hw)]

/-- A word that is a number is read as itself. -/
theorem numeral?_eq_self {w : Word} (h : IsNumeral w) : numeral? w.spelling = some w := by
  obtain ⟨cs, kind⟩ := w
  rcases h with ⟨rfl, hi⟩ | ⟨rfl, hf⟩
  · have := numeral?_of_digits (r := []) hi.2 nofun
    rw [List.append_nil, hi.isEmpty_eq_false] at this
    exact this
  · simp only at hf ⊢
    cases hf with
    | @point whole fraction e hw hfr hne he =>
      have hdot : ∀ c ∈ ('.' :: (fraction ++ e)).head?, c.isDigit = false := fun c hc =>
        (Option.some.inj hc) ▸ by decide
      have hfraction := digits_append_of_areDigits hfr (head_not_digit he)
      rw [numeral?_of_digits hw hdot]
      by_cases hn : whole = []
      · subst hn
        have hf : fraction.isEmpty = false :=
          List.isEmpty_eq_false_iff.mpr (hne.resolve_left (fun h => h rfl))
        simp only [List.isEmpty_nil, ↓reduceIte, withoutDigits?, hfraction, hf, List.drop_left,
          exponent_eq_of_optional he, Bool.false_eq_true, List.nil_append, List.cons_append]
      · rw [if_neg (by simpa using hn)]
        simp only [afterDigits, hfraction, List.drop_left, exponent_eq_of_optional he,
          List.cons_append, List.append_assoc]
    | @scaled whole e hw he =>
      have hp : '.' ∉ e.head? := fun hc => (not_digit_of_isMark (he.head_isMark '.' hc)).2 rfl
      rw [numeral?_of_digits hw (head_not_digit (.inr he))]
      by_cases hn : whole = []
      · subst hn
        rw [List.isEmpty_nil, if_pos rfl, withoutDigits?_plain hp, exponent_eq_self he,
          he.isEmpty_eq_false]
        rfl
      · rw [if_neg (by simpa using hn), afterDigits_plain whole hp, exponent_eq_self he,
          he.isEmpty_eq_false]
        rfl

theorem isNumeral_of_withoutDigits? {cs : List Char} {w : Word} (h : withoutDigits? cs = some w) :
    IsNumeral w := by
  by_cases hc : '.' ∈ cs.head?
  · obtain ⟨ds, rfl⟩ := List.head?_eq_some_iff.mp hc
    rw [withoutDigits?] at h
    split at h
    · cases h
    · next hf =>
      cases h
      have hne : digits ds ≠ [] := fun hn => hf (by rw [hn]; rfl)
      exact .inr ⟨rfl, @IsFloat.point [] (digits ds) _ nofun (areDigits_digits ds) (.inr hne)
        (isExponent_exponent _)⟩
  · rw [withoutDigits?_plain hc] at h
    split at h
    · cases h
    · next he =>
      cases h
      have hx := (isExponent_exponent cs).resolve_left fun hn => he (by rw [hn]; rfl)
      exact .inr ⟨rfl, @IsFloat.scaled [] _ nofun hx⟩

theorem isNumeral_afterDigits {whole : List Char} (hw : IsInteger whole) (cs : List Char) :
    IsNumeral (afterDigits whole cs) := by
  by_cases hc : '.' ∈ cs.head?
  · obtain ⟨ds, rfl⟩ := List.head?_eq_some_iff.mp hc
    have := IsFloat.point hw.2 (areDigits_digits ds) (.inl hw.1)
      (isExponent_exponent (ds.drop (digits ds).length))
    exact .inr ⟨rfl, by simpa only [afterDigits, List.append_assoc, List.cons_append] using this⟩
  · rw [afterDigits_plain whole hc]
    split
    · exact .inl ⟨rfl, hw⟩
    · next he =>
      have hx := (isExponent_exponent cs).resolve_left fun hn => he (by rw [hn]; rfl)
      exact .inr ⟨rfl, .scaled hw.2 hx⟩

/-- Whatever is read as a number is a word of its form. -/
theorem isNumeral_of_numeral? {cs : List Char} {w : Word} (h : numeral? cs = some w) :
    IsNumeral w := by
  unfold numeral? at h
  simp only at h
  split at h
  · exact isNumeral_of_withoutDigits? h
  · next hw =>
    cases h
    exact isNumeral_afterDigits ⟨fun hn => hw (by rw [hn]; rfl), areDigits_digits cs⟩ _

/-! ## The longest number -/

namespace Numeral

theorem exponentDigits_append_of_isInteger {ds : List Char} (h : IsInteger ds)
    (hl : ds.length ≤ 2) (r : List Char) : ds <+: exponentDigits (ds ++ r) := by
  rw [exponentDigits, List.take_append, List.take_of_length_le hl, digits,
    List.takeWhile_append_of_pos h.2]
  exact List.prefix_append _ _

/-- An exponent at the front of a text is read, or a longer one. -/
theorem exponent_append_of_isExponent {e : List Char} (h : IsExponent e) (r : List Char) :
    e <+: exponent (e ++ r) := by
  have hread {ds : List Char} (hi : IsInteger ds) (hl : ds.length ≤ 2) :
      ds <+: exponentDigits (ds ++ r) ∧ (exponentDigits (ds ++ r)).isEmpty = false := by
    have hp := exponentDigits_append_of_isInteger hi hl r
    exact ⟨hp, List.isEmpty_eq_false_iff.mpr fun hn => hi.1 (List.prefix_nil.mp (hn ▸ hp))⟩
  cases h with
  | @plain m ds hm hi hl =>
    obtain ⟨hp, hne⟩ := hread hi hl
    have hminus : '-' ∉ (ds ++ r).head? := by
      cases ds with
      | nil => exact absurd rfl hi.1
      | cons d ds => exact hi.2.not_mem_head? (by decide)
    rw [List.cons_append, exponent_plain hminus, hm, hne]
    exact List.cons_prefix_cons.mpr ⟨rfl, hp⟩
  | @minus m ds hm hi hl =>
    obtain ⟨hp, hne⟩ := hread hi hl
    simp only [List.cons_append, exponent, hm, hne, Bool.not_false, Bool.and_self, ↓reduceIte]
    exact List.cons_prefix_cons.mpr ⟨rfl, List.cons_prefix_cons.mpr ⟨rfl, hp⟩⟩

theorem whole_isPrefixOf_afterDigits (whole cs : List Char) :
    whole <+: (afterDigits whole cs).spelling := by
  fun_cases afterDigits whole cs with
  | case1 => exact (List.prefix_append _ _).trans (List.prefix_append _ _)
  | case2 => exact List.prefix_rfl
  | case3 => exact List.prefix_append _ _

/-- Behind its point, a number goes on at least as far as the fraction and the exponent that
stand there. -/
theorem fraction_append {fraction e : List Char} (hf : AreDigits fraction)
    (he : e = [] ∨ IsExponent e) (r : List Char) :
    fraction ++ e <+: digits (fraction ++ e ++ r) ++
      exponent ((fraction ++ e ++ r).drop (digits (fraction ++ e ++ r)).length) := by
  rcases he with rfl | he
  · rw [List.append_nil, digits, List.takeWhile_append_of_pos hf, List.append_assoc]
    exact List.prefix_append _ _
  · have hstop : ∀ c ∈ (e ++ r).head?, c.isDigit = false := by
      cases e with
      | nil => cases he
      | cons m e =>
        have hm := head_not_digit (.inr he)
        exact hm
    rw [List.append_assoc, digits_append_of_areDigits hf hstop, List.drop_left]
    exact (List.prefix_append_right_inj _).mpr (exponent_append_of_isExponent he r)

end Numeral

/-- In front of whatever text, a number is read, or one that goes on with it. -/
theorem exists_numeral?_append {v : Word} (h : IsNumeral v) (r : List Char) :
    ∃ n, numeral? (v.spelling ++ r) = some n ∧ v.spelling <+: n.spelling := by
  obtain ⟨cs, kind⟩ := v
  rcases h with ⟨_, hi⟩ | ⟨_, hf⟩
  · have hdigits : digits (cs ++ r) = cs ++ digits r := by
      rw [digits, List.takeWhile_append_of_pos hi.2]
      rfl
    have hne : (cs ++ digits r).isEmpty = false :=
      List.isEmpty_eq_false_iff.mpr (List.append_ne_nil_of_left_ne_nil hi.1 _)
    simp only [numeral?, hdigits, hne, Bool.false_eq_true, ↓reduceIte]
    exact ⟨_, rfl, (List.prefix_append _ _).trans (whole_isPrefixOf_afterDigits _ _)⟩
  · simp only at hf ⊢
    cases hf with
    | @point whole fraction e hw hfr hne he =>
      have hdot : ∀ c ∈ ('.' :: (fraction ++ e ++ r)).head?, c.isDigit = false := fun c hc =>
        (Option.some.inj hc) ▸ by decide
      have hlong := fraction_append hfr he r
      rw [List.append_assoc, List.cons_append, numeral?_of_digits hw hdot]
      by_cases hn : whole = []
      · subst hn
        have hdigits : (digits (fraction ++ e ++ r)).isEmpty = false := by
          rw [digits, List.append_assoc, List.takeWhile_append_of_pos hfr]
          exact List.isEmpty_eq_false_iff.mpr
            (List.append_ne_nil_of_left_ne_nil (hne.resolve_left fun h => h rfl) _)
        rw [if_pos List.isEmpty_nil, withoutDigits?]
        simp only [hdigits, Bool.false_eq_true, ↓reduceIte]
        exact ⟨_, rfl, List.cons_prefix_cons.mpr ⟨rfl, hlong⟩⟩
      · rw [if_neg (by simpa using hn)]
        refine ⟨_, rfl, ?_⟩
        rw [afterDigits, List.append_assoc, List.prefix_append_right_inj]
        exact List.cons_prefix_cons.mpr ⟨rfl, hlong⟩
    | @scaled whole e hw he =>
      have hlong := exponent_append_of_isExponent he r
      have hstart : ∀ c ∈ (e ++ r).head?, isMark c = true := by
        cases e with
        | nil => cases he
        | cons m e =>
          have hm := he.head_isMark
          exact hm
      have hpoint : '.' ∉ (e ++ r).head? := fun hc => (not_digit_of_isMark (hstart '.' hc)).2 rfl
      have hexponent : (exponent (e ++ r)).isEmpty = false := by
        refine List.isEmpty_eq_false_iff.mpr fun hn => ?_
        rw [hn, List.prefix_nil] at hlong
        rw [hlong] at he
        cases he
      rw [List.append_assoc,
        numeral?_of_digits hw fun c hc => (not_digit_of_isMark (hstart c hc)).1]
      by_cases hn : whole = []
      · subst hn
        rw [if_pos List.isEmpty_nil, withoutDigits?_plain hpoint, hexponent]
        exact ⟨_, rfl, hlong⟩
      · rw [if_neg (by simpa using hn), afterDigits_plain whole hpoint, hexponent]
        exact ⟨_, rfl, (List.prefix_append_right_inj whole).mpr hlong⟩

/-- A word is a number of one kind only. -/
theorem Numeral.IsNumeral.eq_of_spelling {v w : Word} (hv : IsNumeral v) (hw : IsNumeral w)
    (he : v.spelling = w.spelling) : v = w := by
  have hsame := numeral?_eq_self hv
  rw [he, numeral?_eq_self hw] at hsame
  exact (Option.some.inj hsame).symm

/-- **The number that is read is the longest at the front of the text.** -/
theorem numeral?_eq_some_iff {cs : List Char} {n : Word} :
    numeral? cs = some n ↔ IsNumeral n ∧ n.spelling <+: cs ∧
      ∀ v, IsNumeral v → v.spelling <+: cs → v.spelling <+: n.spelling := by
  have hlongest {n v : Word} (hn : numeral? cs = some n) (hv : IsNumeral v)
      (hp : v.spelling <+: cs) : v.spelling <+: n.spelling := by
    obtain ⟨r, rfl⟩ := hp
    obtain ⟨m, hm, hvm⟩ := exists_numeral?_append hv r
    cases hn.symm.trans hm
    exact hvm
  constructor
  · intro hn
    exact ⟨isNumeral_of_numeral? hn, (numeral?_eq_some hn).1, fun v => hlongest hn⟩
  · rintro ⟨hnumeral, hp, hmax⟩
    obtain ⟨r, rfl⟩ := hp
    obtain ⟨m, hm, hnm⟩ := exists_numeral?_append hnumeral r
    have hmn := hmax m (isNumeral_of_numeral? hm) (numeral?_eq_some hm).1
    have he : n.spelling = m.spelling := hnm.eq_of_length_le hmn.length_le
    rw [hm, hnumeral.eq_of_spelling (isNumeral_of_numeral? hm) he]

/-- No number is read where none stands. -/
theorem numeral?_eq_none_iff {cs : List Char} :
    numeral? cs = none ↔ ∀ v, IsNumeral v → ¬ v.spelling <+: cs := by
  constructor
  · rintro hnone v hv ⟨r, rfl⟩
    obtain ⟨m, hm, _⟩ := exists_numeral?_append hv r
    rw [hnone] at hm
    cases hm
  · intro hnone
    cases hn : numeral? cs with
    | none => rfl
    | some n => exact absurd (numeral?_eq_some hn).1 (hnone n (isNumeral_of_numeral? hn))

end CalcSyntax
