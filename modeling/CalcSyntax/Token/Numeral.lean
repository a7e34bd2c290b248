import CalcSyntax.Grammar.Lexicon

/-!
# Numeral — the number at the front of a text

Numbers are read before any registered word, and as far as they reach. An
exponent is a mark, perhaps a minus, and one or two digits; it may end a
number with digits, and it may stand alone, which is the calculator's
short form of a power of ten. Digits alone are an integer, anything else
is a float; a point wants a digit on at least one side.

Everything here looks at the front of a list of characters and answers
with the part it takes, so the rest is always what remains behind it.
-/

set_option autoImplicit false

namespace CalcSyntax

namespace Numeral

/-- The marks that begin an exponent. -/
def isMark (c : Char) : Bool := c == 'e' || c == 'ᴇ'

/-- The digits at the front. -/
def digits (cs : List Char) : List Char := cs.takeWhile Char.isDigit

/-- The digits of an exponent at the front: two at most. -/
def exponentDigits (cs : List Char) : List Char := digits (cs.take 2)

/-- The exponent at the front, nothing unless it has a digit. -/
def exponent : List Char → List Char
  | m :: '-' :: cs =>
    if isMark m && !(exponentDigits cs).isEmpty then m :: '-' :: exponentDigits cs else []
  | m :: cs =>
    if isMark m && !(exponentDigits cs).isEmpty then m :: exponentDigits cs else []
  | [] => []

/-- The number that starts with these digits, before such a text. -/
def afterDigits (whole : List Char) : List Char → Word
  | '.' :: cs =>
    let fraction := digits cs
    ⟨whole ++ '.' :: fraction ++ exponent (cs.drop fraction.length), .float⟩
  | cs =>
    if (exponent cs).isEmpty then ⟨whole, .integer⟩ else ⟨whole ++ exponent cs, .float⟩

/-- The number without leading digits at the front of a text. -/
def withoutDigits? : List Char → Option Word
  | '.' :: cs =>
    let fraction := digits cs
    if fraction.isEmpty then none
    else some ⟨'.' :: fraction ++ exponent (cs.drop fraction.length), .float⟩
  | cs => if (exponent cs).isEmpty then none else some ⟨exponent cs, .float⟩

end Numeral

/-- The longest number at the front of a text. -/
def numeral? (cs : List Char) : Option Word :=
  let whole := Numeral.digits cs
  if whole.isEmpty then Numeral.withoutDigits? cs
  else some (Numeral.afterDigits whole (cs.drop whole.length))

namespace Numeral

/-- The digits at the front are the front. -/
theorem digits_isPrefixOf (cs : List Char) : digits cs <+: cs := List.takeWhile_prefix _

/-- An exponent is read from the front. -/
theorem exponent_isPrefixOf (cs : List Char) : exponent cs <+: cs := by
  have h (ds : List Char) : exponentDigits ds <+: ds :=
    (digits_isPrefixOf _).trans (List.take_prefix _ _)
  fun_cases exponent cs <;> simp_all [List.cons_prefix_cons]

/-- Reading on behind a part taken from the front still reads the front. -/
theorem append_isPrefixOf {front next cs : List Char} (hf : front <+: cs)
    (hn : next <+: cs.drop front.length) : front ++ next <+: cs := by
  obtain ⟨r, rfl⟩ := hf
  rw [List.drop_left] at hn
  exact List.prefix_append_right_inj front |>.mpr hn

/-- A number with leading digits is read from the front. -/
theorem afterDigits_isPrefixOf (whole cs : List Char) :
    (afterDigits whole cs).spelling <+: whole ++ cs := by
  fun_cases afterDigits whole cs with
  | case1 cs =>
    rw [List.append_assoc, List.prefix_append_right_inj, List.cons_append,
      List.cons_prefix_cons]
    exact ⟨rfl, append_isPrefixOf (digits_isPrefixOf cs) (exponent_isPrefixOf _)⟩
  | case2 => exact List.prefix_append _ _
  | case3 => exact (List.prefix_append_right_inj _).mpr (exponent_isPrefixOf _)

/-- A number without leading digits is read from the front, and is not empty. -/
theorem withoutDigits?_eq_some {cs : List Char} {w : Word} (h : withoutDigits? cs = some w) :
    w.spelling <+: cs ∧ w.spelling ≠ [] := by
  revert h
  fun_cases withoutDigits? cs with
  | case1 => simp
  | case2 cs fraction =>
    rintro ⟨⟩
    exact ⟨List.cons_prefix_cons.mpr
      ⟨rfl, append_isPrefixOf (digits_isPrefixOf cs) (exponent_isPrefixOf _)⟩, by simp⟩
  | case3 => simp
  | case4 cs _ he =>
    rintro ⟨⟩
    exact ⟨exponent_isPrefixOf cs, by simpa using he⟩

/-- A number is read from the front, and is not empty. -/
theorem numeral?_eq_some {cs : List Char} {w : Word} (h : numeral? cs = some w) :
    w.spelling <+: cs ∧ w.spelling ≠ [] := by
  revert h
  fun_cases numeral? cs with
  | case1 => exact withoutDigits?_eq_some
  | case2 whole hw =>
    rintro ⟨⟩
    obtain ⟨rest, hr⟩ := digits_isPrefixOf cs
    have hd : cs.drop whole.length = rest := by rw [← hr, List.drop_left]
    refine ⟨?_, ?_⟩
    · have := afterDigits_isPrefixOf whole rest
      rwa [hr, ← hd] at this
    · fun_cases afterDigits whole (cs.drop whole.length) <;> simp_all

end Numeral

end CalcSyntax
