import CalcSyntax.Token.Numeral

/-!
# Front — what stands at the front of a text

Between two tokens there may be blanks, and a statement ends at a line
break or a colon. `Lexicon.read` says which token a text without leading
blanks starts with. The rules are tried in one fixed order:

1. the end of the text, then a terminator;
2. a label name, if the token before was a command that takes one;
3. a number, whatever words are registered;
4. the longest registered spelling;
5. a single capital letter, which is a variable.

A text that none of them reads starts with a stray character. The main
statements are that what is read is the front of the text
(`isPrefixOf_of_read`) and that a stray character is its first one
(`head_of_read_error`).
-/

set_option autoImplicit false

namespace CalcSyntax

/-- The characters that may separate tokens. A carriage return is one of
them unless a line feed follows. -/
def isBlank (c : Char) : Bool := c == ' ' || c == '\t' || c == '\x0c' || c == '\r'

/-- The blanks at the front of a text. -/
def leadingBlanks : List Char → List Char
  | '\r' :: '\n' :: _ => []
  | c :: cs => if isBlank c then c :: leadingBlanks cs else []
  | [] => []

/-- The terminator at the front of a text. -/
def terminator? : List Char → Option (List Char)
  | '\n' :: _ => some ['\n']
  | ':' :: _ => some [':']
  | '\r' :: '\n' :: _ => some ['\r', '\n']
  | _ => none

/-- The part of a text before its first terminator. -/
def untilTerminator : List Char → List Char
  | [] => []
  | c :: cs => if (terminator? (c :: cs)).isSome then [] else c :: untilTerminator cs

/-- The characters of a label name: capitals, digits and theta. -/
def isLabelChar (c : Char) : Bool := c.isUpper || c.isDigit || c == 'θ'

/-- The label name at the front of a text: two characters at most. -/
def labelName (cs : List Char) : List Char := (cs.take 2).takeWhile isLabelChar

namespace Lexicon

/-- The number, registered word or variable at the front of a text, or the
character that is none of them. -/
def readPlain (lx : Lexicon) (c : Char) (cs : List Char) : Except Char Word :=
  match numeral? (c :: cs) with
  | some w => .ok w
  | none =>
    if c = '.' then .error c
    else
      match lx.word? (c :: cs) with
      | some w => .ok w
      | none => if c.isUpper then .ok ⟨[c], .var⟩ else .error c

/-- The word at the front of a text without leading blanks, or the stray
character there. -/
def read (lx : Lexicon) (awaitsLabel : Bool) : List Char → Except Char Word
  | [] => .ok ⟨[], .eof⟩
  | c :: cs =>
    match terminator? (c :: cs) with
    | some t => .ok ⟨t, .terminator⟩
    | none =>
      if awaitsLabel && isLabelChar c then .ok ⟨labelName (c :: cs), .label⟩
      else lx.readPlain c cs

end Lexicon

/-- Blanks are taken from the front. -/
theorem leadingBlanks_isPrefixOf (cs : List Char) : leadingBlanks cs <+: cs := by
  fun_induction leadingBlanks cs <;> simp_all [List.cons_prefix_cons]

/-- What stands before a terminator is the front. -/
theorem untilTerminator_isPrefixOf (cs : List Char) : untilTerminator cs <+: cs := by
  fun_induction untilTerminator cs <;> simp_all [List.cons_prefix_cons]

/-- A terminator is taken from the front. -/
theorem isPrefixOf_of_terminator? {cs t : List Char} (h : terminator? cs = some t) :
    t <+: cs ∧ t ≠ [] := by
  revert h
  fun_cases terminator? cs <;> rintro ⟨⟩ <;> simp [List.cons_prefix_cons]

namespace Lexicon

/-- What is read before blanks is the front of the text. -/
theorem isPrefixOf_of_readPlain {lx : Lexicon} {c : Char} {cs : List Char} {w : Word}
    (h : lx.readPlain c cs = .ok w) : w.spelling <+: c :: cs := by
  revert h
  fun_cases readPlain lx c cs with
  | case1 w' hn => rintro ⟨⟩; exact (Numeral.numeral?_eq_some hn).1
  | case2 => rintro ⟨⟩
  | case3 _ _ w' hw =>
    rintro ⟨⟩
    unfold word? at hw
    exact List.isPrefixOf_iff_prefix.mp (by simpa using List.find?_some hw)
  | case4 => rintro ⟨⟩; simp [List.cons_prefix_cons]
  | case5 => rintro ⟨⟩

/-- What is read is the front of the text. -/
theorem isPrefixOf_of_read {lx : Lexicon} {awaitsLabel : Bool} {cs : List Char} {w : Word}
    (h : lx.read awaitsLabel cs = .ok w) : w.spelling <+: cs := by
  revert h
  fun_cases read lx awaitsLabel cs with
  | case1 => rintro ⟨⟩; exact List.prefix_rfl
  | case2 c cs t ht => rintro ⟨⟩; exact (isPrefixOf_of_terminator? ht).1
  | case3 c cs =>
    rintro ⟨⟩
    exact (List.takeWhile_prefix _).trans (List.take_prefix _ _)
  | case4 => exact isPrefixOf_of_readPlain

/-- A stray character is the first one. -/
theorem head_of_read_error {lx : Lexicon} {awaitsLabel : Bool} {cs : List Char} {c : Char}
    (h : lx.read awaitsLabel cs = .error c) : ∃ rest, cs = c :: rest := by
  revert h
  fun_cases read lx awaitsLabel cs with
  | case1 => rintro ⟨⟩
  | case2 => rintro ⟨⟩
  | case3 => rintro ⟨⟩
  | case4 d cs =>
    fun_cases readPlain lx d cs <;> rintro ⟨⟩ <;> exact ⟨_, rfl⟩

end Lexicon

end CalcSyntax
