import CalcSyntax.Diagnostic.Cause
import CalcSyntax.Token.Front

/-!
# Lexer — reading a text token by token

A lexer walks over a text and answers one item at a time: a token, or the
stray character that no token starts with. It reads on where the item
ended, so a caller may stop after any item and keep the lexer for later,
or go back to one it kept.

Two things beside the place carry over from item to item. `awaitsLabel` is
set by a command that takes a label and holds for the very next item.
`ended` is set once the end has been handed out by `next?`, which then
answers nothing more. After a stray character the lexer stands behind it;
`skipToTerminator` moves on to the end of the statement.

A grammar may register an empty spelling, and reading it takes nothing off
the text. It is not always in vain: an empty command that takes a label
makes the next item a label where it could not have been one. `progresses`
tells the readings that lead on from those that would come back the same,
and `ahead` is the amount that each of them makes smaller (`ahead_of_ok`,
`ahead_of_error`).
-/

set_option autoImplicit false

namespace CalcSyntax

/-- A place in a text, and what is left of the text there. -/
structure Cursor where
  rest : List Char
  offset : Nat
  line : Nat
  column : Nat
deriving DecidableEq

namespace Cursor

/-- The beginning of a text. -/
def ofText (text : List Char) : Cursor := ⟨text, 0, 1, 0⟩

/-- Moves past characters that stand at the front of the rest. -/
def pass (place : Cursor) (cs : List Char) : Cursor :=
  ⟨place.rest.drop cs.length, place.offset + byteLength cs, place.line, place.column + cs.length⟩

/-- Starts the next line where the cursor stands. -/
def breakLine (place : Cursor) : Cursor := { place with line := place.line + 1, column := 0 }

/-- Moves past a word. A terminator other than the colon ends the line. -/
def passWord (place : Cursor) (w : Word) : Cursor :=
  let behind := place.pass w.spelling
  if w.kind = .terminator ∧ w.spelling ≠ [':'] then behind.breakLine else behind

/-- The span of characters that stand at the front of the rest. -/
def spanOf (place : Cursor) (cs : List Char) : Span :=
  ⟨place.offset, place.offset + byteLength cs, place.line, place.column⟩

end Cursor

/-- What a lexer answers: a token, or a stray character. -/
abbrev Item := Except Stray Token

/-- A reader of tokens and the place it has reached. -/
structure Lexer where
  /-- The whole text, for starting over. -/
  text : List Char
  lexicon : Lexicon
  cursor : Cursor
  /-- The item before was a command that takes a label. -/
  awaitsLabel : Bool
  /-- The end has been handed out. -/
  ended : Bool

namespace Lexer

/-- A lexer at the beginning of a text. -/
def ofText (text : List Char) (lexicon : Lexicon) : Lexer :=
  ⟨text, lexicon, .ofText text, false, false⟩

/-- A lexer over a source with the spellings of a grammar. -/
def ofSource (source : String) (g : Grammar) : Lexer := .ofText source.toList g.lexicon

/-- Goes back to the beginning. -/
def restart (lx : Lexer) : Lexer := .ofText lx.text lx.lexicon

/-- Moves up to the next terminator, which is not taken. -/
def skipToTerminator (lx : Lexer) : Lexer :=
  { lx with cursor := lx.cursor.pass (untilTerminator lx.cursor.rest), awaitsLabel := false }

/-- Reads the next item. At the end of the text that is the end, again and
again. -/
def read (lx : Lexer) : Item × Lexer :=
  let start := lx.cursor.pass (leadingBlanks lx.cursor.rest)
  match lx.lexicon.read lx.awaitsLabel start.rest with
  | .ok w =>
    (.ok ⟨w.kind, String.ofList w.spelling, start.spanOf w.spelling⟩,
      { lx with cursor := start.passWord w, awaitsLabel := lx.lexicon.announcesLabel w })
  | .error c =>
    (.error ⟨c, start.spanOf [c]⟩,
      { lx with cursor := start.pass [c], awaitsLabel := false })

/-- Whether an item is the end of the text. -/
def isEnd : Item → Bool
  | .ok t => t.kind == .eof
  | .error _ => false

/-- Reads the next item, and nothing more once the end has been read. -/
def next? (lx : Lexer) : Option Item × Lexer :=
  if lx.ended then (none, lx)
  else
    let (item, behind) := lx.read
    (some item, { behind with ended := isEnd item })

/-- Passing characters leaves no more than there was. -/
theorem length_rest_pass (c : Cursor) (cs : List Char) :
    (c.pass cs).rest.length ≤ c.rest.length := by
  simp [Cursor.pass]

/-- Passing a word moves as far as passing its characters. -/
theorem rest_passWord (c : Cursor) (w : Word) :
    (c.passWord w).rest = (c.pass w.spelling).rest := by
  unfold Cursor.passWord
  split <;> rfl

/-- Skipping leaves no more than there was. -/
theorem length_rest_skipToTerminator (lx : Lexer) :
    lx.skipToTerminator.cursor.rest.length ≤ lx.cursor.rest.length := length_rest_pass _ _

/-- Reading an item leaves no more than there was, and less unless the item
is a token without a lexeme. -/
theorem read_shorter (lx : Lexer) :
    lx.read.2.cursor.rest.length < lx.cursor.rest.length ∨
      ∃ t, lx.read.1 = .ok t ∧ t.lexeme = "" ∧
        lx.read.2.cursor.rest.length ≤ lx.cursor.rest.length := by
  fun_cases read lx with
  | case1 start w hw =>
    have hs : start.rest.length ≤ lx.cursor.rest.length := length_rest_pass _ _
    have hp := (Lexicon.isPrefixOf_of_read hw).length_le
    by_cases he : w.spelling = []
    · right
      refine ⟨_, rfl, by simp [he], ?_⟩
      simp only [rest_passWord]
      exact Nat.le_trans (length_rest_pass _ _) hs
    · left
      have := List.length_pos_iff.mpr he
      simp only [rest_passWord, Cursor.pass, List.length_drop]
      omega
  | case2 start c hc =>
    left
    have hs : start.rest.length ≤ lx.cursor.rest.length := length_rest_pass _ _
    obtain ⟨rest, hr⟩ := Lexicon.head_of_read_error hc
    have : start.rest.length = rest.length + 1 := by rw [hr]; rfl
    simp only [Cursor.pass, List.length_drop, List.length_singleton]
    omega

/-- How far reading can still go: two steps to a character, the second of
which is spent once a label is awaited. -/
def ahead (lx : Lexer) : Nat :=
  2 * lx.cursor.rest.length + if lx.awaitsLabel then 0 else 1

/-- Whether reading on can meet anything else, after a token was read and the
lexer `behind` was left. A token with a lexeme leads on, and one without
leads on if it makes a label possible that was not awaited before. -/
def progresses (lx : Lexer) (t : Token) (behind : Lexer) : Bool :=
  t.lexeme != "" || behind.awaitsLabel && !lx.awaitsLabel

/-- Whatever is taken off the text outweighs the label that is awaited. -/
theorem ahead_lt_of_length_lt {lx behind : Lexer}
    (h : behind.cursor.rest.length < lx.cursor.rest.length) : behind.ahead < lx.ahead := by
  unfold ahead
  split <;> split <;> omega

/-- Skipping to a terminator behind a shorter rest leaves less to go. -/
theorem ahead_skipToTerminator {lx behind : Lexer}
    (h : behind.cursor.rest.length < lx.cursor.rest.length) :
    behind.skipToTerminator.ahead < lx.ahead :=
  ahead_lt_of_length_lt (Nat.lt_of_le_of_lt (length_rest_skipToTerminator behind) h)

/-- A stray character is taken off the text. -/
theorem read_error_shorter {lx behind : Lexer} {s : Stray} (h : lx.read = (.error s, behind)) :
    behind.cursor.rest.length < lx.cursor.rest.length := by
  rcases read_shorter lx with hl | ⟨t, ht, _, _⟩
  · rwa [h] at hl
  · rw [h] at ht; cases ht

/-- Behind a stray character there is less to go, whether or not the rest of
its statement is skipped. -/
theorem ahead_of_error {lx behind : Lexer} {s : Stray} (h : lx.read = (.error s, behind))
    (resync : Bool) :
    (if resync then behind.skipToTerminator else behind).ahead < lx.ahead := by
  cases resync
  · exact ahead_lt_of_length_lt (read_error_shorter h)
  · exact ahead_skipToTerminator (read_error_shorter h)

/-- Behind a token that leads on there is less to go. -/
theorem ahead_of_ok {lx behind : Lexer} {t : Token} (h : lx.read = (.ok t, behind))
    (hp : lx.progresses t behind = true) : behind.ahead < lx.ahead := by
  rcases read_shorter lx with hs | ⟨u, hu, he, hle⟩
  · rw [h] at hs
    exact ahead_lt_of_length_lt hs
  · rw [h] at hu hle
    cases hu
    have hle : behind.cursor.rest.length ≤ lx.cursor.rest.length := hle
    simp only [progresses, he, bne_self_eq_false, Bool.false_or, Bool.and_eq_true,
      Bool.not_eq_true'] at hp
    rw [ahead, ahead, hp.1, hp.2, if_pos rfl, if_neg Bool.false_ne_true]
    omega

end Lexer

end CalcSyntax
