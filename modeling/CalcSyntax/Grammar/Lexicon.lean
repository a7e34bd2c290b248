import CalcSyntax.Grammar.Basic
import CalcSyntax.Token.Basic

/-!
# Lexicon — every fixed spelling, longest first

The scanner knows a grammar only by its spellings. The lexicon lists each
of them once, longest first by UTF-8 length and by code points where the
lengths agree, with the kind of token it makes. Trying the words in this
order and taking the first that fits is therefore taking the longest:
`Disp` before the variable `D`, `<=` before `<`.

A spelling may stand in several tables. The first source that offers it
decides its kind: commands, then functions, operators, the named
variables, and punctuation last. Words are entered one by one into the
ordered list and a spelling that is already there stays as it is, so the
order of the sources is the priority.
-/

set_option autoImplicit false

namespace CalcSyntax

/-- How many bytes a text takes in UTF-8. -/
def byteLength : List Char → Nat
  | [] => 0
  | c :: cs => c.utf8Size + byteLength cs

/-- A spelling and the kind of token it makes. -/
structure Word where
  spelling : List Char
  kind : TokenKind
deriving DecidableEq

namespace Word

/-- The word a text spells. -/
def ofString (kind : TokenKind) (text : String) : Word := ⟨text.toList, kind⟩

/-- The order in which words are tried: longer ones first, and by code
points among words of one length. -/
def before (a b : Word) : Bool :=
  byteLength b.spelling < byteLength a.spelling
    || byteLength a.spelling == byteLength b.spelling && decide (a.spelling < b.spelling)

/-- Enters a word in its place, unless its spelling is taken. -/
def enter (w : Word) : List Word → List Word
  | [] => [w]
  | v :: vs =>
    if v.spelling = w.spelling then v :: vs
    else if w.before v then w :: v :: vs
    else v :: enter w vs

/-- Enters words in turn: the first of a spelling stays. -/
def enterAll (ws : List Word) : List Word := ws.foldl (fun vs w => w.enter vs) []

end Word

/-- The variables of more than one letter, or of none of the capitals. -/
def namedVariables : List String := ["Ans", "Theta", "θ"]

/-- The punctuation every grammar has. -/
def punctuation : List Word := [⟨['('], .leftParen⟩, ⟨[')'], .rightParen⟩, ⟨[','], .comma⟩]

/-- The spellings a scanner looks for. -/
structure Lexicon where
  /-- The words in the order in which they are tried. -/
  words : List Word
  /-- The keywords after which a label name is read. -/
  labelKeywords : List (List Char)

namespace Lexicon

/-- The first word that a text starts with. -/
def word? (lx : Lexicon) (cs : List Char) : Option Word :=
  lx.words.find? fun w => w.spelling.isPrefixOf cs

/-- Whether a word is a command that takes a label. -/
def announcesLabel (lx : Lexicon) (w : Word) : Bool :=
  w.kind == .command && lx.labelKeywords.contains w.spelling

end Lexicon

namespace Grammar

/-- Every spelling with the kind it would make, in order of priority. -/
def spellings (g : Grammar) : List Word :=
  g.commands.entries.map (fun d => .ofString .command d.keyword)
    ++ g.functions.entries.map (fun d => .ofString .function d.name)
    ++ g.operators.symbols.map (.ofString .operator)
    ++ namedVariables.map (.ofString .var)
    ++ punctuation

/-- The lexicon of a grammar. -/
def lexicon (g : Grammar) : Lexicon where
  words := Word.enterAll g.spellings
  labelKeywords :=
    (g.commands.entries.filter CommandEntry.takesLabel).map fun d => d.keyword.toList

end Grammar

end CalcSyntax
