import CalcSyntax.Proofs.Grammar.Lexicon
import CalcSyntax.Proofs.Segment.Spelled

/-!
# Listed — a token's kind names a table that has its lexeme

The kind of a word is settled when the lexicon is made, and the rules of a statement
look the word up again, in the table that its kind names. A spelling may stand in
several tables, and only the first of them gives it its kind. So it is that table
which is asked, and it has the word.

## What is proved

- `Lexicon.isListed_of_read` — one word, for every grammar.
- `Lexer.isListed_of_read` — the next token, wherever a lexer stands.
- `listed_of_mem_segments` — the tokens of a statement.
-/

set_option autoImplicit false

namespace CalcSyntax

variable {g : Grammar}

/-- The table that the kind of a token names has its lexeme. An operator may have any
fixity there. -/
def Token.IsListed (g : Grammar) (t : Token) : Prop :=
  match t.kind with
  | .command => ∃ d, g.command? t.lexeme = some d
  | .function => ∃ d, g.function? t.lexeme = some d
  | .operator => ∃ fixity d, g.operators.operator? t.lexeme fixity = some d
  | _ => True

/-- The table that gives a spelling its kind is the one that the kind names. -/
theorem Grammar.isListed_of_kindOf? {s : String} {kind : TokenKind} (h : g.kindOf? s = some kind)
    (p : Span) : (⟨kind, s, p⟩ : Token).IsListed g := by
  unfold kindOf? at h
  split at h
  · next hcommand =>
    cases h
    exact Option.isSome_iff_exists.mp hcommand
  split at h
  · next hfunction =>
    cases h
    exact Option.isSome_iff_exists.mp hfunction
  split at h
  · next hoperator =>
    cases h
    obtain ⟨fixity, _, hfixity⟩ := List.any_eq_true.mp hoperator
    exact ⟨fixity, Option.isSome_iff_exists.mp hfixity⟩
  split at h
  · cases h
    trivial
  · -- punctuation stands in no table
    obtain ⟨w, hw, rfl⟩ := Option.map_eq_some_iff.mp h
    have key : ∀ w ∈ punctuation, w.kind = .leftParen ∨ w.kind = .rightParen ∨ w.kind = .comma := by
      decide
    rcases key w (List.mem_of_find?_eq_some hw) with hk | hk | hk <;> rw [hk] <;> trivial

/-- **What is read is listed** in the table of its kind. -/
theorem Lexicon.isListed_of_read {awaits : Bool} {cs : List Char} {w : Word}
    (h : g.lexicon.read awaits cs = .ok w) (p : Span) :
    (⟨w.kind, String.ofList w.spelling, p⟩ : Token).IsListed g := by
  cases finds_of_read h with
  | eof | terminator _ | label _ | capital _ => trivial
  | numeral hn =>
    rcases isNumeral_of_numeral? hn with ⟨hk, _⟩ | ⟨hk, _⟩ <;> rw [hk] <;> trivial
  | registered hw => exact Grammar.isListed_of_kindOf? (Grammar.mem_words_iff.mp hw) p

/-- A token is listed, wherever it was read. -/
theorem Item.WasRead.isListed {i : Item} (h : i.WasRead g) {t : Token} (ht : i = .ok t) :
    t.IsListed g := by
  obtain ⟨_, _, hread⟩ := h t ht
  have hlisted := Lexicon.isListed_of_read hread t.span
  rwa [String.ofList_toList] at hlisted

/-- The next token is listed, whatever was asked of the lexer before. -/
theorem Lexer.isListed_of_read {lx : Lexer} (hl : lx.lexicon = g.lexicon) {t : Token}
    (h : lx.read.1 = .ok t) : t.IsListed g :=
  (lx.readsItem_read.wasRead hl).isListed h

/-- The tokens of a statement are listed. -/
theorem listed_of_mem_segments {source : String} {s : Segment} (h : s ∈ segments source g) :
    ∀ t ∈ s.tokens, t.IsListed g := by
  intro t ht
  have hread : Item.WasRead g (.ok t) := by
    rintro _ ⟨⟩
    exact (Lexer.ofSource source g).exists_read_of_mem_items rfl (mem_scan_of_mem_segments h ht)
  exact hread.isListed rfl

end CalcSyntax
