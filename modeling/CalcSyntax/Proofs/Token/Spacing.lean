import CalcSyntax.Proofs.Token.Growth
import CalcSyntax.Proofs.Token.Reads

/-!
# Spacing — words that are put behind each other

A text may be made of words, with a blank in front of some and nothing between the
others. Whether the words are read again depends on each of them and on what stands
behind it (`reads_text`, `each_of_reads`).

Blanks make no difference to what a text says otherwise. Without its blanks it is the
lexemes of the words it was made of, and those of whatever words are read off it
(`dense_text`, `Reads.dense_eq`).
-/

set_option autoImplicit false

namespace CalcSyntax

/-- A word of a text, and whether a blank stands in front of it. -/
structure Spaced where
  apart : Bool
  token : Token

/-- The kinds of token that make up expressions: all but ends, commands and labels. -/
def TokenKind.isPlain : TokenKind → Bool
  | .command | .label | .terminator | .eof => false
  | _ => true

theorem TokenKind.of_isPlain {k : TokenKind} (h : k.isPlain = true) :
    k.closes = false ∧ k ≠ .command ∧ k ≠ .label := by
  revert h
  cases k <;> decide

/-- A token that an expression is written with. It stands nowhere. -/
structure Token.IsPlain (t : Token) : Prop where
  bare : t.relocate nowhere = t
  kind : t.kind.isPlain = true

namespace Spaced

/-- The blank in front of a word that stands apart. -/
def gap (apart : Bool) : List Char := if apart then [' '] else []

theorem eq_of_mem_gap {apart : Bool} {c : Char} (h : c ∈ gap apart) : c = ' ' := by
  cases apart with
  | false => cases h
  | true => exact List.mem_singleton.mp h

/-- The text of words one after the other. -/
def text : List Spaced → List Char
  | [] => []
  | w :: ws => gap w.apart ++ (w.token.lexeme.toList ++ text ws)

@[simp] theorem text_append (ws vs : List Spaced) : text (ws ++ vs) = text ws ++ text vs := by
  induction ws with
  | nil => rfl
  | cons w ws ih => simp only [List.cons_append, text, ih, List.append_assoc]

/-- Something holds of each word and what stands behind it. -/
def Each (P : Token → List Char → Prop) : List Spaced → Prop
  | [] => True
  | w :: ws => P w.token (text ws) ∧ Each P ws

theorem Each.congr {P Q : Token → List Char → Prop} {ws : List Spaced}
    (hpq : ∀ w ∈ ws, ∀ behind, P w.token behind ↔ Q w.token behind) : Each P ws ↔ Each Q ws := by
  induction ws with
  | nil => exact Iff.rfl
  | cons w ws ih =>
    have hmore := ih fun v hv => hpq v (List.mem_cons_of_mem _ hv)
    exact and_congr (hpq w List.mem_cons_self _) hmore

theorem Each.exists {P : Token → List Char → Prop} {ws : List Spaced} (h : Each P ws) :
    ∀ t ∈ ws.map token, ∃ behind, P t behind := by
  induction ws with
  | nil => nofun
  | cons w ws ih => exact List.forall_mem_cons.mpr ⟨⟨_, h.1⟩, ih h.2⟩

end Spaced

open Spaced

/-! ## Reading the words -/

/-- In front of a word there is at most the blank that keeps it apart. -/
theorem drop_gap {t : Token} (ht : t.IsClear) (apart : Bool) (behind : List Char) :
    (gap apart ++ (t.lexeme.toList ++ behind)).drop
      (leadingBlanks (gap apart ++ (t.lexeme.toList ++ behind))).length =
        t.lexeme.toList ++ behind := by
  obtain ⟨c, cs, hc, hblank, hn, _⟩ := ht.exists_cons
  have hgap : ∀ d ∈ gap apart, isBlank d = true := fun d hd => by rw [eq_of_mem_gap hd]; rfl
  rw [hc, List.cons_append, leadingBlanks_split hgap hblank hn, List.drop_left]

/-- Only a command announces a label. -/
theorem Lexicon.announcesLabel_of_isPlain (lx : Lexicon) {w : Word}
    (h : w.kind.isPlain = true) : lx.announcesLabel w = false := by
  rw [announcesLabel, beq_eq_false_iff_ne.mpr (TokenKind.of_isPlain h).2.1, Bool.false_and]

variable {g : Grammar} {ws : List Spaced} {a b : Bool} {cs rest : List Char} {ts : List Token}

/-- The first word that is read, and what is read behind it. -/
theorem Reads.cons_inv {lx : Lexicon} {t : Token} (h : Reads lx a cs (t :: ts) b rest) :
    ∃ behind, cs.drop (leadingBlanks cs).length = t.lexeme.toList ++ behind ∧
      lx.read a (t.lexeme.toList ++ behind) = .ok ⟨t.lexeme.toList, t.kind⟩ ∧
      Reads lx (lx.announcesLabel ⟨t.lexeme.toList, t.kind⟩) behind ts b rest := by
  cases h with
  | word front read _ _ more => exact ⟨_, front, read, more⟩

/-- **If the words of a text are read off it, each is read where it stands.** -/
theorem each_of_reads (hws : ∀ w ∈ ws, w.token.IsPlain ∧ w.token.IsClear)
    (h : Reads g.lexicon false (text ws) (ws.map Spaced.token) b rest) :
    Each g.ReadsWord ws := by
  induction ws with
  | nil => trivial
  | cons w ws ih =>
    obtain ⟨⟨hplain, hclear⟩, hws⟩ := List.forall_mem_cons.mp hws
    obtain ⟨behind, hfront, hread, hmore⟩ := h.cons_inv
    rw [text, drop_gap hclear, List.append_cancel_left_eq] at hfront
    subst hfront
    rw [g.lexicon.announcesLabel_of_isPlain hplain.kind] at hmore
    exact ⟨hread, ih hws hmore⟩

/-- **If each word is read where it stands, all of them are read off the text.** -/
theorem reads_text (hws : ∀ w ∈ ws, w.token.IsPlain ∧ w.token.IsClear) (h : Each g.ReadsWord ws) :
    Reads g.lexicon false (text ws) (ws.map Spaced.token) false [] := by
  induction ws with
  | nil => exact .done
  | cons w ws ih =>
    obtain ⟨⟨hplain, hclear⟩, hws⟩ := List.forall_mem_cons.mp hws
    have hlabel : g.lexicon.announcesLabel ⟨w.token.lexeme.toList, w.token.kind⟩ = false :=
      g.lexicon.announcesLabel_of_isPlain hplain.kind
    have hinner := (TokenKind.of_isPlain hplain.kind).1
    rw [List.map_cons, ← hplain.bare]
    refine .word (drop_gap hclear w.apart (text ws)) h.1 hinner hclear.nonempty ?_
    rw [hlabel]
    exact ih hws h.2

/-! ## The characters of the text -/

/-- No statement ends within the text. -/
theorem clear_text (hws : ∀ w ∈ ws, w.token.IsClear) :
    ∀ c ∈ text ws, c ≠ '\n' ∧ c ≠ ':' := by
  induction ws with
  | nil => nofun
  | cons w ws ih =>
    obtain ⟨hw, hws⟩ := List.forall_mem_cons.mp hws
    have hgap : ∀ c ∈ gap w.apart, c ≠ '\n' ∧ c ≠ ':' := fun c hc => by
      rw [eq_of_mem_gap hc]
      decide
    refine List.forall_mem_append.mpr ⟨hgap, List.forall_mem_append.mpr ⟨?_, ih hws⟩⟩
    intro c hc
    have hbreak := (hw.clear c hc).2
    constructor <;> rintro rfl <;> exact absurd hbreak (by decide)

/-- A text without its blanks. -/
def dense (cs : List Char) : List Char := cs.filter fun c => !isBlank c

theorem dense_append (cs ds : List Char) : dense (cs ++ ds) = dense cs ++ dense ds :=
  List.filter_append ..

theorem dense_of_blank (h : ∀ c ∈ cs, isBlank c = true) : dense cs = [] :=
  List.filter_eq_nil_iff.mpr fun c hc => by simp only [h c hc]; decide

theorem dense_lexeme {t : Token} (h : t.IsClear) : dense t.lexeme.toList = t.lexeme.toList :=
  List.filter_eq_self.mpr fun c hc => by rw [(h.clear c hc).1]; rfl

/-- The characters of the words. -/
def lexemes (ts : List Token) : List Char := ts.flatMap fun t => t.lexeme.toList

theorem lexemes_append (ts us : List Token) : lexemes (ts ++ us) = lexemes ts ++ lexemes us :=
  List.flatMap_append ..

/-- Without its blanks, a text is the words it was made of. -/
theorem dense_text (hws : ∀ w ∈ ws, w.token.IsClear) :
    dense (text ws) = lexemes (ws.map Spaced.token) := by
  induction ws with
  | nil => rfl
  | cons w ws ih =>
    obtain ⟨hw, hws⟩ := List.forall_mem_cons.mp hws
    have hgap : dense (gap w.apart) = [] := dense_of_blank fun c hc => by
      rw [eq_of_mem_gap hc]
      rfl
    rw [text, dense_append, dense_append, hgap, dense_lexeme hw, ih hws]
    rfl

/-- Without its blanks, a text is the words that are read off it and what is left. -/
theorem Reads.dense_eq {lx : Lexicon} (h : Reads lx a cs ts b rest) (hts : ∀ t ∈ ts, t.IsClear) :
    dense cs = lexemes ts ++ dense rest := by
  induction h with
  | done => rfl
  | @word _ _ kind lexeme cs behind rest ts front _ _ _ _ ih =>
    obtain ⟨ht, hts⟩ := List.forall_mem_cons.mp hts
    have hcs := leadingBlanks_append_drop cs
    rw [front] at hcs
    have hblanks : dense (leadingBlanks cs) = [] :=
      dense_of_blank fun c hc => isBlank_of_mem_leadingBlanks hc
    have hlexeme : dense lexeme.toList = lexeme.toList := dense_lexeme ht
    rw [← hcs, dense_append, dense_append, hblanks, hlexeme, ih hts, List.nil_append,
      ← List.append_assoc]
    rfl

end CalcSyntax
