import CalcSyntax.Proofs.Token.Label
import CalcSyntax.Proofs.Token.Mark
import CalcSyntax.Proofs.Token.Reads

/-!
# Widening — white space between the tokens of a text

Spaces, tabs and form feeds may be put in front of the tokens of a text, between them and
behind the last one. A lexer reads the same tokens again, at other places.

What a lexer reads at the front of a text is the longest of something: of the numbers, of the
registered words, of the names of a label. What was put in behind a token makes nothing
longer, since none of these holds white space, and it makes nothing shorter, since it stands
behind the token. In front of a token, it joins the blanks. Only a line break of two
characters could be cut in two, but it is one token.

## What is proved

- `Lexicon.read_of_fronts` — one word, at the front of two texts.
- `Lexer.Widens.read` — one reading, in two texts.
- `tokenize_widened` — all tokens of a text.
-/

set_option autoImplicit false

namespace CalcSyntax

/-! ## Spacing -/

/-- Spaces, tabs and form feeds. -/
def isSpacing (c : Char) : Bool := c == ' ' || c == '\t' || c == '\x0c'

/-- No character is spacing. -/
def Unspaced (cs : List Char) : Prop := ∀ c ∈ cs, isSpacing c = false

instance (cs : List Char) : Decidable (Unspaced cs) := List.decidableBAll _ cs

/-- No registered spelling is empty or holds spacing. -/
def Grammar.Spaceable (g : Grammar) : Prop := ∀ s ∈ g.registered, s ≠ "" ∧ Unspaced s.toList

instance (g : Grammar) : Decidable g.Spaceable :=
  inferInstanceAs (Decidable (∀ s ∈ g.registered, s ≠ "" ∧ Unspaced s.toList))

theorem isBlank_of_isSpacing {c : Char} (h : isSpacing c = true) : isBlank c = true := by
  rw [isBlank, Bool.or_eq_true]
  exact .inl h

/-- Characters of a class that holds no spacing. -/
theorem isSpacing_eq_false {p : Char → Bool} (hp : [' ', '\t', '\x0c'].all (fun d => !p d) = true)
    {c : Char} (h : p c = true) : isSpacing c = false := by
  refine Bool.eq_false_iff.mpr fun hc => ?_
  simp only [isSpacing, Bool.or_eq_true, beq_iff_eq] at hc
  rcases hc with (rfl | rfl) | rfl <;> simp [h] at hp

namespace Grammar

variable {g : Grammar}

theorem Spaceable.noEmptyWord (hg : g.Spaceable) : g.NoEmptyWord := fun s hs => (hg s hs).1

/-- No word that the scanner looks for holds spacing. -/
theorem Spaceable.unspaced_of_mem_words (hg : g.Spaceable) :
    ∀ w ∈ g.lexicon.words, Unspaced w.spelling :=
  forall_mem_words (P := fun w => Unspaced w.spelling) (fun s hs _ _ => (hg s hs).2) (by decide)

end Grammar

theorem Numeral.IsNumeral.unspaced {w : Word} (h : IsNumeral w) : Unspaced w.spelling :=
  fun c hc => isSpacing_eq_false (by decide) (continues_of_mem h c hc)

/-! ## One word at the front of two texts -/

namespace Lexicon

variable {g : Grammar} {cs ds : List Char} {w : Word}

/-- Behind the terminators, labels go before the rest. -/
theorem read_of_not_terminator (lx : Lexicon) (awaits : Bool) {c : Char}
    (h : terminator? (c :: cs) = none) : lx.read awaits (c :: cs) =
      if awaits && isLabelChar c then .ok ⟨labelName (c :: cs), .label⟩ else lx.readPlain c cs := by
  rw [read, h]

/-- Whatever stands at the front of the second text without spacing stands at the front of
the first. -/
def Fronts (cs ds : List Char) : Prop := ∀ v, Unspaced v → v <+: ds → v <+: cs

theorem Fronts.terminator? (h : Fronts cs ds) (hnone : CalcSyntax.terminator? cs = none) :
    CalcSyntax.terminator? ds = none := by
  cases ht : CalcSyntax.terminator? ds with
  | none => rfl
  | some t =>
    have hmem := mem_terminators_of_terminator? ht
    have hunspaced : ∀ t ∈ terminators, Unspaced t := by decide
    obtain ⟨rest, rfl⟩ := h t (hunspaced t hmem) (isPrefixOf_of_terminator? ht).1
    rw [terminator?_append hmem] at hnone
    cases hnone

theorem Fronts.labelName {c : Char} (h : Fronts (c :: cs) (c :: ds)) (hc : isLabelChar c = true)
    (hfront : labelName (c :: cs) <+: c :: ds) : labelName (c :: ds) = labelName (c :: cs) := by
  rw [labelName_cons hc] at hfront
  rw [labelName_cons hc, labelName_cons hc]
  refine congrArg (fun o : Option Char => c :: o.toList) ?_
  cases hd : ds.head?.filter isLabelChar with
  | some d =>
    -- the longer name stands at the front of the first text
    obtain ⟨hhead, hlabel⟩ := Option.filter_eq_some_iff.mp hd
    obtain ⟨ds, rfl⟩ := List.head?_eq_some_iff.mp hhead
    have hunspaced : Unspaced [c, d] := List.forall_mem_cons.mpr
      ⟨isSpacing_eq_false (by decide) hc,
        List.forall_mem_singleton.mpr (isSpacing_eq_false (by decide) hlabel)⟩
    obtain ⟨rest, hrest⟩ := h [c, d] hunspaced (List.prefix_append [c, d] ds)
    obtain rfl : d :: rest = cs := (List.cons.inj hrest).2
    exact (Option.filter_some_pos hlabel).symm
  | none =>
    cases he : cs.head?.filter isLabelChar with
    | none => rfl
    | some e =>
      obtain ⟨-, hlabel⟩ := Option.filter_eq_some_iff.mp he
      rw [he] at hfront
      obtain ⟨rest, hrest⟩ := hfront
      obtain rfl : e :: rest = ds := (List.cons.inj hrest).2
      cases hd.symm.trans (Option.filter_some_pos hlabel)

theorem Fronts.numeral? (h : Fronts cs ds) (hnone : CalcSyntax.numeral? cs = none) :
    CalcSyntax.numeral? ds = none := by
  cases hn : CalcSyntax.numeral? ds with
  | none => rfl
  | some n =>
    obtain ⟨hnumeral, hfront, _⟩ := numeral?_eq_some_iff.mp hn
    obtain ⟨rest, rfl⟩ := h n.spelling hnumeral.unspaced hfront
    obtain ⟨m, hm, _⟩ := exists_numeral?_append hnumeral rest
    cases hnone.symm.trans hm

theorem Fronts.word? (hg : g.Spaceable) (h : Fronts cs ds) (hnone : g.lexicon.word? cs = none) :
    g.lexicon.word? ds = none := by
  refine List.find?_eq_none.mpr fun v hv hfront => ?_
  have hcs := h v.spelling (hg.unspaced_of_mem_words v hv) (List.isPrefixOf_iff_prefix.mp hfront)
  exact List.find?_eq_none.mp hnone v hv (List.isPrefixOf_iff_prefix.mpr hcs)

theorem Fronts.readPlain (hg : g.Spaceable) {c : Char} (h : Fronts (c :: cs) (c :: ds))
    (hread : g.lexicon.readPlain c cs = .ok w) (hfront : w.spelling <+: c :: ds) :
    g.lexicon.readPlain c ds = .ok w := by
  rcases readPlain_eq_ok_iff.mp hread with hn | ⟨hnone, hpoint, hw | ⟨hw, hupper, rfl⟩⟩
  · obtain ⟨hnumeral, -, hlongest⟩ := numeral?_eq_some_iff.mp hn
    refine readPlain_eq_ok_iff.mpr (.inl (numeral?_eq_some_iff.mpr ⟨hnumeral, hfront, ?_⟩))
    exact fun v hv hvp => hlongest v hv (h _ hv.unspaced hvp)
  · obtain ⟨hmem, -, hlongest⟩ := (word?_eq_some_iff g.ordered_words).mp hw
    refine readPlain_eq_ok_iff.mpr (.inr ⟨h.numeral? hnone, hpoint, .inl ?_⟩)
    refine (word?_eq_some_iff g.ordered_words).mpr ⟨hmem, hfront, ?_⟩
    exact fun v hv hvp => hlongest v hv (h _ (hg.unspaced_of_mem_words v hv) hvp)
  · exact readPlain_eq_ok_iff.mpr
      (.inr ⟨h.numeral? hnone, hpoint, .inr ⟨h.word? hg hw, hupper, rfl⟩⟩)

/-- **One word.** -/
theorem read_of_fronts (hg : g.Spaceable) {awaits : Bool} (h : Fronts cs ds)
    (hread : g.lexicon.read awaits cs = .ok w) (hne : w.spelling ≠ [])
    (hfront : w.spelling <+: ds) : g.lexicon.read awaits ds = .ok w := by
  cases ht : CalcSyntax.terminator? cs with
  | some t =>
    rw [read_of_terminator? ht] at hread
    cases hread
    obtain ⟨rest, rfl⟩ := hfront
    exact read_of_terminator? (terminator?_append (mem_terminators_of_terminator? ht) rest)
  | none =>
    -- the texts begin with the same character, the first of the word
    obtain ⟨c, s, hs⟩ := List.exists_cons_of_ne_nil hne
    obtain ⟨rest, rfl⟩ := isPrefixOf_of_read hread
    obtain ⟨rest', rfl⟩ := hfront
    have hnone := h.terminator? ht
    have hword : w.spelling <+: c :: (s ++ rest') := hs ▸ List.prefix_append _ _
    rw [hs, List.cons_append] at hread ht h hnone ⊢
    rw [List.cons_append] at h
    rw [read_of_not_terminator _ _ ht] at hread
    rw [read_of_not_terminator _ _ hnone]
    by_cases hlabel : (awaits && isLabelChar c) = true
    · rw [if_pos hlabel] at hread ⊢
      cases hread
      rw [h.labelName (Bool.and_eq_true_iff.mp hlabel).2 hword]
    · rw [if_neg hlabel] at hread ⊢
      exact h.readPlain hg hread hword

end Lexicon

/-! ## Texts with spacing put in -/

/-- From an offset on, the second text is the first with spacing put in where no token is cut:
in front of it or behind it. -/
inductive Widened (tokens : List Token) : Nat → List Char → List Char → Prop where
  | nil {offset : Nat} : Widened tokens offset [] []
  | keep {offset : Nat} {c : Char} {cs ds : List Char}
    (rest : Widened tokens (offset + c.utf8Size) cs ds) :
    Widened tokens offset (c :: cs) (c :: ds)
  | insert {offset : Nat} {c : Char} {cs ds : List Char} (spacing : isSpacing c = true)
    (apart : ∀ t ∈ tokens, t.span.stop ≤ offset ∨ offset ≤ t.span.start)
    (rest : Widened tokens offset cs ds) : Widened tokens offset cs (c :: ds)

namespace Widened

variable {tokens : List Token} {offset : Nat} {cs ds : List Char}

theorem fronts (h : Widened tokens offset cs ds) : Lexicon.Fronts cs ds := by
  induction h with
  | nil => exact fun v _ hv => hv
  | keep _ ih =>
    rintro (_ | ⟨d, v⟩) hv hfront
    · exact List.nil_prefix
    · obtain ⟨rfl, hrest⟩ := List.cons_prefix_cons.mp hfront
      exact List.cons_prefix_cons.mpr ⟨rfl, ih v (List.forall_mem_cons.mp hv).2 hrest⟩
  | insert spacing _ _ ih =>
    rintro (_ | ⟨d, v⟩) hv hfront
    · exact List.nil_prefix
    · obtain ⟨rfl, _⟩ := List.cons_prefix_cons.mp hfront
      cases spacing.symm.trans (List.forall_mem_cons.mp hv).1

theorem refl (tokens : List Token) (offset : Nat) (cs : List Char) :
    Widened tokens offset cs cs := by
  induction cs generalizing offset with
  | nil => exact .nil
  | cons c cs ih => exact .keep (ih _)

/-- A stretch of the text is kept. -/
theorem keeps (kept : List Char) (h : Widened tokens (offset + byteLength kept) cs ds) :
    Widened tokens offset (kept ++ cs) (kept ++ ds) := by
  induction kept generalizing offset with
  | nil => exact h
  | cons c kept ih =>
    rw [byteLength, ← Nat.add_assoc] at h
    exact .keep (ih h)

/-- A run of spacing is put in, where it cuts no token. -/
theorem inserts (run : List Char) (hrun : run.all isSpacing = true)
    (apart : ∀ t ∈ tokens, t.span.stop ≤ offset ∨ offset ≤ t.span.start)
    (h : Widened tokens offset cs ds) : Widened tokens offset cs (run ++ ds) := by
  induction run with
  | nil => exact h
  | cons c run ih =>
    obtain ⟨hc, hrun⟩ := Bool.and_eq_true_iff.mp (List.all_cons.symm.trans hrun)
    exact .insert hc apart (ih hrun)

/-- What is put in between two parts of the first text is counted to the first of them. -/
theorem split {as bs : List Char} (h : Widened tokens offset (as ++ bs) ds) :
    ∃ as' bs', ds = as' ++ bs' ∧ Widened tokens offset as as' ∧
      Widened tokens (offset + byteLength as) bs bs' ∧ bs'.head? = bs.head? := by
  generalize hcs : as ++ bs = cs at h
  induction h generalizing as with
  | nil =>
    obtain ⟨rfl, rfl⟩ := List.append_eq_nil_iff.mp hcs
    exact ⟨[], [], rfl, .nil, .nil, rfl⟩
  | @keep offset c cs ds rest ih =>
    cases as with
    | nil =>
      obtain rfl : bs = c :: cs := hcs
      exact ⟨[], c :: ds, rfl, .nil, .keep rest, rfl⟩
    | cons a as =>
      obtain ⟨rfl, htail⟩ := List.cons.inj hcs
      obtain ⟨as', bs', rfl, has, hbs, hhead⟩ := ih htail
      rw [Nat.add_assoc] at hbs
      exact ⟨a :: as', bs', rfl, .keep has, hbs, hhead⟩
  | @insert offset c cs ds spacing apart rest ih =>
    obtain ⟨as', bs', rfl, has, hbs, hhead⟩ := ih hcs
    exact ⟨c :: as', bs', rfl, .insert spacing apart has, hbs, hhead⟩

/-- Among blanks, only blanks are put in, and none of them is a carriage return. -/
theorem blank (h : Widened tokens offset cs ds) (hcs : ∀ c ∈ cs, isBlank c = true) :
    (∀ c ∈ ds, isBlank c = true) ∧ (ds.getLast? = some '\r' → cs.getLast? = some '\r') := by
  induction h with
  | nil => exact ⟨nofun, id⟩
  | @keep offset c cs ds rest ih =>
    obtain ⟨hc, hcs⟩ := List.forall_mem_cons.mp hcs
    obtain ⟨hds, hlast⟩ := ih hcs
    refine ⟨List.forall_mem_cons.mpr ⟨hc, hds⟩, fun h => ?_⟩
    rw [List.getLast?_cons] at h ⊢
    cases hd : ds.getLast? with
    | some d =>
      rw [hd] at h hlast
      rw [hlast h]
      rfl
    | none =>
      rw [hd] at h
      obtain rfl := List.getLast?_eq_none_iff.mp hd
      cases rest
      exact h
  | @insert offset c cs ds spacing _ _ ih =>
    obtain ⟨hds, hlast⟩ := ih hcs
    refine ⟨List.forall_mem_cons.mpr ⟨isBlank_of_isSpacing spacing, hds⟩, fun h => ?_⟩
    rw [List.getLast?_cons] at h
    cases hd : ds.getLast? with
    | some d =>
      rw [hd] at h hlast
      exact hlast h
    | none =>
      rw [hd] at h
      rw [show c = '\r' from Option.some.inj h] at spacing
      cases spacing

/-- Behind the first character of a token, nothing is put into it. -/
theorem inside {t : Token} (ht : t ∈ tokens) {word behind : List Char}
    (hstart : t.span.start < offset) (hstop : t.span.stop = offset + byteLength word)
    (h : Widened tokens offset (word ++ behind) ds) :
    ∃ behind', ds = word ++ behind' ∧ Widened tokens t.span.stop behind behind' := by
  induction word generalizing offset ds with
  | nil => exact ⟨ds, rfl, hstop ▸ h⟩
  | cons c word ih =>
    have hpos := c.utf8Size_pos
    rw [byteLength] at hstop
    cases h with
    | keep rest =>
      obtain ⟨behind', rfl, hbehind⟩ := ih (by omega) (by omega) rest
      exact ⟨behind', rfl, hbehind⟩
    | insert _ apart _ => have := apart t ht; omega

/-- **Nothing is put into a token.** -/
theorem token {t : Token} (ht : t ∈ tokens) {word behind : List Char} (hne : word ≠ [])
    (hstart : t.span.start = offset) (hstop : t.span.stop = offset + byteLength word)
    (hhead : ∀ c ∈ ds.head?, isSpacing c = false)
    (h : Widened tokens offset (word ++ behind) ds) :
    ∃ behind', ds = word ++ behind' ∧ Widened tokens t.span.stop behind behind' := by
  obtain ⟨c, word, rfl⟩ := List.exists_cons_of_ne_nil hne
  have hpos := c.utf8Size_pos
  rw [byteLength] at hstop
  cases h with
  | keep rest =>
    obtain ⟨behind', rfl, hbehind⟩ := rest.inside ht (by omega) (by omega)
    exact ⟨behind', rfl, hbehind⟩
  | insert spacing _ _ => cases spacing.symm.trans (hhead _ rfl)

end Widened

/-! ## Two lexers -/

/-- The kind of a token and its lexeme, without its place. -/
def Token.word (t : Token) : TokenKind × String := (t.kind, t.lexeme)

/-- Behind the blanks, a text comes to its end, or there is a line break of two characters or
a character that is no blank. -/
theorem front_cases (cs : List Char) :
    cs.drop (leadingBlanks cs).length = [] ∨
      (∃ rest, cs.drop (leadingBlanks cs).length = '\r' :: '\n' :: rest) ∨
      ∃ c rest, cs.drop (leadingBlanks cs).length = c :: rest ∧ isBlank c = false := by
  fun_induction leadingBlanks cs with
  | case1 rest => exact .inr (.inl ⟨rest, rfl⟩)
  | case2 c cs _ _ ih => exact ih
  | case3 c cs _ hc => exact .inr (.inr ⟨c, cs, rfl, Bool.eq_false_iff.mpr hc⟩)
  | case4 => exact .inl rfl

theorem Item.exists_of_tokens?_cons {t : Token} {items : List Item} {ts : List Token}
    (h : Item.tokens? (.ok t :: items) = .ok ts) :
    ∃ us, Item.tokens? items = .ok us ∧ t :: us = ts := by
  rw [Item.tokens?] at h
  cases hitems : Item.tokens? items with
  | ok us =>
    rw [hitems] at h
    exact ⟨us, rfl, Except.ok.inj h⟩
  | error c =>
    rw [hitems] at h
    cases h

namespace Lexer

variable {g : Grammar} {tokens : List Token} {lx lx' behind : Lexer} {t : Token}

/-- The second lexer reads the text of the first with spacing put in. -/
structure Widens (g : Grammar) (tokens : List Token) (lx lx' : Lexer) : Prop where
  words : lx.lexicon = g.lexicon
  words' : lx'.lexicon = g.lexicon
  awaits : lx'.awaitsLabel = lx.awaitsLabel
  rest : Widened tokens lx.cursor.offset lx.cursor.rest lx'.cursor.rest

/-- The word that the first text goes on with is in front of no blanks in the second. -/
theorem leadingBlanks_of_word {lexicon : Lexicon} {awaits : Bool} {cs ds : List Char} {w : Word}
    (hread : lexicon.read awaits (cs.drop (leadingBlanks cs).length) = .ok w)
    (hne : w.spelling ≠ []) (hfront : w.spelling <+: ds) :
    leadingBlanks ds = [] ∧ ∀ c ∈ ds.head?, isSpacing c = false := by
  obtain ⟨back, rfl⟩ := hfront
  have hword := Lexicon.isPrefixOf_of_read hread
  rcases front_cases cs with hnil | ⟨rest, hreturn⟩ | ⟨c, rest, hcons, hblank⟩
  · rw [hnil] at hword
    exact absurd (List.prefix_nil.mp hword) hne
  · rw [hreturn, Lexicon.read_of_terminator? rfl] at hread
    cases hread
    exact ⟨rfl, fun c hc => Option.some.inj hc ▸ rfl⟩
  · obtain ⟨d, s, hs⟩ := List.exists_cons_of_ne_nil hne
    rw [hcons, hs] at hword
    obtain ⟨rfl, -⟩ := List.cons_prefix_cons.mp hword
    rw [hs]
    refine ⟨leadingBlanks_of_not_blank hblank _, fun e he => Bool.eq_false_iff.mpr fun h => ?_⟩
    obtain rfl := Option.some.inj he
    cases (isBlank_of_isSpacing h).symm.trans hblank

/-- What is put into blanks is blank, and leaves the line break behind them whole. -/
theorem Widens.front (h : lx.Widens g tokens lx') :
    ∃ ds, Widened tokens lx.front.offset lx.front.rest ds ∧ ds.head? = lx.front.rest.head? ∧
      (leadingBlanks ds = [] → lx'.front.rest = ds) := by
  have hrest := h.rest
  rw [← lx.rest_front] at hrest
  obtain ⟨gap, ds, hsplit, hgap, hds, hhead⟩ := hrest.split
  refine ⟨ds, hds, hhead, fun hnil => ?_⟩
  obtain ⟨hblank, hlast⟩ := hgap.blank fun _ => isBlank_of_mem_leadingBlanks
  have hkept : Apart ([] ++ leadingBlanks lx.cursor.rest) lx.front.rest :=
    Apart.append nofun (keepsReturns_leadingBlanks lx.cursor.rest)
  have hapart : gap.getLast? = some '\r' → ds.head? ≠ some '\n' := fun hreturn hfeed =>
    hkept (hlast hreturn) (hhead.symm.trans hfeed)
  show lx'.cursor.rest.drop (leadingBlanks lx'.cursor.rest).length = ds
  rw [hsplit, leadingBlanks_append hblank hapart, hnil, List.append_nil, List.drop_left]

/-- **One reading.** -/
theorem Widens.read (hg : g.Spaceable) (h : lx.Widens g tokens lx')
    (hread : lx.ReadsItem (.ok t) behind) (ht : t ∈ tokens) :
    ∃ t' behind', lx'.read = (.ok t', behind') ∧ t'.word = t.word ∧
      behind.Widens g tokens behind' := by
  obtain ⟨ds, hds, hhead, hfront⟩ := h.front
  have hwords : lx'.lexicon = lx.lexicon := h.words'.trans h.words.symm
  have hends := hread.taken_or_end hg.noEmptyWord h.words
  have hpasses := hread.passes
  cases hread with
  | @token w hw =>
  have hchars : (String.ofList w.spelling).toList = w.spelling := String.toList_ofList
  -- the same word is read in the second text, and the rests go together again
  suffices hsame : lx'.lexicon.read lx'.awaitsLabel lx'.front.rest = .ok w ∧
      Widened tokens (lx.front.passWord w).offset (lx.front.passWord w).rest
        (lx'.front.passWord w).rest by
    refine ⟨_, _, read_of_ok hsame.1, rfl, h.words, h.words', ?_, hsame.2⟩
    rw [hwords]
  rcases hends with ⟨hne, -⟩ | ⟨hend, -, -⟩
  · rw [Item.chars, hchars] at hne
    have hrest : lx.front.rest = w.spelling ++ (lx.front.passWord w).rest :=
      hchars ▸ hpasses.front_rest
    have hspaced := (leadingBlanks_of_word hw hne (hrest ▸ List.prefix_append _ _)).2
    have hfronts := hds.fronts
    rw [hrest] at hds
    rw [← hhead] at hspaced
    obtain ⟨behind', rfl, hbehind⟩ := hds.token ht hne rfl rfl hspaced
    have hfront := hfront (leadingBlanks_of_word hw hne (List.prefix_append _ _)).1
    have hrest' : (lx'.front.passWord w).rest = behind' := by
      rw [rest_passWord]
      show lx'.front.rest.drop w.spelling.length = behind'
      rw [hfront, List.drop_left]
    have hstop : (lx.front.passWord w).offset = (lx.front.spanOf w.spelling).stop :=
      hpasses.offset
    rw [hwords, h.awaits, hfront, hrest', hstop]
    constructor
    · rw [h.words] at hw ⊢
      exact Lexicon.read_of_fronts hg hfronts hw hne (List.prefix_append _ _)
    · exact hbehind
  · rw [hend, Lexicon.read] at hw
    cases hw
    rw [hend] at hhead
    obtain rfl := List.head?_eq_none_iff.mp hhead
    have hfront := hfront rfl
    rw [hfront, Lexicon.read]
    refine ⟨rfl, ?_⟩
    rw [rest_passWord, rest_passWord]
    show Widened tokens _ (lx.front.rest.drop 0) (lx'.front.rest.drop 0)
    rw [hend, hfront]
    exact .nil

/-- Both readings lead on, or neither does. -/
theorem Widens.progresses {behind' : Lexer} {t' : Token} (h : lx.Widens g tokens lx')
    (hbehind : behind.Widens g tokens behind') (hword : t'.word = t.word) :
    lx'.progresses t' behind' = lx.progresses t behind := by
  have hlexeme : t'.lexeme = t.lexeme := congrArg Prod.snd hword
  rw [Lexer.progresses, Lexer.progresses, hlexeme, h.awaits, hbehind.awaits]

/-- **All tokens.** -/
theorem Widens.tokens? (hg : g.Spaceable) (h : lx.Widens g tokens lx') {ts : List Token}
    (hts : ∀ t ∈ ts, t ∈ tokens) (hlx : Item.tokens? (lx.items false) = .ok ts) :
    ∃ ts', Item.tokens? (lx'.items false) = .ok ts' ∧ ts'.map Token.word = ts.map Token.word := by
  fun_induction items false lx generalizing lx' ts with
  | case1 lx t behind hread on ih =>
    obtain ⟨us, hus, rfl⟩ := Item.exists_of_tokens?_cons hlx
    obtain ⟨ht, hus'⟩ := List.forall_mem_cons.mp hts
    obtain ⟨t', behind', hread', hword, hbehind⟩ := h.read hg (readsItem_of_read hread) ht
    obtain ⟨us', hitems, hwords⟩ := ih hbehind hus' hus
    have hon : lx'.progresses t' behind' = true := (h.progresses hbehind hword).trans on
    refine ⟨t' :: us', ?_, congrArg₂ List.cons hword hwords⟩
    rw [items_of_progresses hread' hon, Item.tokens?, hitems]
    rfl
  | case2 lx t behind hread off =>
    cases hlx
    obtain ⟨t', behind', hread', hword, hbehind⟩ :=
      h.read hg (readsItem_of_read hread) (hts t List.mem_cons_self)
    have hoff : lx'.progresses t' behind' = lx.progresses t behind := h.progresses hbehind hword
    refine ⟨[t'], ?_, congrArg ([·]) hword⟩
    rw [items_of_not_progresses hread' (hoff ▸ off)]
    rfl
  | case3 lx s behind hread ih => cases hlx

end Lexer

/-- **All tokens of a text.** Spacing that cuts no token makes no difference to their kinds and
lexemes. -/
theorem tokenize_widened {g : Grammar} (hg : g.Spaceable) {source source' : String}
    {ts : List Token} (h : tokenize source g = .ok ts)
    (hwide : Widened ts 0 source.toList source'.toList) :
    ∃ ts', tokenize source' g = .ok ts' ∧ ts'.map Token.word = ts.map Token.word :=
  have hlexers : (Lexer.ofSource source g).Widens g ts (.ofSource source' g) :=
    ⟨rfl, rfl, rfl, hwide⟩
  hlexers.tokens? hg (fun _ ht => ht) h

end CalcSyntax
