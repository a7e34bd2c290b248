import CalcSyntax.Proofs.Token.Numeral
import CalcSyntax.Token.Front

/-!
# Break — reading stops at the end of a statement

Terminators are made of three characters, the breaks. Where no spelling
of a grammar holds one (`Grammar.KeepsLines`), nothing that is read in
front of a break reaches over it (`Lexicon.StopsAt`): the number rule, the
longest word and the label name find in `cs ++ r` what they find in `cs`,
once `r` begins with a break.

The carriage return is a break, and a blank as well. `Seals p r` says
that `p` is a stretch without a terminator at whose end `r` stands, and
that no carriage return of `p` makes a terminator with a line feed of `r`.

## What is proved

- `Grammar.keepsLines_lexicon`: the condition on the registered
  spellings carries over to the words the scanner looks for.
- `Grammar.forall_mem_words`: any other condition does so as well, if the
  words that every grammar has meet it.
- `Lexicon.finds_of_read`: a word is read in one of the ways that
  `Lexicon.Finds` lists.
- `Lexicon.end_or_terminator_or_inner`, `Lexicon.unbroken_or_listed`: what
  such a word can be, and which characters it can hold.
- `Lexicon.read_append`: what is read in a stretch does not depend on
  what stands behind it.
- `Lexicon.read_inside`: in a stretch nothing is read that closes a
  statement, and nothing that is empty.
- `Lexicon.unbroken_of_read`: what closes no statement holds no break.
-/

set_option autoImplicit false

namespace CalcSyntax

/-- The characters that terminators are made of. -/
def isBreak (c : Char) : Bool := c == '\n' || c == '\r' || c == ':'

/-- No character of a text is a break. -/
def Unbroken (cs : List Char) : Prop := ∀ c ∈ cs, isBreak c = false

instance (cs : List Char) : Decidable (Unbroken cs) := List.decidableBAll _ cs

/-- Whether a kind of token ends a statement. -/
def TokenKind.closes : TokenKind → Bool
  | .terminator | .eof => true
  | _ => false

/-! ## Grammars whose spellings keep to a line -/

/-- Every spelling that was registered. -/
def Grammar.registered (g : Grammar) : List String :=
  g.commands.entries.map CommandEntry.keyword ++ g.functions.entries.map FunctionEntry.name
    ++ g.operators.symbols

/-- No registered spelling is empty, and none holds a line feed, a carriage
return or a colon. -/
def Grammar.KeepsLines (g : Grammar) : Prop :=
  ∀ s ∈ g.registered, s ≠ "" ∧ Unbroken s.toList

instance (g : Grammar) : Decidable g.KeepsLines :=
  inferInstanceAs (Decidable (∀ s ∈ g.registered, s ≠ "" ∧ Unbroken s.toList))

/-- No registered spelling is empty. -/
def Grammar.NoEmptyWord (g : Grammar) : Prop := ∀ s ∈ g.registered, s ≠ ""

instance (g : Grammar) : Decidable g.NoEmptyWord :=
  inferInstanceAs (Decidable (∀ s ∈ g.registered, s ≠ ""))

/-- No registered spelling holds a line feed. -/
def Grammar.NoLineFeed (g : Grammar) : Prop := ∀ s ∈ g.registered, '\n' ∉ s.toList

instance (g : Grammar) : Decidable g.NoLineFeed :=
  inferInstanceAs (Decidable (∀ s ∈ g.registered, '\n' ∉ s.toList))

/-- A word that can stand in a statement: it is not empty, holds no break and
does not make a token that ends one. -/
structure Word.Keeps (w : Word) : Prop where
  nonempty : w.spelling ≠ []
  unbroken : Unbroken w.spelling
  inner : w.kind.closes = false

/-- Every word the scanner looks for can stand in a statement. -/
def Lexicon.KeepsLines (lx : Lexicon) : Prop := ∀ w ∈ lx.words, w.Keeps

namespace Word

theorem mem_enter {v w : Word} {ws : List Word} (h : v ∈ w.enter ws) : v = w ∨ v ∈ ws := by
  induction ws with
  | nil => exact .inl (List.mem_singleton.mp h)
  | cons u us ih =>
    unfold enter at h
    split at h
    · exact .inr h
    · split at h
      · exact List.mem_cons.mp h
      · rcases List.mem_cons.mp h with rfl | h
        · exact .inr List.mem_cons_self
        · exact (ih h).imp_right (List.mem_cons_of_mem _)

/-- Entering words adds no others. -/
theorem mem_enterAll {v : Word} {ws : List Word} (h : v ∈ enterAll ws) : v ∈ ws := by
  have key : ∀ (ws us : List Word), v ∈ ws.foldl (fun vs w => w.enter vs) us → v ∈ us ∨ v ∈ ws := by
    intro ws
    induction ws with
    | nil => exact fun us h => .inl h
    | cons w ws ih =>
      intro us h
      rcases ih _ h with h | h
      · rcases mem_enter h with rfl | h
        · exact .inr List.mem_cons_self
        · exact .inl h
      · exact .inr (List.mem_cons_of_mem _ h)
  exact (key ws [] h).resolve_left List.not_mem_nil

end Word

/-- The words that every grammar has can stand in a statement. -/
theorem keeps_common {w : Word} (h : w ∈ namedVariables.map (.ofString .var) ++ punctuation) :
    w.Keeps := by
  have key : ∀ w ∈ namedVariables.map (Word.ofString .var) ++ punctuation,
      w.spelling ≠ [] ∧ Unbroken w.spelling ∧ w.kind.closes = false := by
    decide
  obtain ⟨hn, hu, hi⟩ := key w h
  exact ⟨hn, hu, hi⟩

/-- The sources of the words that a grammar has. -/
theorem Grammar.mem_spellings_iff {g : Grammar} {w : Word} :
    w ∈ g.spellings ↔
      (∃ d ∈ g.commands.entries, .ofString .command d.keyword = w) ∨
      (∃ d ∈ g.functions.entries, .ofString .function d.name = w) ∨
      (∃ d ∈ g.operators.entries, .ofString .operator d.symbol = w) ∨
      (∃ name ∈ namedVariables, .ofString .var name = w) ∨ w ∈ punctuation := by
  simp only [spellings, Table.symbols, List.map_map, List.mem_append, List.mem_map, or_assoc,
    Function.comp_apply]

/-- What holds of the words that are registered, and of those that every grammar has,
holds of every word the scanner looks for. -/
theorem Grammar.forall_mem_words {g : Grammar} {P : Word → Prop}
    (registered : ∀ s ∈ g.registered, ∀ kind : TokenKind, kind.closes = false →
      P (.ofString kind s))
    (common : ∀ w ∈ namedVariables.map (.ofString .var) ++ punctuation, P w) :
    ∀ w ∈ g.lexicon.words, P w := by
  intro w hw
  rcases mem_spellings_iff.mp (Word.mem_enterAll hw) with
    ⟨d, hd, rfl⟩ | ⟨d, hd, rfl⟩ | ⟨d, hd, rfl⟩ | hv | hp
  · refine registered _ ?_ _ rfl
    exact List.mem_append_left _ (List.mem_append_left _ (List.mem_map_of_mem hd))
  · refine registered _ ?_ _ rfl
    exact List.mem_append_left _ (List.mem_append_right _ (List.mem_map_of_mem hd))
  · exact registered _ (List.mem_append_right _ (List.mem_map_of_mem hd)) _ rfl
  · exact common w (List.mem_append_left _ (List.mem_map.mpr hv))
  · exact common w (List.mem_append_right _ hp)

/-- No word the scanner looks for ends a statement. -/
theorem Grammar.inner_of_mem_words {g : Grammar} {w : Word} (h : w ∈ g.lexicon.words) :
    w.kind.closes = false :=
  forall_mem_words (P := fun w => w.kind.closes = false) (fun _ _ _ hk => hk)
    (fun _ hw => (keeps_common hw).inner) w h

/-- Where no spelling is empty, no word the scanner looks for is. -/
theorem Grammar.ne_nil_of_mem_words {g : Grammar} (h : g.NoEmptyWord) {w : Word}
    (hw : w ∈ g.lexicon.words) : w.spelling ≠ [] := by
  refine forall_mem_words (P := fun w => w.spelling ≠ []) ?_
    (fun w hw => (keeps_common hw).nonempty) w hw
  intro s hs _ _ he
  exact h s hs (String.toList_eq_nil_iff.mp he)

theorem Unbroken.not_mem {cs : List Char} (h : Unbroken cs) : '\n' ∉ cs := fun hn =>
  absurd (h _ hn) (by decide)

/-- Where no spelling holds a line feed, no word the scanner looks for does. -/
theorem Grammar.not_mem_of_mem_words {g : Grammar} (h : g.NoLineFeed) {w : Word}
    (hw : w ∈ g.lexicon.words) : '\n' ∉ w.spelling :=
  forall_mem_words (P := fun w => '\n' ∉ w.spelling) (fun s hs _ _ => h s hs)
    (fun _ hw => (keeps_common hw).unbroken.not_mem) w hw

/-- The condition on registered spellings carries over to the lexicon. -/
theorem Grammar.keepsLines_lexicon {g : Grammar} (h : g.KeepsLines) : g.lexicon.KeepsLines := by
  refine forall_mem_words ?_ fun w hw => keeps_common hw
  intro s hs kind hk
  refine ⟨fun he => (h s hs).1 ?_, (h s hs).2, hk⟩
  exact String.toList_eq_nil_iff.mp he

/-- The calculator's spellings keep to a line. -/
theorem Grammar.keepsLines_calculator : Grammar.calculator.KeepsLines := by decide +kernel

/-! ## Stretches without a terminator -/

theorem not_continues_of_isBreak {c : Char} (h : isBreak c = true) :
    Numeral.continues c = false := by
  simp only [isBreak, Bool.or_eq_true, beq_iff_eq] at h
  rcases h with (rfl | rfl) | rfl <;> decide

theorem isLabelChar_of_isBreak {c : Char} (h : isBreak c = true) : isLabelChar c = false := by
  simp only [isBreak, Bool.or_eq_true, beq_iff_eq] at h
  rcases h with (rfl | rfl) | rfl <;> decide

/-- `p` holds no terminator, also not together with the text `r` behind it,
which begins with a break if it is not empty. -/
structure Seals (p r : List Char) : Prop where
  clear : ∀ c ∈ p, c ≠ '\n' ∧ c ≠ ':'
  apart : p.getLast? = some '\r' → r.head? ≠ some '\n'
  breaks : ∀ c ∈ r.head?, isBreak c = true

theorem seals_nil {r : List Char} (hr : ∀ c ∈ r.head?, isBreak c = true) : Seals [] r := by
  refine ⟨?_, ?_, hr⟩
  · intro c hc
    cases hc
  · intro hl
    cases hl

/-- What is left of a sealed stretch is sealed. -/
theorem Seals.suffix {p q r : List Char} (h : Seals p r) (hq : q <:+ p) : Seals q r where
  clear c hc := h.clear c (hq.subset hc)
  apart hl := h.apart <| by
    obtain ⟨a, rfl⟩ := hq
    rw [List.getLast?_append, hl, Option.some_or]
  breaks := h.breaks

/-- Where no text is behind it, a stretch without terminators is sealed. -/
theorem seals_end {p : List Char} (h : ∀ c ∈ p, c ≠ '\n' ∧ c ≠ ':') : Seals p [] :=
  ⟨h, fun _ => nofun, nofun⟩

/-- A stretch stays sealed when the text behind it is left out. -/
theorem Seals.alone {p r : List Char} (h : Seals p r) : Seals p [] := seals_end h.clear

/-- A stretch is blanks, or has a first character that is none. -/
theorem blank_or_split (p : List Char) :
    (∀ c ∈ p, isBlank c = true) ∨
      ∃ b c q, p = b ++ c :: q ∧ (∀ d ∈ b, isBlank d = true) ∧ isBlank c = false := by
  induction p with
  | nil => exact .inl nofun
  | cons d p ih =>
    cases hd : isBlank d with
    | false => exact .inr ⟨[], d, p, rfl, nofun, hd⟩
    | true =>
      rcases ih with h | ⟨b, c, q, rfl, hb, hc⟩
      · exact .inl (List.forall_mem_cons.mpr ⟨hd, h⟩)
      · exact .inr ⟨d :: b, c, q, rfl, List.forall_mem_cons.mpr ⟨hd, hb⟩, hc⟩

/-- Blanks are skipped up to what follows them, unless that completes a line
break with the last of them. -/
theorem leadingBlanks_append {b r : List Char} (hb : ∀ d ∈ b, isBlank d = true)
    (hr : b.getLast? = some '\r' → r.head? ≠ some '\n') :
    leadingBlanks (b ++ r) = b ++ leadingBlanks r := by
  induction b with
  | nil => rfl
  | cons d b ih =>
    have hd : isBlank d = true := hb d List.mem_cons_self
    have ih := ih (fun c hc => hb c (List.mem_cons_of_mem _ hc)) fun hl => hr <| by
      cases b with
      | nil => cases hl
      | cons c b => rwa [List.getLast?_cons_cons]
    rw [List.cons_append, leadingBlanks.eq_2, if_pos hd, ih, List.cons_append]
    rintro rest rfl hn
    -- the line feed would be a blank of `b`, or stand at the front of `r`
    cases b with
    | nil => exact hr rfl (by rw [List.nil_append] at hn; rw [hn]; rfl)
    | cons c b =>
      have hc := hb c (List.mem_cons_of_mem _ List.mem_cons_self)
      rw [List.cons_append] at hn
      rw [(List.cons.inj hn).1] at hc
      exact absurd hc (by decide)

theorem leadingBlanks_of_blank {cs : List Char} (h : ∀ c ∈ cs, isBlank c = true) :
    leadingBlanks cs = cs := by
  have := leadingBlanks_append (r := []) h fun _ => nofun
  rwa [List.append_nil, show leadingBlanks [] = [] from rfl, List.append_nil] at this

theorem isBlank_of_mem_leadingBlanks {c : Char} {cs : List Char} (h : c ∈ leadingBlanks cs) :
    isBlank c = true := by
  fun_induction leadingBlanks cs with
  | case1 => cases h
  | case2 d cs _ hd ih =>
    rcases List.mem_cons.mp h with rfl | h
    · exact hd
    · exact ih h
  | case3 => cases h
  | case4 => cases h

theorem leadingBlanks_of_not_blank {c : Char} (h : isBlank c = false) (cs : List Char) :
    leadingBlanks (c :: cs) = [] := by
  rw [leadingBlanks.eq_2, if_neg (by rw [h]; decide)]
  rintro rest rfl
  exact absurd h (by decide)

/-- The blanks in front of the first other character. -/
theorem leadingBlanks_split {b q : List Char} {c : Char} (hb : ∀ d ∈ b, isBlank d = true)
    (hc : isBlank c = false) (hn : c ≠ '\n') : leadingBlanks (b ++ c :: q) = b := by
  have ha : b.getLast? = some '\r' → (c :: q).head? ≠ some '\n' := fun _ h =>
    hn (Option.some.inj h)
  rw [leadingBlanks_append hb ha, leadingBlanks_of_not_blank hc, List.append_nil]

/-- Behind blanks, a character of a sealed stretch begins no terminator. -/
theorem terminator?_eq_none {c : Char} (hb : isBlank c = false) (hn : c ≠ '\n') (hc : c ≠ ':')
    (cs : List Char) : terminator? (c :: cs) = none := by
  have hr : c ≠ '\r' := by
    rintro rfl
    exact absurd hb (by decide)
  unfold terminator?
  split
  · next h => exact absurd (List.cons.inj h).1 hn
  · next h => exact absurd (List.cons.inj h).1 hc
  · next h => exact absurd (List.cons.inj h).1 hr
  · rfl

theorem labelName_ne_nil {c : Char} (h : isLabelChar c = true) (cs : List Char) :
    labelName (c :: cs) ≠ [] := by
  simp only [labelName, List.take_succ_cons, List.takeWhile_cons, h, ↓reduceIte]
  exact List.cons_ne_nil _ _

namespace Lexicon

variable {lx : Lexicon} {r : List Char}

/-- The ways to read a word. -/
inductive Finds (lx : Lexicon) : List Char → Word → Prop where
  | eof : Finds lx [] ⟨[], .eof⟩
  | terminator {cs t : List Char} (h : terminator? cs = some t) : Finds lx cs ⟨t, .terminator⟩
  | label {c : Char} {cs : List Char} (h : isLabelChar c = true) :
    Finds lx (c :: cs) ⟨labelName (c :: cs), .label⟩
  | numeral {cs : List Char} {w : Word} (h : numeral? cs = some w) : Finds lx cs w
  | registered {cs : List Char} {w : Word} (h : w ∈ lx.words) : Finds lx cs w
  | capital {c : Char} {cs : List Char} (h : c.isUpper = true) : Finds lx (c :: cs) ⟨[c], .var⟩

theorem finds_of_readPlain {c : Char} {cs : List Char} {w : Word}
    (h : lx.readPlain c cs = .ok w) : lx.Finds (c :: cs) w := by
  unfold readPlain at h
  split at h
  · next w' hw =>
    cases h
    exact .numeral hw
  · split at h
    · cases h
    · split at h
      · next w' hw =>
        cases h
        exact .registered (List.mem_of_find?_eq_some hw)
      · split at h
        · next hupper =>
          cases h
          exact .capital hupper
        · cases h

theorem finds_of_read {awaitsLabel : Bool} {cs : List Char} {w : Word}
    (h : lx.read awaitsLabel cs = .ok w) : lx.Finds cs w := by
  unfold read at h
  split at h
  · cases h
    exact .eof
  · split at h
    · next t ht =>
      cases h
      exact .terminator ht
    · split at h
      · next hlabel =>
        cases h
        exact .label (Bool.and_eq_true_iff.mp hlabel).2
      · exact finds_of_readPlain h

/-- A word that is found at the front of a text lies in its first part, unless it
goes on with what follows. -/
theorem prefix_append_iff {v cs : List Char} (h : ∀ c ∈ r.head?, ¬ cs ++ [c] <+: v) :
    v <+: cs ++ r ↔ v <+: cs := by
  constructor
  · intro hv
    rcases List.prefix_or_prefix_of_prefix hv (List.prefix_append cs r) with hle | ⟨t, rfl⟩
    · exact hle
    · have ht : t <+: r := (List.prefix_append_right_inj cs).mp hv
      cases t with
      | nil => exact ⟨[], by rw [List.append_nil, List.append_nil]⟩
      | cons c t =>
        obtain ⟨r', rfl⟩ := ht
        refine absurd ⟨t, ?_⟩ (h c rfl)
        rw [List.append_assoc, List.singleton_append]
  · intro hv
    exact hv.trans (List.prefix_append cs r)

/-- The longest word does not reach over the end of a text, where no word goes on
with what follows. -/
theorem word?_append {cs : List Char}
    (h : ∀ c ∈ r.head?, ∀ v ∈ lx.words, ¬ cs ++ [c] <+: v.spelling) :
    lx.word? (cs ++ r) = lx.word? cs := by
  have key : ∀ ws : List Word, (∀ v ∈ ws, v.spelling <+: cs ++ r ↔ v.spelling <+: cs) →
      ws.find? (fun w => w.spelling.isPrefixOf (cs ++ r)) =
        ws.find? fun w => w.spelling.isPrefixOf cs := by
    intro ws hws
    induction ws with
    | nil => rfl
    | cons w ws ih =>
      have hw : w.spelling.isPrefixOf (cs ++ r) = w.spelling.isPrefixOf cs := by
        rw [Bool.eq_iff_iff, List.isPrefixOf_iff_prefix, List.isPrefixOf_iff_prefix]
        exact hws w List.mem_cons_self
      rw [List.find?_cons, List.find?_cons, ih fun v hv => hws v (List.mem_cons_of_mem _ hv), hw]
  exact key lx.words fun v hv => prefix_append_iff fun c hc => h c hc v hv

/-- Nothing that is read goes on over this character: it is in no number, in no label
name and in no word. -/
structure StopsAt (lx : Lexicon) (c : Char) : Prop where
  numeral : Numeral.continues c = false
  label : isLabelChar c = false
  words : ∀ w ∈ lx.words, c ∉ w.spelling

theorem stopsAt_of_isBreak (hk : lx.KeepsLines) {c : Char} (h : isBreak c = true) :
    lx.StopsAt c where
  numeral := not_continues_of_isBreak h
  label := isLabelChar_of_isBreak h
  words w hw hc := by
    rw [(hk w hw).unbroken c hc] at h
    cases h

/-- A word is registered, or made of the characters of numbers and of label names. -/
theorem Finds.listed_or_chars {cs : List Char} {w : Word} (h : lx.Finds cs w)
    (hw : w.kind.closes = false) :
    w ∈ lx.words ∨ ∀ c ∈ w.spelling, Numeral.continues c = true ∨ isLabelChar c = true := by
  cases h with
  | eof => cases hw
  | terminator => cases hw
  | label => exact .inr fun c hc => .inr (List.all_eq_true.mp List.all_takeWhile c hc)
  | numeral hn =>
    exact .inr fun c hc => .inl (Numeral.continues_of_mem (isNumeral_of_numeral? hn) c hc)
  | registered hw => exact .inl hw
  | capital hupper =>
    refine .inr (List.forall_mem_singleton.mpr (.inr ?_))
    rw [isLabelChar, hupper, Bool.true_or, Bool.true_or]

/-- Reading does not go on over a character where it stops. -/
theorem not_stopsAt_of_mem {cs : List Char} {w : Word} (h : lx.Finds cs w)
    (hw : w.kind.closes = false) {c : Char} (hc : c ∈ w.spelling) : ¬ lx.StopsAt c := by
  intro hstop
  rcases h.listed_or_chars hw with hmem | hchars
  · exact hstop.words w hmem hc
  · rcases hchars c hc with hcontinues | hlabel
    · rw [hstop.numeral] at hcontinues
      cases hcontinues
    · rw [hstop.label] at hlabel
      cases hlabel

theorem word?_append_stop (hr : ∀ c ∈ r.head?, lx.StopsAt c) (cs : List Char) :
    lx.word? (cs ++ r) = lx.word? cs := by
  refine word?_append fun c hc v hv hp => ?_
  exact (hr c hc).words v hv (hp.subset (List.mem_append_right _ List.mem_cons_self))

/-- **What is read in a stretch does not depend on what stands behind it**, if
reading stops there. -/
theorem read_append (hr : ∀ c ∈ r.head?, lx.StopsAt c) {awaitsLabel : Bool} {c : Char}
    {cs : List Char} (hb : isBlank c = false) (hn : c ≠ '\n') (hc : c ≠ ':') :
    lx.read awaitsLabel (c :: (cs ++ r)) = lx.read awaitsLabel (c :: cs) := by
  have hlabel : labelName (c :: (cs ++ r)) = labelName (c :: cs) := by
    rw [← List.cons_append]
    exact Numeral.takeWhile_take_append_stop (fun d hd => (hr d hd).label) 2
  have hplain : lx.readPlain c (cs ++ r) = lx.readPlain c cs := by
    unfold readPlain
    rw [← List.cons_append, numeral?_append (fun d hd => (hr d hd).numeral),
      word?_append_stop hr]
  simp only [read, terminator?_eq_none hb hn hc, hlabel, hplain]

/-- In front of a terminator it is read, whether or not a label is awaited. -/
theorem read_of_terminator? {awaitsLabel : Bool} {cs t : List Char}
    (h : terminator? cs = some t) : lx.read awaitsLabel cs = .ok ⟨t, .terminator⟩ := by
  cases cs with
  | nil => cases h
  | cons c cs => rw [read, h]

/-- Where no word of the lexicon is empty or ends a statement, what is read is the end
of the text, a terminator, or something that is neither empty nor ends a statement. -/
theorem end_or_terminator_or_inner
    (hwords : ∀ w ∈ lx.words, w.spelling ≠ [] ∧ w.kind.closes = false) {awaitsLabel : Bool}
    {cs : List Char} {w : Word} (h : lx.read awaitsLabel cs = .ok w) :
    (cs = [] ∧ w = ⟨[], .eof⟩) ∨ (w.kind = .terminator ∧ terminator? cs = some w.spelling) ∨
      (w.spelling ≠ [] ∧ w.kind.closes = false) := by
  cases finds_of_read h with
  | eof => exact .inl ⟨rfl, rfl⟩
  | terminator ht => exact .inr (.inl ⟨rfl, ht⟩)
  | label hl => exact .inr (.inr ⟨labelName_ne_nil hl _, rfl⟩)
  | numeral hw =>
    refine .inr (.inr ⟨(Numeral.numeral?_eq_some hw).2, ?_⟩)
    rcases isNumeral_of_numeral? hw with ⟨hkind, _⟩ | ⟨hkind, _⟩ <;> rw [hkind] <;> rfl
  | registered hw => exact .inr (.inr (hwords w hw))
  | capital hupper => exact .inr (.inr ⟨List.cons_ne_nil _ _, rfl⟩)

/-- In a stretch nothing is read that ends a statement, and nothing empty. -/
theorem read_inside (hk : lx.KeepsLines) {awaitsLabel : Bool} {c : Char} {cs : List Char}
    {w : Word} (hb : isBlank c = false) (hn : c ≠ '\n') (hc : c ≠ ':')
    (h : lx.read awaitsLabel (c :: cs) = .ok w) :
    w.spelling ≠ [] ∧ w.kind.closes = false := by
  rcases end_or_terminator_or_inner (fun w hw => ⟨(hk w hw).nonempty, (hk w hw).inner⟩) h with
    ⟨hend, _⟩ | ⟨_, ht⟩ | hinner
  · cases hend
  · rw [terminator?_eq_none hb hn hc] at ht
    cases ht
  · exact hinner

/-- What is read is a terminator or a registered word, or else holds no break. -/
theorem unbroken_or_listed {awaitsLabel : Bool} {cs : List Char} {w : Word}
    (h : lx.read awaitsLabel cs = .ok w) :
    (w.kind = .terminator ∧ terminator? cs = some w.spelling) ∨ w ∈ lx.words ∨
      w.kind ≠ .terminator ∧ Unbroken w.spelling := by
  have hfinds := finds_of_read h
  cases hclose : w.kind.closes with
  | true =>
    cases hfinds with
    | eof => exact .inr (.inr ⟨nofun, nofun⟩)
    | terminator ht => exact .inl ⟨rfl, ht⟩
    | label | capital => cases hclose
    | numeral hn =>
      rcases isNumeral_of_numeral? hn with ⟨hk, _⟩ | ⟨hk, _⟩ <;> rw [hk] at hclose <;> cases hclose
    | registered hw => exact .inr (.inl hw)
  | false =>
    rcases hfinds.listed_or_chars hclose with hmem | hchars
    · exact .inr (.inl hmem)
    · refine .inr (.inr ⟨?_, fun c hc => Bool.eq_false_iff.mpr fun hbreak => ?_⟩)
      · intro hk
        rw [hk] at hclose
        cases hclose
      · rcases hchars c hc with hcontinues | hlabel
        · rw [not_continues_of_isBreak hbreak] at hcontinues
          cases hcontinues
        · rw [isLabelChar_of_isBreak hbreak] at hlabel
          cases hlabel

/-- No word holds a break, apart from those that end a statement. -/
theorem unbroken_of_read (hk : lx.KeepsLines) {awaitsLabel : Bool} {cs : List Char} {w : Word}
    (h : lx.read awaitsLabel cs = .ok w) (hw : w.kind.closes = false) : Unbroken w.spelling := by
  intro c hc
  exact Bool.eq_false_iff.mpr fun hbreak =>
    not_stopsAt_of_mem (finds_of_read h) hw hc (stopsAt_of_isBreak hk hbreak)

end Lexicon

end CalcSyntax
