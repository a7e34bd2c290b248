import CalcSyntax.Proofs.Grammar.Lexicon
import CalcSyntax.Proofs.Token.Growth
import CalcSyntax.Proofs.Token.Tiling
import CalcSyntax.Proofs.Token.Vocabulary
import CalcSyntax.Token.Walk
import Mathlib.Data.List.Forall2
import Mathlib.Data.List.GetD

/-!
# Label — a label is awaited by the next call alone

Behind a command that takes a label, a lexer reads capitals, digits and theta as the name
of one. It remembers the command in a flag, which goes along with every copy, and which each
further call and each skip has to take back. What the flag ought to say is told here without
it: by the history of the lexer, that is, by what was asked of it and of the lexers that it
is a copy of (`History`). A label is awaited if the last thing in it is that such a command
was read (`Announced`).

## What is proved

- `Lexicon.read_of_isLabelChar`, `Lexicon.reads_label_iff` — what the flag decides.
- `Lexer.Remembers.read`, `Lexer.Remembers.next`, `Lexer.Remembers.skip` — the flag says what
  the history does, behind one call or skip.
- `History.Of.step`, `History.Of.run` — and so do the flags of a walk and of its copies.
- `heeds_history` — which items are labels, how they are spelled, and how everything else
  is read.
-/

set_option autoImplicit false

namespace CalcSyntax

/-! ## Histories -/

/-- What was asked of a lexer. -/
inductive Call where
  /-- The next item, with the answer. There is none once the end has been handed out. -/
  | asked (answer : Option Item)
  /-- To skip what is left of the statement. -/
  | skipped
  /-- To start over. -/
  | restarted

/-- What the lexer of a walk has been through, and what each of its copies had when it was
made. The latest call is the first. -/
structure History where
  lexer : List Call
  kept : List (List Call)

namespace History

/-- The history grows by what a step does to the lexer of a walk. A copy has the history of
its original, and takes it up again when it is gone back to. -/
def step (h : History) (w : Walk) : Step → History
  | .next => { h with lexer := .asked w.lexer.next?.1 :: h.lexer }
  | .read => { h with lexer := .asked (some w.lexer.read.1) :: h.lexer }
  | .skip => { h with lexer := .skipped :: h.lexer }
  | .restart => { h with lexer := .restarted :: h.lexer }
  | .keep => { h with kept := h.kept ++ [h.lexer] }
  | .resume number => { h with lexer := h.kept.getD number h.lexer }

/-- The history behind some more steps of a walk. -/
def run (h : History) (w : Walk) : List Step → History
  | [] => h
  | s :: steps => (h.step w s).run (w.step s) steps

/-- The history behind steps from the beginning of a source. -/
def ofSteps (source : String) (g : Grammar) (steps : List Step) : History :=
  run ⟨[], []⟩ (.ofSource source g) steps

end History

/-- The last thing that was done is that a command was read which takes a label. -/
def Announced (g : Grammar) (past : List Call) : Prop :=
  ∃ t d, past.head? = some (.asked (some (.ok t))) ∧ t.kind = .command ∧
    g.command? t.lexeme = some d ∧ d.args = .label

/-- The item is a label. -/
def Item.IsLabel (i : Item) : Prop := ∃ t, i = .ok t ∧ t.kind = .label

/-- What is answered for a word or for a stray character at a place. -/
def Cursor.itemOf (place : Cursor) : Except Char Word → Item
  | .ok w => .ok ⟨w.kind, String.ofList w.spelling, place.spanOf w.spelling⟩
  | .error c => .error ⟨c, place.spanOf [c]⟩

/-- What a lexer with this history answers. It is a label exactly if one was announced and
the text goes on with a character of labels. The label is that character, and the next one
if that is of labels too. Everything else is read by the rules for numbers, words and
variables. -/
structure Lexer.Heeds (g : Grammar) (past : List Call) (lx : Lexer) (item : Item) : Prop where
  label_iff : item.IsLabel ↔
    Announced g past ∧ ∃ c ∈ lx.front.rest.head?, isLabelChar c = true
  name : ∀ t, item = .ok t → t.kind = .label → ∃ c cs, lx.front.rest = c :: cs ∧
    t.lexeme = String.ofList (c :: (cs.head?.filter isLabelChar).toList)
  ordinary : ¬ item.IsLabel → ∀ c cs, lx.front.rest = c :: cs → isLabelChar c = true →
    item = lx.front.itemOf (g.lexicon.readPlain c cs)

/-! ## What is read -/

variable {g : Grammar} {lx : Lexer} {past : List Call} {item : Item}

/-- The flag says what the history does, and at the end of the text there is nothing to
await. -/
structure Lexer.Remembers (g : Grammar) (past : List Call) (lx : Lexer) : Prop where
  words : lx.lexicon = g.lexicon
  awaits : lx.awaitsLabel = true ↔ Announced g past
  ended : lx.ended = true → lx.cursor.rest = [] ∧ lx.awaitsLabel = false

theorem not_announced_nil : ¬ Announced g [] := by
  rintro ⟨t, d, ht, -⟩
  cases ht

theorem not_announced_of_head {e : Call} (h : ∀ t, e ≠ .asked (some (.ok t))) :
    ¬ Announced g (e :: past) := by
  rintro ⟨t, _, he, _⟩
  exact h t (Option.some.inj he)

/-- A word that was read announces a label if it is a command that takes one. -/
theorem announced_iff (g : Grammar) (past : List Call) (w : Word) (p : Span) :
    Announced g (.asked (some (.ok ⟨w.kind, String.ofList w.spelling, p⟩)) :: past) ↔
      g.lexicon.announcesLabel w = true := by
  rw [Grammar.announcesLabel_lexicon, Bool.and_eq_true, beq_iff_eq, Option.any_eq_true]
  constructor
  · rintro ⟨t, d, ht, hkind, hd, hlabel⟩
    cases ht
    exact ⟨hkind, d, hd, beq_iff_eq.mpr hlabel⟩
  · rintro ⟨hkind, d, hd, hlabel⟩
    exact ⟨_, d, rfl, hkind, hd, beq_iff_eq.mp hlabel⟩

namespace Lexicon

/-- No word of a grammar makes a label. -/
theorem kind_ne_label_of_mem_words {w : Word} (h : w ∈ g.lexicon.words) : w.kind ≠ .label := by
  rcases Grammar.mem_spellings_iff.mp (Word.mem_enterAll h) with
    ⟨d, _, rfl⟩ | ⟨d, _, rfl⟩ | ⟨d, _, rfl⟩ | ⟨name, _, rfl⟩ | hp
  · exact nofun
  · exact nofun
  · exact nofun
  · exact nofun
  · have key : ∀ w ∈ punctuation, w.kind ≠ .label := by decide
    exact key w hp

theorem kind_ne_of_numeral? {cs : List Char} {n : Word} (h : numeral? cs = some n) :
    n.kind ≠ .eof ∧ n.kind ≠ .label := by
  rcases isNumeral_of_numeral? h with ⟨hkind, -⟩ | ⟨hkind, -⟩
  · rw [hkind]
    exact ⟨nofun, nofun⟩
  · rw [hkind]
    exact ⟨nofun, nofun⟩

/-- The rules for numbers, words and variables make neither the end of the text nor a
label. -/
theorem kind_ne_of_readPlain {c : Char} {cs : List Char} {w : Word}
    (h : g.lexicon.readPlain c cs = .ok w) : w.kind ≠ .eof ∧ w.kind ≠ .label := by
  rcases readPlain_eq_ok_iff.mp h with hn | ⟨-, -, hw | ⟨-, -, rfl⟩⟩
  · exact kind_ne_of_numeral? hn
  · have hmem := List.mem_of_find?_eq_some hw
    refine ⟨fun hkind => ?_, kind_ne_label_of_mem_words hmem⟩
    have hinner := Grammar.inner_of_mem_words hmem
    rw [hkind] at hinner
    cases hinner
  · exact ⟨nofun, nofun⟩

/-- Where the text goes on with a character of labels, the flag alone decides. -/
theorem read_of_isLabelChar (lx : Lexicon) (awaits : Bool) {c : Char}
    (h : isLabelChar c = true) (cs : List Char) :
    lx.read awaits (c :: cs) =
      if awaits then .ok ⟨labelName (c :: cs), .label⟩ else lx.readPlain c cs := by
  obtain ⟨hblank, hline, hcolon⟩ := not_blank_of_class (by decide) h
  rw [read, terminator?_eq_none hblank hline hcolon]
  simp only [h, Bool.and_true]

/-- A label is read where one is awaited and the text goes on with a character of labels. -/
theorem reads_label_iff {awaits : Bool} {cs : List Char} :
    (∃ w, g.lexicon.read awaits cs = .ok w ∧ w.kind = .label) ↔
      awaits = true ∧ ∃ c ∈ cs.head?, isLabelChar c = true := by
  cases cs with
  | nil =>
    refine iff_of_false ?_ nofun
    rintro ⟨w, hw, hkind⟩
    cases hw
    cases hkind
  | cons c cs =>
    by_cases hc : isLabelChar c = true
    · rw [read_of_isLabelChar _ _ hc]
      cases awaits with
      | true => exact iff_of_true ⟨_, rfl, rfl⟩ ⟨rfl, c, rfl, hc⟩
      | false =>
        refine iff_of_false ?_ nofun
        rintro ⟨w, hw, hkind⟩
        exact (kind_ne_of_readPlain hw).2 hkind
    · refine iff_of_false ?_ ?_
      · rintro ⟨w, hw, hkind⟩
        cases finds_of_read hw with
        | terminator _ => cases hkind
        | label hlabel => exact hc hlabel
        | numeral hn => exact (kind_ne_of_numeral? hn).2 hkind
        | registered hmem => exact kind_ne_label_of_mem_words hmem hkind
        | capital _ => cases hkind
      · rintro ⟨-, d, hd, hlabel⟩
        cases hd
        exact hc hlabel

/-- A word is the end of the text only where nothing is left of it. -/
theorem eq_nil_of_eof {awaits : Bool} {cs : List Char} {w : Word}
    (h : g.lexicon.read awaits cs = .ok w) (hkind : w.kind = .eof) : cs = [] := by
  revert h
  fun_cases read g.lexicon awaits cs with
  | case1 => exact fun _ => rfl
  | case2 c cs t ht => rintro ⟨⟩; cases hkind
  | case3 c cs => rintro ⟨⟩; cases hkind
  | case4 c cs => exact fun h => absurd hkind (kind_ne_of_readPlain h).1

end Lexicon

/-- A label is a character of labels, and the next one if that is of labels too. -/
theorem labelName_cons {c : Char} (h : isLabelChar c = true) (cs : List Char) :
    labelName (c :: cs) = c :: (cs.head?.filter isLabelChar).toList := by
  rw [labelName, List.take_succ_cons, List.takeWhile_cons_of_pos h]
  cases cs with
  | nil => rfl
  | cons d cs =>
    rw [List.take_succ_cons, List.take_zero]
    by_cases hd : isLabelChar d = true
    · rw [List.takeWhile_cons_of_pos hd, List.head?_cons, Option.filter_some_pos hd]
      rfl
    · have hother : isLabelChar d = false := Bool.eq_false_iff.mpr hd
      rw [List.takeWhile_cons_of_neg hd, List.head?_cons, Option.filter_some_neg hother]
      rfl

/-! ## One lexer -/

theorem Cursor.isLabel_itemOf (place : Cursor) (r : Except Char Word) :
    (place.itemOf r).IsLabel ↔ ∃ w, r = .ok w ∧ w.kind = .label := by
  constructor
  · rintro ⟨t, ht, hkind⟩
    cases r with
    | error c => cases ht
    | ok w =>
      cases ht
      exact ⟨w, rfl, hkind⟩
  · rintro ⟨w, rfl, hkind⟩
    exact ⟨_, rfl, hkind⟩

namespace Lexer

theorem read_eq_itemOf (lx : Lexer) :
    lx.read.1 = lx.front.itemOf (lx.lexicon.read lx.awaitsLabel lx.front.rest) := by
  cases h : lx.lexicon.read lx.awaitsLabel lx.front.rest with
  | ok w => rw [read_of_ok h]; rfl
  | error c => rw [read_of_error h]; rfl

/-- Reading takes the flag back, and sets it again behind a command that takes a label. -/
theorem awaitsLabel_read (hwords : lx.lexicon = g.lexicon) (past : List Call) :
    lx.read.2.awaitsLabel = true ↔ Announced g (.asked (some lx.read.1) :: past) := by
  cases h : lx.lexicon.read lx.awaitsLabel lx.front.rest with
  | ok w =>
    rw [read_of_ok h, announced_iff, hwords]
  | error c =>
    rw [read_of_error h]
    exact iff_of_false Bool.false_ne_true (not_announced_of_head nofun)

/-- Where nothing is left of the text, nothing is left in front of the next item. -/
theorem front_rest_nil (h : lx.cursor.rest = []) : lx.front.rest = [] := by
  show lx.cursor.rest.drop _ = []
  rw [h]
  exact List.drop_nil

/-- Behind the end of the text there is nothing to await. -/
theorem read_of_front_nil (h : lx.front.rest = []) :
    lx.read.2.cursor.rest = [] ∧ lx.read.2.awaitsLabel = false := by
  have hread : lx.lexicon.read lx.awaitsLabel lx.front.rest = .ok ⟨[], .eof⟩ := by
    rw [h, Lexicon.read]
  rw [read_of_ok hread]
  exact ⟨h, rfl⟩

/-- Only where nothing is left is the end read. -/
theorem front_nil_of_isEnd (hwords : lx.lexicon = g.lexicon) (h : isEnd lx.read.1 = true) :
    lx.front.rest = [] := by
  cases hread : lx.lexicon.read lx.awaitsLabel lx.front.rest with
  | ok w =>
    rw [read_of_ok hread] at h
    rw [hwords] at hread
    exact Lexicon.eq_nil_of_eof hread (beq_iff_eq.mp h)
  | error c =>
    rw [read_of_error hread] at h
    cases h

namespace Remembers

/-- A lexer at the beginning of its text awaits nothing. -/
theorem fresh (text : List Char) (hpast : ¬ Announced g past) :
    (ofText text g.lexicon).Remembers g past where
  words := rfl
  awaits := iff_of_false Bool.false_ne_true hpast
  ended := nofun

/-- **One reading.** -/
theorem read (h : lx.Remembers g past) :
    lx.read.2.Remembers g (.asked (some lx.read.1) :: past) where
  words := lx.readsItem_read.passes.lexicon.trans h.words
  awaits := awaitsLabel_read h.words past
  ended hended :=
    read_of_front_nil (front_rest_nil (h.ended (lx.ended_read.symm.trans hended)).1)

/-- **One call.** Once the end has been handed out there is nothing to take back. -/
theorem next (h : lx.Remembers g past) :
    lx.next?.2.Remembers g (.asked lx.next?.1 :: past) := by
  cases hended : lx.ended with
  | true =>
    rw [next?_of_ended hended]
    obtain ⟨-, hawaits⟩ := h.ended hended
    refine ⟨h.words, iff_of_false ?_ (not_announced_of_head nofun), h.ended⟩
    exact hawaits ▸ Bool.false_ne_true
  | false =>
    rw [next?_of_not_ended hended]
    exact ⟨h.read.words, h.read.awaits,
      fun hend => read_of_front_nil (front_nil_of_isEnd h.words hend)⟩

/-- **One skip.** -/
theorem skip (h : lx.Remembers g past) :
    lx.skipToTerminator.Remembers g (.skipped :: past) where
  words := h.words
  awaits := iff_of_false Bool.false_ne_true (not_announced_of_head nofun)
  ended hended := by
    refine ⟨?_, rfl⟩
    show lx.cursor.rest.drop _ = []
    rw [(h.ended hended).1]
    exact List.drop_nil

end Remembers

/-- **What is answered.** -/
theorem Remembers.heeds (h : lx.Remembers g past) : lx.Heeds g past lx.read.1 := by
  have hread : lx.read.1 = lx.front.itemOf (g.lexicon.read lx.awaitsLabel lx.front.rest) :=
    h.words ▸ lx.read_eq_itemOf
  have hlabel : lx.read.1.IsLabel ↔
      Announced g past ∧ ∃ c ∈ lx.front.rest.head?, isLabelChar c = true := by
    rw [hread, Cursor.isLabel_itemOf, Lexicon.reads_label_iff, h.awaits]
  constructor
  case label_iff => exact hlabel
  case name =>
    intro t ht hkind
    obtain ⟨hannounced, c, hc, hchar⟩ := hlabel.mp ⟨t, ht, hkind⟩
    obtain ⟨cs, hrest⟩ := List.head?_eq_some_iff.mp hc
    refine ⟨c, cs, hrest, ?_⟩
    rw [hread, hrest, Lexicon.read_of_isLabelChar _ _ hchar, if_pos (h.awaits.mpr hannounced)] at ht
    cases ht
    rw [labelName_cons hchar]
  case ordinary =>
    intro hother c cs hrest hchar
    have hawaits : ¬ lx.awaitsLabel = true := fun hawaits =>
      hother (hlabel.mpr ⟨h.awaits.mp hawaits, c, by rw [hrest]; rfl, hchar⟩)
    rw [hread, hrest, Lexicon.read_of_isLabelChar _ _ hchar, if_neg hawaits]

/-- A call that answers answers what is read. -/
theorem read_of_next? (h : lx.next?.1 = some item) : lx.read.1 = item := by
  cases hended : lx.ended with
  | true =>
    rw [next?_of_ended hended] at h
    cases h
  | false =>
    rw [next?_of_not_ended hended] at h
    exact Option.some.inj h

end Lexer

/-! ## Any steps -/

namespace History

/-- A walk has this history: its lexer has, and so has each of its copies. -/
structure Of (g : Grammar) (h : History) (w : Walk) : Prop where
  lexer : w.lexer.Remembers g h.lexer
  kept : List.Forall₂ (Lexer.Remembers g) h.kept w.kept

variable {h : History} {w : Walk}

/-- **One step.** -/
theorem Of.step (hw : h.Of g w) (s : Step) : (h.step w s).Of g (w.step s) := by
  cases s with
  | next => exact ⟨hw.lexer.next, hw.kept⟩
  | read => exact ⟨hw.lexer.read, hw.kept⟩
  | skip => exact ⟨hw.lexer.skip, hw.kept⟩
  | restart =>
    refine ⟨?_, hw.kept⟩
    show (Lexer.ofText w.lexer.text w.lexer.lexicon).Remembers g _
    rw [hw.lexer.words]
    exact .fresh _ (not_announced_of_head nofun)
  | keep => exact ⟨hw.lexer, List.rel_append hw.kept (.cons hw.lexer .nil)⟩
  | resume number =>
    refine ⟨?_, hw.kept⟩
    show (w.kept.getD number w.lexer).Remembers g (h.kept.getD number h.lexer)
    have hlength := hw.kept.length_eq
    by_cases hnumber : number < w.kept.length
    · have hnumber' : number < h.kept.length := hlength ▸ hnumber
      rw [List.getD_eq_getElem _ _ hnumber, List.getD_eq_getElem _ _ hnumber']
      exact hw.kept.get hnumber' hnumber
    · have hle : w.kept.length ≤ number := Nat.le_of_not_lt hnumber
      rw [List.getD_eq_default _ _ hle, List.getD_eq_default _ _ (hlength ▸ hle)]
      exact hw.lexer

/-- **Any steps.** -/
theorem Of.run (hw : h.Of g w) (steps : List Step) : (h.run w steps).Of g (w.run steps) := by
  induction steps generalizing h w with
  | nil => exact hw
  | cons s steps ih => exact ih (hw.step s)

theorem of_ofSteps (source : String) (g : Grammar) (steps : List Step) :
    (ofSteps source g steps).Of g ((Walk.ofSource source g).run steps) :=
  Of.run ⟨.fresh _ not_announced_nil, .nil⟩ steps

end History

/-- **A label is awaited by the next call alone.** Behind any steps, what a lexer answers next
is a label exactly if the last thing done to it is that it answered a command that takes one,
and the text goes on with a character of labels behind the blanks. Such a label is one or two
characters. In every other case those characters are read as numbers, words and variables. A
copy has the history of its original. -/
theorem heeds_history (source : String) (g : Grammar) (steps : List Step) (item : Item) :
    let lx := ((Walk.ofSource source g).run steps).lexer
    lx.next?.1 = some item ∨ lx.read.1 = item →
      lx.Heeds g (History.ofSteps source g steps).lexer item := by
  rintro lx hitem
  have hread : lx.read.1 = item := hitem.elim Lexer.read_of_next? id
  exact hread ▸ (History.of_ofSteps source g steps).lexer.heeds

/-- A label behind a tab, met on a copy after the statement was skipped on the original. The
same characters behind it are no label. -/
theorem heeds_history_copy :
    let steps : List Step := [.next, .keep, .skip, .read, .resume 0]
    let source := "Lbl \tθA1:θ"
    let lx := ((Walk.ofSource source .calculator).run steps).lexer
    let label : Item := .ok ⟨.label, "θA", ⟨5, 8, 1, 5⟩⟩
    let one : Item := .ok ⟨.integer, "1", ⟨8, 9, 1, 7⟩⟩
    (lx.next?.1 = some label ∧
      lx.Heeds .calculator (History.ofSteps source .calculator steps).lexer label) ∧
    lx.next?.2.read.1 = one ∧
      lx.next?.2.Heeds .calculator
        (History.ofSteps source .calculator (steps ++ [.next])).lexer one := by
  refine ⟨⟨?_, heeds_history _ _ _ _ (.inl ?_)⟩, ?_, heeds_history _ _ _ _ (.inr ?_)⟩
  all_goals decide +kernel

end CalcSyntax
