import CalcSyntax.Proofs.Token.Tiling
import CalcSyntax.Token.Walk

/-!
# Progress — reading goes on, and comes to an end

A reading answers the end of the text, or it takes at least one byte. Only a
spelling that was registered empty makes a third case: a token of no
characters (`Lexer.MovesOn`). No line is counted here, so the grammar may be any.

Where no spelling is empty, each call of `next?` takes a character or is the
last that answers. What is left of the text bounds the calls, whatever is
skipped between them.

## What is proved

- `Lexer.ReadsItem.movesOn` — one reading, from wherever a walk leads
  (`Walk.countsBytes_run`).
- `Walk.Driven.next`, `Walk.Driven.skip` — what a call and a skip leave behind.
- `Walk.ends_of_calls` — any number of calls, with skips between them.
-/

set_option autoImplicit false

namespace CalcSyntax

/-! ## One reading -/

/-- A word without characters is the end of the text, or a spelling was registered empty. -/
theorem Lexicon.end_or_registered {g : Grammar} {awaitsLabel : Bool} {cs : List Char} {w : Word}
    (h : g.lexicon.read awaitsLabel cs = .ok w) (hempty : w.spelling = []) :
    (cs = [] ∧ w = ⟨[], .eof⟩) ∨ (w.kind.closes = false ∧ "" ∈ g.registered) := by
  cases Lexicon.finds_of_read h with
  | eof => exact .inl ⟨rfl, rfl⟩
  | terminator ht => exact absurd hempty (isPrefixOf_of_terminator? ht).2
  | label hl => exact absurd hempty (labelName_ne_nil hl _)
  | numeral hw => exact absurd hempty (Numeral.numeral?_eq_some hw).2
  | registered hw =>
    refine .inr ⟨Grammar.inner_of_mem_words hw, ?_⟩
    refine Grammar.forall_mem_words (P := fun w => w.spelling = [] → "" ∈ g.registered) ?_
      (fun w hw he => absurd he (keeps_common hw).nonempty) w hw hempty
    intro s hs _ _ he
    exact String.toList_eq_nil_iff.mp he ▸ hs
  | capital _ => cases hempty

namespace Lexer

variable {text : List Char} {g : Grammar} {lx behind : Lexer} {item : Item}

/-- The lexer reads this text with the words of the grammar, and its offset counts the
bytes that it has passed. -/
structure CountsBytes (text : List Char) (g : Grammar) (lx : Lexer) : Prop where
  whole : lx.text = text
  words : lx.lexicon = g.lexicon
  place : ∃ before, text = before ++ lx.cursor.rest ∧ lx.cursor.offset = byteLength before

/-- What a reading comes to: the end of the text, with nothing left behind it; a step
forward; or a token without characters, for which some spelling must be empty. -/
inductive MovesOn (text : List Char) (g : Grammar) (lx : Lexer) : Item × Lexer → Prop where
  | ended {p : Span} {behind : Lexer} (start : p.start = byteLength text)
    (stop : p.stop = byteLength text) (offset : behind.cursor.offset = byteLength text)
    (rest : behind.cursor.rest = []) : MovesOn text g lx (.ok (.closing p), behind)
  | forward {item : Item} {behind : Lexer} (h : lx.cursor.offset < behind.cursor.offset) :
    MovesOn text g lx (item, behind)
  | empty {t : Token} {behind : Lexer} (lexeme : t.lexeme = "") (inner : t.kind.closes = false)
    (registered : "" ∈ g.registered) : MovesOn text g lx (.ok t, behind)

theorem countsBytes_ofSource (source : String) (g : Grammar) :
    (ofSource source g).CountsBytes source.toList g := ⟨rfl, rfl, [], rfl, rfl⟩

theorem CountsBytes.restart (h : lx.CountsBytes text g) : lx.restart.CountsBytes text g :=
  ⟨h.whole, h.words, [], h.whole.symm, rfl⟩

theorem CountsBytes.skip (h : lx.CountsBytes text g) :
    lx.skipToTerminator.CountsBytes text g := by
  obtain ⟨before, htext, hoffset⟩ := h.place
  refine ⟨h.whole, h.words, before ++ untilTerminator lx.cursor.rest, ?_, ?_⟩
  · rw [List.append_assoc, ← lx.rest_skipToTerminator, htext]
  · rw [byteLength_append, ← hoffset]
    rfl

/-- A reading moves the cursor over the blanks and over the item. -/
theorem Passes.offset_eq (h : lx.Passes item behind) : behind.cursor.offset =
    lx.cursor.offset + byteLength (leadingBlanks lx.cursor.rest) + byteLength item.chars := by
  rw [h.offset, h.span]
  rfl

theorem CountsBytes.readsItem (h : lx.CountsBytes text g) (hread : lx.ReadsItem item behind) :
    behind.CountsBytes text g := by
  obtain ⟨before, htext, hoffset⟩ := h.place
  have hpasses := hread.passes
  refine ⟨hpasses.text.trans h.whole, hpasses.lexicon.trans h.words,
    before ++ (leadingBlanks lx.cursor.rest ++ item.chars), ?_, ?_⟩
  · rw [List.append_assoc, List.append_assoc, ← hpasses.rest, htext]
  · rw [hpasses.offset_eq, byteLength_append, byteLength_append, hoffset, Nat.add_assoc]

/-- At the end of the text, the offset is its length. -/
theorem CountsBytes.offset_of_rest (h : lx.CountsBytes text g) (hrest : lx.cursor.rest = []) :
    lx.cursor.offset = byteLength text := by
  obtain ⟨before, htext, hoffset⟩ := h.place
  rw [hoffset, htext, hrest, List.append_nil]

/-- **One reading** moves on, or answers the end at the end. -/
theorem ReadsItem.movesOn (h : lx.CountsBytes text g) (hread : lx.ReadsItem item behind) :
    lx.MovesOn text g (item, behind) := by
  have hpasses := hread.passes
  have hbehind := h.readsItem hread
  by_cases hchars : item.chars = []
  · cases hread with
    | stray _ => cases hchars
    | @token w hw =>
      have hempty : w.spelling = [] := String.toList_ofList.symm.trans hchars
      rw [h.words] at hw
      rcases Lexicon.end_or_registered hw hempty with ⟨hnil, rfl⟩ | ⟨hinner, hregistered⟩
      · have hrest : (lx.front.passWord ⟨[], .eof⟩).rest = [] := hnil
        have hoffset := hbehind.offset_of_rest hrest
        exact .ended hoffset hoffset hoffset hrest
      · exact .empty (String.ofList_eq_empty_iff.mpr hempty) hinner hregistered
  · have hbytes : byteLength item.chars ≠ 0 := fun hzero => hchars (eq_nil_of_byteLength hzero)
    have hoffset := hpasses.offset_eq
    exact .forward (by omega)

end Lexer

/-! ## Walks -/

namespace Walk

variable {text : List Char} {source : String} {g : Grammar} {w : Walk}

/-- The lexer of a walk and the copies that were kept. -/
def lexers (w : Walk) : List Lexer := w.lexer :: w.kept

/-- **A walk keeps what its steps keep**: a property of lexers that holds at the
beginning, and behind each reading, skip and start over, holds of all lexers of a walk. -/
theorem forall_lexers {P : Lexer → Prop} (read : ∀ lx, P lx → P lx.read.2)
    (ended : ∀ lx ended, P lx → P { lx with ended := ended })
    (skip : ∀ lx, P lx → P lx.skipToTerminator) (restart : ∀ lx, P lx → P lx.restart)
    (steps : List Step) (h : ∀ lx ∈ w.lexers, P lx) : ∀ lx ∈ (w.run steps).lexers, P lx := by
  induction steps generalizing w with
  | nil => exact h
  | cons s steps ih =>
    refine ih ?_
    obtain ⟨hlexer, hkept⟩ := List.forall_mem_cons.mp h
    cases s with
    | next =>
      refine List.forall_mem_cons.mpr ⟨?_, hkept⟩
      show P w.lexer.next?.2
      cases hended : w.lexer.ended with
      | true => rwa [Lexer.next?_of_ended hended]
      | false =>
        rw [Lexer.next?_of_not_ended hended]
        exact ended _ _ (read _ hlexer)
    | read => exact List.forall_mem_cons.mpr ⟨read _ hlexer, hkept⟩
    | skip => exact List.forall_mem_cons.mpr ⟨skip _ hlexer, hkept⟩
    | restart => exact List.forall_mem_cons.mpr ⟨restart _ hlexer, hkept⟩
    | keep =>
      refine List.forall_mem_cons.mpr ⟨hlexer, ?_⟩
      exact List.forall_mem_append.mpr ⟨hkept, List.forall_mem_singleton.mpr hlexer⟩
    | resume number =>
      refine List.forall_mem_cons.mpr ⟨?_, hkept⟩
      show P (w.kept.getD number w.lexer)
      rw [List.getD_eq_getElem?_getD]
      cases hnumber : w.kept[number]? with
      | none => exact hlexer
      | some lx => exact hkept lx (List.mem_of_getElem? hnumber)

/-- All lexers of a walk count the bytes that they have passed. -/
theorem countsBytes_run (source : String) (g : Grammar) (steps : List Step) :
    ∀ lx ∈ ((ofSource source g).run steps).lexers, lx.CountsBytes source.toList g := by
  refine forall_lexers (fun lx h => h.readsItem lx.readsItem_read)
    (fun _ _ h => ⟨h.whole, h.words, h.place⟩) (fun _ h => h.skip) (fun _ h => h.restart) steps ?_
  exact List.forall_mem_singleton.mpr (Lexer.countsBytes_ofSource source g)

end Walk

/-! ## Calls -/

/-- The steps of a caller who only asks for the next item and skips. -/
def Step.calls : Step → Bool
  | .next | .skip => true
  | _ => false

/-- The steps that stay with one lexer and do not start it over. -/
def Step.goesOn : Step → Bool
  | .restart | .resume _ => false
  | _ => true

namespace Walk

variable {text : List Char} {g : Grammar} {w : Walk} {calls : Nat}

/-- Where calls have led. Each has answered an item and taken a character, or the end has
been answered once and nothing since. -/
inductive Driven (text : List Char) (g : Grammar) (calls : Nat) (w : Walk) : Prop where
  | running (ended : w.lexer.ended = false) (words : w.lexer.lexicon = g.lexicon)
    (answered : w.met.length = calls)
    (bound : w.met.length + w.lexer.cursor.rest.length ≤ text.length)
    (inner : ∀ i ∈ w.met, Lexer.isEnd i = false)
  | finished (ended : w.lexer.ended = true) (bound : w.met.length ≤ text.length + 1)
    (oneEnd : ∃ front p, w.met = front ++ [.ok (.closing p)] ∧ ∀ i ∈ front, Lexer.isEnd i = false)

theorem driven_ofSource (source : String) (g : Grammar) :
    (ofSource source g).Driven source.toList g 0 :=
  .running rfl rfl rfl (Nat.le_of_eq (Nat.zero_add _)) nofun

/-- **One call.** -/
theorem Driven.next (hg : g.NoEmptyWord) (h : w.Driven text g calls) :
    (w.step .next).Driven text g (calls + 1) := by
  cases h with
  | finished ended bound oneEnd =>
    have hstep : w.step .next = w := by
      rw [step, Lexer.next?_of_ended ended]
      exact congrArg (Walk.mk w.lexer w.kept) (List.append_nil w.met)
    rw [hstep]
    exact .finished ended bound oneEnd
  | running ended words answered bound inner =>
    have hread := w.lexer.readsItem_read
    have hpasses := hread.passes
    have hstep : w.step .next = w.reading [w.lexer.read.1]
        { w.lexer.read.2 with ended := Lexer.isEnd w.lexer.read.1 } := by
      rw [step, Lexer.next?_of_not_ended ended]
      rfl
    have hmet : (w.met ++ [w.lexer.read.1]).length = w.met.length + 1 := List.length_append
    rw [hstep]
    rcases hread.taken_or_end hg words with ⟨hne, hend⟩ | ⟨_, hclosing, _⟩
    · have hshorter := hpasses.length_lt hne
      refine .running hend (hpasses.lexicon.trans words) (by rw [← answered]; exact hmet) ?_ ?_
      · show (w.met ++ [w.lexer.read.1]).length + w.lexer.read.2.cursor.rest.length ≤ text.length
        omega
      · exact List.forall_mem_append.mpr ⟨inner, List.forall_mem_singleton.mpr hend⟩
    · have hended : Lexer.isEnd w.lexer.read.1 = true := by
        rw [hclosing]
        rfl
      refine .finished hended ?_ ⟨w.met, _, congrArg (w.met ++ [·]) hclosing, inner⟩
      show (w.met ++ [w.lexer.read.1]).length ≤ text.length + 1
      omega

/-- **One skip.** -/
theorem Driven.skip (h : w.Driven text g calls) : (w.step .skip).Driven text g calls := by
  cases h with
  | finished ended bound oneEnd => exact .finished ended bound oneEnd
  | running ended words answered bound inner =>
    have hshorter := Lexer.length_rest_skipToTerminator w.lexer
    refine .running ended words answered ?_ inner
    show w.met.length + w.lexer.skipToTerminator.cursor.rest.length ≤ text.length
    omega

/-- **Any calls**, with skips between them. -/
theorem Driven.run (hg : g.NoEmptyWord) {steps : List Step}
    (hsteps : ∀ s ∈ steps, s.calls = true) (h : w.Driven text g calls) :
    (w.run steps).Driven text g (calls + steps.count .next) := by
  induction steps generalizing w calls with
  | nil => exact h
  | cons s steps ih =>
    obtain ⟨hs, hrest⟩ := List.forall_mem_cons.mp hsteps
    cases s with
    | next =>
      have hrun := ih hrest (h.next hg)
      rwa [Nat.add_assoc, Nat.add_comm 1, ← List.count_cons_self] at hrun
    | skip =>
      have hrun := ih hrest h.skip
      rwa [List.count_cons_of_ne (by decide)]
    | read => cases hs
    | restart => cases hs
    | keep => cases hs
    | resume => cases hs

/-- Once the end has been handed out, a lexer that is not started over answers nothing. -/
theorem next?_of_goesOn (h : w.lexer.ended = true) {later : List Step}
    (hlater : ∀ s ∈ later, s.goesOn = true) : (w.run later).lexer.next?.1 = none := by
  suffices hended : (w.run later).lexer.ended = true by
    rw [Lexer.next?_of_ended hended]
  induction later generalizing w with
  | nil => exact h
  | cons s later ih =>
    obtain ⟨hs, hrest⟩ := List.forall_mem_cons.mp hlater
    refine ih ?_ hrest
    cases s with
    | next =>
      show w.lexer.next?.2.ended = true
      rwa [Lexer.next?_of_ended h]
    | read => exact (Lexer.ended_read w.lexer).trans h
    | skip => exact h
    | restart => cases hs
    | keep => exact h
    | resume => cases hs

/-- The items of a lexer that has been called so often. They are few, and as long as the
end is not among them, every call has answered one. More calls than there are characters
reach the end. It is the last item and the only one of its kind; behind it nothing is
answered until the lexer is started over, which answers again. -/
structure Ends (text : List Char) (calls : Nat) (w : Walk) : Prop where
  few : w.met.length ≤ text.length + 1
  answered : w.lexer.ended = false →
    w.met.length = calls ∧ ∀ i ∈ w.met, Lexer.isEnd i = false
  reached : text.length < calls → w.lexer.ended = true
  oneEnd : w.lexer.ended = true → ∃ front p, w.met = front ++ [.ok (.closing p)] ∧
    ∀ i ∈ front, Lexer.isEnd i = false
  silent : w.lexer.ended = true → ∀ later : List Step, (∀ s ∈ later, s.goesOn = true) →
    (w.run later).lexer.next?.1 = none
  restarts : (w.step .restart).lexer.next?.1.isSome = true

theorem Driven.ends (h : w.Driven text g calls) : w.Ends text calls := by
  cases h with
  | running ended _ answered bound inner =>
    have hgoing : w.lexer.ended ≠ true := Bool.eq_false_iff.mp ended
    refine ⟨by omega, fun _ => ⟨answered, inner⟩, fun hcalls => ?_,
      fun h => absurd h hgoing, fun h => absurd h hgoing, rfl⟩
    omega
  | finished ended bound oneEnd =>
    refine ⟨bound, fun h => ?_, fun _ => ended, fun _ => oneEnd,
      fun _ _ hlater => next?_of_goesOn ended hlater, rfl⟩
    rw [ended] at h
    cases h

/-- **Calls come to an end**, whatever is skipped between them. -/
theorem ends_of_calls (source : String) (hg : g.NoEmptyWord) {steps : List Step}
    (hsteps : ∀ s ∈ steps, s.calls = true) :
    ((ofSource source g).run steps).Ends source.toList (steps.count .next) := by
  have hrun := (driven_ofSource source g).run hg hsteps
  rw [Nat.zero_add] at hrun
  exact hrun.ends

end Walk

end CalcSyntax
