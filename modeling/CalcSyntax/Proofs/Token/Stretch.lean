import CalcSyntax.Proofs.Text.Slice
import CalcSyntax.Proofs.Token.Break
import CalcSyntax.Token.Stream

/-!
# Stretch — reading a stretch alone and within a text

A lexer that stands before a stretch without terminators reads the same
items whether the stretch is all there is or other text stands around it:
`Lexer.within` puts it so far from the beginning of a text, with the rest
of that text behind the stretch.

## What is proved

- `forall_mem_items` — what holds of each reading holds of all items.
- `read_within` — one step. In front of something that is no blank, the
  two lexers read the same item, at places that differ by the distance,
  and both stay within the stretch.
- `exists_readsAs` — the run. Alone, the items of the stretch are followed
  by the end of the text; within a text they are followed by whatever is
  read at the end of the stretch. No state is carried over that end: the
  label that a command may still await is forgotten there, and skipping
  the rest of a broken statement stops there.
-/

set_option autoImplicit false

namespace CalcSyntax

/-- Whether an item ends a statement. -/
def Item.closes : Item → Bool
  | .ok t => t.kind.closes
  | .error _ => false

theorem Item.closes_relocate (φ : Span → Span) (i : Item) :
    (i.relocate φ).closes = i.closes := by
  cases i <;> rfl

namespace Cursor

/-- The cursor when its text stands so far from the beginning of another, in
front of `r`. -/
def within (d : Distance) (r : List Char) (c : Cursor) : Cursor :=
  ⟨c.rest ++ r, d.bytes + c.offset, d.lines + c.line, d.columns + c.column⟩

theorem pass_append (c : Cursor) (as bs : List Char) :
    c.pass (as ++ bs) = (c.pass as).pass bs := by
  simp only [pass, List.drop_drop, List.length_append, byteLength_append, Nat.add_assoc]

theorem pass_nil (c : Cursor) : c.pass [] = c := rfl

/-- Passing the rest of a text is passing what is left, part by part. -/
theorem pass_rest {c : Cursor} {front : List Char} (h : front <+: c.rest) :
    (c.pass front).pass (c.pass front).rest = c.pass c.rest := by
  obtain ⟨rest, hr⟩ := h
  have hp : (c.pass front).rest = rest := by
    show c.rest.drop front.length = rest
    rw [← hr, List.drop_left]
  rw [hp, ← pass_append, hr]

theorem pass_within (d : Distance) (r : List Char) {c : Cursor} {cs : List Char}
    (h : cs <+: c.rest) : (c.within d r).pass cs = (c.pass cs).within d r := by
  simp only [within, pass, List.drop_append_of_le_length h.length_le, Nat.add_assoc]

theorem spanOf_within (d : Distance) (r : List Char) (c : Cursor) (cs : List Char) :
    (c.within d r).spanOf cs = (c.spanOf cs).shift d := by
  simp only [spanOf, within, Span.shift, Nat.add_assoc]

theorem passWord_of_inner (c : Cursor) {w : Word} (h : w.kind.closes = false) :
    c.passWord w = c.pass w.spelling := by
  unfold passWord
  rw [if_neg]
  rintro ⟨hk, _⟩
  rw [hk] at h
  cases h

end Cursor

namespace Lexer

/-! ## The stream, item by item -/

variable {lx behind : Lexer} {resync : Bool}

theorem items_of_progresses {t : Token} (h : lx.read = (.ok t, behind))
    (hp : lx.progresses t behind = true) : lx.items resync = .ok t :: behind.items resync := by
  rw [items]
  split
  · next heq => rw [h] at heq; cases heq; rw [dif_pos hp]
  · next heq => rw [h] at heq; cases heq

theorem items_of_not_progresses {t : Token} (h : lx.read = (.ok t, behind))
    (hp : ¬ lx.progresses t behind = true) : lx.items resync = [.ok t] := by
  rw [items]
  split
  · next heq => rw [h] at heq; cases heq; rw [dif_neg hp]
  · next heq => rw [h] at heq; cases heq

theorem items_of_read_ok {t : Token} (h : lx.read = (.ok t, behind)) (ht : t.lexeme ≠ "") :
    lx.items resync = .ok t :: behind.items resync := by
  refine items_of_progresses h ?_
  rw [progresses, bne_iff_ne.mpr ht, Bool.true_or]

theorem items_of_read_end {t : Token} (h : lx.read = (.ok t, behind)) (ht : t.lexeme = "")
    (ha : behind.awaitsLabel = false) : lx.items resync = [.ok t] := by
  refine items_of_not_progresses h ?_
  rw [progresses, ht, ha, Bool.false_and]
  decide

theorem items_of_read_error {s : Stray} (h : lx.read = (.error s, behind)) :
    lx.items resync =
      .error s :: (if resync then behind.skipToTerminator else behind).items resync := by
  rw [items]
  split
  · next heq => rw [h] at heq; cases heq
  · next heq => rw [h] at heq; cases heq; rfl

/-- **All items** have what each reading answers, if readings and skips keep what it rests on. -/
theorem forall_mem_items {P : Lexer → Prop} {Q : Item → Prop} (answers : ∀ lx, P lx → Q lx.read.1)
    (read : ∀ lx, P lx → P lx.read.2) (skip : ∀ lx, P lx → P lx.skipToTerminator) (h : P lx) :
    ∀ i ∈ lx.items resync, Q i := by
  fun_induction items resync lx with
  | case1 lx t behind hread on ih =>
    have hfirst := answers lx h
    have hbehind := read lx h
    rw [hread] at hfirst hbehind
    exact List.forall_mem_cons.mpr ⟨hfirst, ih hbehind⟩
  | case2 lx t behind hread off =>
    have hfirst := answers lx h
    rw [hread] at hfirst
    exact List.forall_mem_singleton.mpr hfirst
  | case3 lx s behind hread ih =>
    have hfirst := answers lx h
    have hbehind := read lx h
    rw [hread] at hfirst hbehind
    refine List.forall_mem_cons.mpr ⟨hfirst, ih ?_⟩
    cases resync with
    | false => exact hbehind
    | true => exact skip behind hbehind

/-! ## One step -/

theorem read_ok {b : List Char} {w : Word} (hb : leadingBlanks lx.cursor.rest = b)
    (hw : lx.lexicon.read lx.awaitsLabel (lx.cursor.pass b).rest = .ok w)
    (hin : w.kind.closes = false) :
    lx.read = (.ok ⟨w.kind, String.ofList w.spelling, (lx.cursor.pass b).spanOf w.spelling⟩,
      { lx with
        cursor := (lx.cursor.pass b).pass w.spelling
        awaitsLabel := lx.lexicon.announcesLabel w }) := by
  simp only [read, hb, hw, Cursor.passWord_of_inner _ hin]

theorem read_error {b : List Char} {c : Char} (hb : leadingBlanks lx.cursor.rest = b)
    (hw : lx.lexicon.read lx.awaitsLabel (lx.cursor.pass b).rest = .error c) :
    lx.read = (.error ⟨c, (lx.cursor.pass b).spanOf [c]⟩,
      { lx with cursor := (lx.cursor.pass b).pass [c], awaitsLabel := false }) := by
  simp only [read, hb, hw]

/-- The lexer when its text stands so far from the beginning of another, in
front of `r`. -/
def within (d : Distance) (r : List Char) (lx : Lexer) : Lexer :=
  { lx with cursor := lx.cursor.within d r }

/-- The lexer reads an item that ends no statement and moves on over some
characters of its text. -/
structure Advances (lx : Lexer) (item : Item) (behind : Lexer) : Prop where
  reads : lx.read = (item, behind)
  inner : item.closes = false
  nonempty : ∀ t, item = .ok t → t.lexeme ≠ ""
  moves : ∃ front awaits, front ≠ [] ∧ front <+: lx.cursor.rest ∧
    behind = { lx with cursor := lx.cursor.pass front, awaitsLabel := awaits }
  start : item.span.start = lx.cursor.offset + byteLength (leadingBlanks lx.cursor.rest)
  stop : item.span.stop ≤ lx.cursor.offset + byteLength lx.cursor.rest

theorem advances_of_read {item : Item} {b front : List Char} {awaits : Bool}
    (hb : leadingBlanks lx.cursor.rest = b)
    (hread : lx.read = (item,
      { lx with cursor := (lx.cursor.pass b).pass front, awaitsLabel := awaits }))
    (hinner : item.closes = false) (hlexeme : ∀ t, item = .ok t → t.lexeme ≠ "")
    (hspan : item.span = (lx.cursor.pass b).spanOf front) (hne : front ≠ [])
    (hp : front <+: (lx.cursor.pass b).rest) :
    lx.Advances item
      { lx with cursor := (lx.cursor.pass b).pass front, awaitsLabel := awaits } := by
  have hfront : b ++ front <+: lx.cursor.rest := by
    have hsplit := List.prefix_iff_eq_append.mp (leadingBlanks_isPrefixOf lx.cursor.rest)
    rw [hb] at hsplit
    rw [← hsplit]
    exact (List.prefix_append_right_inj b).mpr hp
  refine ⟨hread, hinner, hlexeme, ⟨b ++ front, awaits, ?_, hfront, ?_⟩, ?_, ?_⟩
  · intro h
    exact hne (List.append_eq_nil_iff.mp h).2
  · rw [Cursor.pass_append]
  · rw [hspan, hb]
    rfl
  · have hle := byteLength_le_of_isPrefix hfront
    rw [byteLength_append] at hle
    rw [hspan]
    show lx.cursor.offset + byteLength b + byteLength front ≤ _
    omega

/-- **One step.** In front of something that is no blank, a lexer reads the same
alone and within a text, if reading stops where that text goes on. -/
theorem read_within {r b q : List Char} {c : Char} (hk : lx.lexicon.KeepsLines)
    (hclear : ∀ c ∈ lx.cursor.rest, c ≠ '\n' ∧ c ≠ ':')
    (hr : ∀ c ∈ r.head?, lx.lexicon.StopsAt c) (hrest : lx.cursor.rest = b ++ c :: q)
    (hb : ∀ d ∈ b, isBlank d = true) (hc : isBlank c = false) (d : Distance) :
    ∃ item behind, lx.Advances item behind ∧
      (lx.within d r).read = (item.relocate (Span.shift d), behind.within d r) := by
  have hmem : c ∈ lx.cursor.rest := by
    rw [hrest]
    exact List.mem_append_right _ List.mem_cons_self
  obtain ⟨hn, hcolon⟩ := hclear c hmem
  have hblanks : leadingBlanks lx.cursor.rest = b := by
    rw [hrest, leadingBlanks_split hb hc hn]
  have hblanks' : leadingBlanks (lx.within d r).cursor.rest = b := by
    show leadingBlanks (lx.cursor.rest ++ r) = b
    rw [hrest, List.append_assoc, List.cons_append, leadingBlanks_split hb hc hn]
  have hstart : (lx.cursor.pass b).rest = c :: q := by
    show lx.cursor.rest.drop b.length = c :: q
    rw [hrest, List.drop_left]
  have hpass : (lx.within d r).cursor.pass b = (lx.cursor.pass b).within d r :=
    Cursor.pass_within d r ⟨c :: q, hrest.symm⟩
  have hread' : (lx.within d r).lexicon.read (lx.within d r).awaitsLabel
      ((lx.within d r).cursor.pass b).rest =
        lx.lexicon.read lx.awaitsLabel (lx.cursor.pass b).rest := by
    rw [hpass]
    show lx.lexicon.read lx.awaitsLabel ((lx.cursor.pass b).rest ++ r) = _
    rw [hstart, List.cons_append, Lexicon.read_append hr hc hn hcolon]
  cases hw : lx.lexicon.read lx.awaitsLabel (lx.cursor.pass b).rest with
  | ok w =>
    have hw' := hread'.trans hw
    have hp : w.spelling <+: (lx.cursor.pass b).rest := Lexicon.isPrefixOf_of_read hw
    obtain ⟨hne, hin⟩ : w.spelling ≠ [] ∧ w.kind.closes = false := by
      rw [hstart] at hw
      exact Lexicon.read_inside hk hc hn hcolon hw
    refine ⟨_, _, advances_of_read hblanks (read_ok hblanks hw hin) hin ?_ rfl hne hp, ?_⟩
    · intro t ht he
      cases ht
      exact hne (String.ofList_eq_empty_iff.mp he)
    · rw [read_ok hblanks' hw' hin, hpass, Cursor.pass_within d r hp, Cursor.spanOf_within]
      rfl
  | error s =>
    have hw' := hread'.trans hw
    have hp : [s] <+: (lx.cursor.pass b).rest := by
      obtain ⟨rest, hr⟩ := Lexicon.head_of_read_error hw
      exact ⟨rest, hr.symm⟩
    refine ⟨_, _, advances_of_read hblanks (read_error hblanks hw) rfl nofun rfl
      (List.cons_ne_nil s []) hp, ?_⟩
    rw [read_error hblanks' hw', hpass, Cursor.pass_within d r hp, Cursor.spanOf_within]
    rfl

/-! ## The end of a stretch -/

/-- Where only blanks are left, the end is read. -/
theorem items_end (lx : Lexer) (resync : Bool) {b : List Char}
    (hb : leadingBlanks lx.cursor.rest = b) (h : (lx.cursor.pass b).rest = []) :
    lx.items resync = [.ok (.closing ((lx.cursor.pass b).spanOf []))] := by
  have hread : lx.read = (.ok (.closing ((lx.cursor.pass b).spanOf [])),
      { lx with cursor := (lx.cursor.pass b).passWord ⟨[], .eof⟩, awaitsLabel := false }) := by
    simp only [read, hb, h, Lexicon.read]
    rfl
  exact items_of_read_end hread rfl rfl

/-- In front of a terminator it is read, whether or not a label is awaited. -/
theorem items_terminator (lx : Lexer) (resync : Bool) {b t : List Char}
    (hb : leadingBlanks lx.cursor.rest = b) (h : terminator? (lx.cursor.pass b).rest = some t) :
    lx.items resync = .ok ⟨.terminator, String.ofList t, (lx.cursor.pass b).spanOf t⟩ ::
      ({ lx with
        cursor := (lx.cursor.pass b).passWord ⟨t, .terminator⟩
        awaitsLabel := false } : Lexer).items resync := by
  obtain ⟨hp, hne⟩ := isPrefixOf_of_terminator? h
  refine items_of_read_ok ?_ (fun he => hne (String.ofList_eq_empty_iff.mp he))
  simp only [read, hb, Lexicon.read_of_terminator? h]
  rfl

/-- Two lexers that come to the same place at the end of a statement read the
same from there on, whatever they were waiting for. -/
theorem items_eq_of_place (c₁ c₂ : Cursor) {a₁ a₂ : Bool}
    (h : c₁.pass (leadingBlanks c₁.rest) = c₂.pass (leadingBlanks c₂.rest))
    (hend : (c₁.pass (leadingBlanks c₁.rest)).rest = [] ∨
      (terminator? (c₁.pass (leadingBlanks c₁.rest)).rest).isSome) :
    ({ lx with cursor := c₁, awaitsLabel := a₁ } : Lexer).items resync =
      ({ lx with cursor := c₂, awaitsLabel := a₂ } : Lexer).items resync := by
  rcases hend with hnil | hsome
  · rw [items_end { lx with cursor := c₁, awaitsLabel := a₁ } resync rfl hnil,
      items_end { lx with cursor := c₂, awaitsLabel := a₂ } resync rfl (h ▸ hnil)]
    exact congrArg (fun c : Cursor => [Except.ok (Token.closing (c.spanOf []))]) h
  · obtain ⟨t, ht⟩ := Option.isSome_iff_exists.mp hsome
    rw [items_terminator { lx with cursor := c₁, awaitsLabel := a₁ } resync rfl ht,
      items_terminator { lx with cursor := c₂, awaitsLabel := a₂ } resync rfl (h ▸ ht)]
    exact congrArg (fun c : Cursor => Except.ok (⟨.terminator, String.ofList t, c.spanOf t⟩ : Token)
      :: ({ lx with cursor := c.passWord ⟨t, .terminator⟩, awaitsLabel := false } : Lexer).items
        resync) h

end Lexer

/-- What stands before the next terminator ends at one, or at the end. -/
theorem terminator?_behind (cs : List Char) :
    cs.drop (untilTerminator cs).length = [] ∨
      (terminator? (cs.drop (untilTerminator cs).length)).isSome := by
  fun_induction untilTerminator cs with
  | case1 => exact .inl rfl
  | case2 c cs h => exact .inr h
  | case3 c cs _ ih => exact ih

/-- No blank stands at the end of a text or in front of a terminator. -/
theorem leadingBlanks_eq_nil {cs : List Char} (h : cs = [] ∨ (terminator? cs).isSome) :
    leadingBlanks cs = [] := by
  rcases h with rfl | h
  · rfl
  · -- a terminator begins with no blank, and with a return only before its line feed
    revert h
    fun_cases terminator? cs <;> intro h <;> first | rfl | cases h

/-- A sealed stretch lies in front of the next terminator. -/
theorem untilTerminator_append {p r : List Char} (h : Seals p r) :
    untilTerminator (p ++ r) = p ++ untilTerminator r := by
  induction p with
  | nil => rfl
  | cons c p ih =>
    obtain ⟨hn, hc⟩ := h.clear c List.mem_cons_self
    have hnone : terminator? (c :: (p ++ r)) = none := by
      unfold terminator?
      split
      · next he => exact absurd (List.cons.inj he).1 hn
      · next he => exact absurd (List.cons.inj he).1 hc
      · next he =>
        -- the line feed is neither in the stretch nor right behind it
        obtain ⟨rfl, hnext⟩ := List.cons.inj he
        cases p with
        | nil =>
          rw [List.nil_append] at hnext
          exact absurd (by rw [hnext]; rfl) (h.apart rfl)
        | cons d p =>
          have hd := (h.clear d (List.mem_cons_of_mem _ List.mem_cons_self)).1
          exact absurd (List.cons.inj hnext).1 hd
      · rfl
    rw [List.cons_append, untilTerminator, hnone, ih (h.suffix (List.suffix_cons c p))]
    rfl

namespace Lexer

variable {lx : Lexer}

/-- The lexer at the end of its text, with nothing awaited. -/
def finish (lx : Lexer) : Lexer :=
  { lx with cursor := lx.cursor.pass lx.cursor.rest, awaitsLabel := false }

/-- The span at the end of the text. -/
def stop (lx : Lexer) : Span := (lx.cursor.pass lx.cursor.rest).spanOf []

/-! ## The run -/

/-- `body` is what the lexer reads of its text, alone and within another text
that goes on with `r`. -/
structure ReadsAs (lx : Lexer) (d : Distance) (r : List Char) (body : List Item) : Prop where
  alone : lx.items true = body ++ [.ok (.closing lx.stop)]
  within : (lx.within d r).items true =
    body.map (Item.relocate (Span.shift d)) ++ (lx.finish.within d r).items true
  inner : ∀ i ∈ body, i.closes = false
  nil_iff : body = [] ↔ ∀ c ∈ lx.cursor.rest, isBlank c = true
  start : ∀ i ∈ body.head?,
    i.span.start = lx.cursor.offset + byteLength (leadingBlanks lx.cursor.rest)
  stop_le : ∀ i ∈ body.head?, i.span.stop ≤ lx.cursor.offset + byteLength lx.cursor.rest

theorem ReadsAs.inner_relocate {d : Distance} {r : List Char} {body : List Item}
    (h : lx.ReadsAs d r body) (φ : Span → Span) :
    ∀ i ∈ body.map (Item.relocate φ), i.closes = false := by
  intro i hi
  obtain ⟨j, hj, rfl⟩ := List.mem_map.mp hi
  rw [Item.closes_relocate]
  exact h.inner j hj

/-- A stretch of blanks is skipped. -/
theorem readsAs_blank {r : List Char} (hs : Seals lx.cursor.rest r)
    (hr : untilTerminator r = leadingBlanks r) (hb : ∀ c ∈ lx.cursor.rest, isBlank c = true)
    (d : Distance) : lx.ReadsAs d r [] := by
  have hblanks : leadingBlanks lx.cursor.rest = lx.cursor.rest := leadingBlanks_of_blank hb
  have hrest : (lx.cursor.pass lx.cursor.rest).rest = [] := List.drop_length
  refine ⟨?_, ?_, nofun, iff_of_true rfl hb, nofun, nofun⟩
  · exact items_end lx true hblanks hrest
  · have hplace : ((lx.cursor.within d r).pass (leadingBlanks (lx.cursor.rest ++ r))) =
        ((lx.cursor.pass lx.cursor.rest).within d r).pass (leadingBlanks r) := by
      rw [leadingBlanks_append hb hs.apart, Cursor.pass_append,
        Cursor.pass_within d r List.prefix_rfl]
    have hbehind : (((lx.cursor.pass lx.cursor.rest).within d r).pass (leadingBlanks r)).rest =
        r.drop (untilTerminator r).length := by
      show (_ ++ r).drop _ = _
      rw [hrest, hr, List.nil_append]
    refine items_eq_of_place (lx.cursor.within d r)
      ((lx.cursor.pass lx.cursor.rest).within d r) ?_ ?_
    · show _ = ((lx.cursor.pass lx.cursor.rest).within d r).pass (leadingBlanks (_ ++ r))
      rw [hrest, List.nil_append]
      exact hplace
    · rw [show (lx.cursor.within d r).rest = lx.cursor.rest ++ r from rfl, hplace, hbehind]
      exact terminator?_behind r

/-- What a step leaves behind: less of the same stretch, with the same end. -/
theorem Advances.leaves {item : Item} {behind : Lexer} (step : lx.Advances item behind) :
    behind.lexicon = lx.lexicon ∧ behind.cursor.rest <:+ lx.cursor.rest ∧
      behind.cursor.rest.length < lx.cursor.rest.length ∧ behind.finish = lx.finish := by
  obtain ⟨front, awaits, hne, hfront, rfl⟩ := step.moves
  have hpos := List.length_pos_iff.mpr hne
  have hle := hfront.length_le
  refine ⟨rfl, List.drop_suffix _ _, ?_, ?_⟩
  · simp only [Cursor.pass, List.length_drop]
    omega
  · simp only [finish, Cursor.pass_rest hfront]

theorem stop_eq_of_finish {behind : Lexer} (h : behind.finish = lx.finish) :
    behind.stop = lx.stop := congrArg (fun l : Lexer => l.cursor.spanOf []) h

theorem Advances.not_blank {item : Item} {behind : Lexer} (step : lx.Advances item behind)
    (hs : Seals lx.cursor.rest []) : ¬ ∀ c ∈ lx.cursor.rest, isBlank c = true := by
  intro hb
  -- alone, such a text is nothing but its end
  have hread := (readsAs_blank hs rfl hb ⟨0, 0, 0⟩).alone
  cases item with
  | ok t =>
    rw [items_of_read_ok step.reads (step.nonempty t rfl)] at hread
    have hinner := step.inner
    rw [(List.cons.inj hread).1] at hinner
    cases hinner
  | error s =>
    rw [items_of_read_error step.reads] at hread
    cases (List.cons.inj hread).1

theorem ReadsAs.cons_ok {t : Token} {behind : Lexer} {d : Distance} {r : List Char}
    {body : List Item} (step : lx.Advances (.ok t) behind) (hs : Seals lx.cursor.rest [])
    (hwithin : (lx.within d r).read = (Item.relocate (Span.shift d) (.ok t), behind.within d r))
    (h : behind.ReadsAs d r body) : lx.ReadsAs d r (.ok t :: body) := by
  have hne := step.nonempty t rfl
  have hfinish := step.leaves.2.2.2
  refine ⟨?_, ?_, ?_, iff_of_false (List.cons_ne_nil _ _) (step.not_blank hs), ?_, ?_⟩
  · rw [items_of_read_ok step.reads hne, h.alone, stop_eq_of_finish hfinish, List.cons_append]
  · rw [items_of_read_ok hwithin hne, h.within, hfinish, List.map_cons, List.cons_append]
    rfl
  · exact List.forall_mem_cons.mpr ⟨step.inner, h.inner⟩
  · intro i hi
    exact (Option.some.inj hi) ▸ step.start
  · intro i hi
    exact (Option.some.inj hi) ▸ step.stop

theorem leadingBlanks_behind {r : List Char} (hr : untilTerminator r = leadingBlanks r) :
    leadingBlanks (r.drop (leadingBlanks r).length) = [] :=
  leadingBlanks_eq_nil (hr ▸ terminator?_behind r)

/-- Skipping a text without terminators comes to its end. -/
theorem items_skip (h : Seals lx.cursor.rest []) :
    lx.skipToTerminator.items true = [.ok (.closing lx.stop)] := by
  have huntil := untilTerminator_append h
  rw [List.append_nil, show untilTerminator [] = [] from rfl, List.append_nil] at huntil
  have hskip : lx.skipToTerminator = lx.finish := by
    rw [skipToTerminator, huntil]
    rfl
  have hrest : (lx.cursor.pass lx.cursor.rest).rest = [] := List.drop_length
  have hblank : leadingBlanks lx.finish.cursor.rest = [] := by
    show leadingBlanks (lx.cursor.pass lx.cursor.rest).rest = []
    rw [hrest]
    rfl
  rw [hskip, items_end lx.finish true hblank hrest]
  rfl

/-- Behind a stray character the rest of the stretch is skipped, and no more. -/
theorem ReadsAs.stray {s : Stray} {behind : Lexer} {d : Distance} {r : List Char}
    (step : lx.Advances (.error s) behind) (hs : Seals lx.cursor.rest r)
    (hr : untilTerminator r = leadingBlanks r)
    (hwithin : (lx.within d r).read =
      (Item.relocate (Span.shift d) (.error s), behind.within d r)) :
    lx.ReadsAs d r [.error s] := by
  obtain ⟨_, hsuffix, _, hfinish⟩ := step.leaves
  have hb : Seals behind.cursor.rest r := hs.suffix hsuffix
  have hrest : (behind.cursor.pass behind.cursor.rest).rest = [] := List.drop_length
  refine ⟨?_, ?_, ?_, iff_of_false (List.cons_ne_nil _ _) (step.not_blank hs.alone), ?_, ?_⟩
  · rw [items_of_read_error step.reads, if_pos rfl, items_skip hb.alone, stop_eq_of_finish hfinish]
    rfl
  · have hskip : (behind.within d r).skipToTerminator.cursor =
        ((behind.cursor.pass behind.cursor.rest).within d r).pass (leadingBlanks r) := by
      show (behind.cursor.within d r).pass (untilTerminator (behind.cursor.rest ++ r)) = _
      rw [untilTerminator_append hb, hr, Cursor.pass_append,
        Cursor.pass_within d r List.prefix_rfl]
    have hplace : (((behind.cursor.pass behind.cursor.rest).within d r).pass
        (leadingBlanks r)).rest = r.drop (leadingBlanks r).length := by
      show (_ ++ r).drop _ = _
      rw [hrest, List.nil_append]
    rw [items_of_read_error hwithin, if_pos rfl, ← hfinish]
    refine congrArg (Except.error _ :: ·) ?_
    refine items_eq_of_place (behind.within d r).skipToTerminator.cursor
      ((behind.cursor.pass behind.cursor.rest).within d r) ?_ ?_
    · rw [hskip, hplace, leadingBlanks_behind hr, Cursor.pass_nil]
      show _ = ((behind.cursor.pass behind.cursor.rest).within d r).pass (leadingBlanks (_ ++ r))
      rw [hrest, List.nil_append]
    · rw [hskip, hplace, leadingBlanks_behind hr, Cursor.pass_nil, hplace, ← hr]
      exact terminator?_behind r
  · exact List.forall_mem_singleton.mpr rfl
  · intro i hi
    exact (Option.some.inj hi) ▸ step.start
  · intro i hi
    exact (Option.some.inj hi) ▸ step.stop

/-- **The run.** A lexer reads a sealed stretch alike alone and within a text, and
comes to its end with nothing carried over. The induction is on the length of
the stretch: each step takes some of it. -/
theorem exists_readsAs (lx : Lexer) {r : List Char} (hk : lx.lexicon.KeepsLines)
    (hs : Seals lx.cursor.rest r) (hr : untilTerminator r = leadingBlanks r) (d : Distance) :
    ∃ body, lx.ReadsAs d r body := by
  rcases blank_or_split lx.cursor.rest with hb | ⟨b, c, q, hrest, hb, hc⟩
  · exact ⟨[], readsAs_blank hs hr hb d⟩
  · have hstops : ∀ c ∈ r.head?, lx.lexicon.StopsAt c := fun c hc =>
      Lexicon.stopsAt_of_isBreak hk (hs.breaks c hc)
    obtain ⟨item, behind, step, hwithin⟩ := read_within hk hs.clear hstops hrest hb hc d
    cases item with
    | ok t =>
      obtain ⟨hlexicon, hsuffix, hshorter, _⟩ := step.leaves
      obtain ⟨body, h⟩ := exists_readsAs behind (hlexicon ▸ hk) (hs.suffix hsuffix) hr d
      exact ⟨.ok t :: body, .cons_ok step hs.alone hwithin h⟩
    | error s => exact ⟨[.error s], .stray step hs hr hwithin⟩
termination_by lx.cursor.rest.length

end Lexer

end CalcSyntax
