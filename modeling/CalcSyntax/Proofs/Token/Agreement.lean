import CalcSyntax.Proofs.Grammar.Lexicon
import CalcSyntax.Proofs.Segment.Yield

/-!
# Agreement — two sets of words, one reading

A lexer asks its lexicon two things: which word the rest of the text starts with,
and whether the word that it has read announces a label. Where two lexicons agree
on a text (`Lexicon.AgreesOn`), a lexer that is given the other words in the middle
of that text (`Lexer.reword`) goes on as before. So does whatever is built from
lexers: a walk, the items up to the end, and the segments.

That the lexer has not left the text is what `Lexer.CountsBytes` says of it, and
every step of a walk keeps that.

## What is proved

- `Lexer.reword_read` — one reading.
- `Walk.reword_run` — any steps.
- `Lexer.reword_items`, `Segmenter.yields_iff_yields` — all items, all segments.
-/

set_option autoImplicit false

namespace CalcSyntax

variable {g h : Grammar} {text : List Char} {source : String}

theorem Lexicon.AgreesOn.symm {x y : Lexicon} (hxy : x.AgreesOn y text) : y.AgreesOn x text where
  word cs hcs := (hxy.word cs hcs).symm
  label w hw := (hxy.label w hw).symm

theorem Lexicon.AgreesOn.read {x y : Lexicon} (hxy : x.AgreesOn y text) (awaitsLabel : Bool)
    {cs : List Char} (hcs : cs <:+ text) : y.read awaitsLabel cs = x.read awaitsLabel cs := by
  cases cs with
  | nil => rfl
  | cons c cs => simp only [Lexicon.read, Lexicon.readPlain, hxy.word _ hcs]

/-! ## One lexer -/

namespace Lexer

variable {lx : Lexer}

/-- The lexer with the words of another grammar, where it stands. -/
def reword (lx : Lexer) (h : Grammar) : Lexer := { lx with lexicon := h.lexicon }

theorem CountsBytes.rest_suffix (hlx : lx.CountsBytes text g) : lx.cursor.rest <:+ text := by
  obtain ⟨before, htext, _⟩ := hlx.place
  exact ⟨before, htext.symm⟩

theorem CountsBytes.front_suffix (hlx : lx.CountsBytes text g) : lx.front.rest <:+ text :=
  (List.drop_suffix _ _).trans hlx.rest_suffix

/-- **One reading** answers the same, and leaves the same lexer but for its words. -/
theorem reword_read (hagree : g.lexicon.AgreesOn h.lexicon text) (hlx : lx.CountsBytes text g) :
    (lx.reword h).read = (lx.read.1, lx.read.2.reword h) := by
  have hread : h.lexicon.read lx.awaitsLabel lx.front.rest =
      lx.lexicon.read lx.awaitsLabel lx.front.rest := by
    rw [hlx.words]
    exact hagree.read _ hlx.front_suffix
  cases hw : lx.lexicon.read lx.awaitsLabel lx.front.rest with
  | ok w =>
    have hinfix : w.spelling <:+: text :=
      (Lexicon.isPrefixOf_of_read hw).isInfix.trans hlx.front_suffix.isInfix
    have hlabel : lx.lexicon.announcesLabel w = h.lexicon.announcesLabel w := by
      rw [hlx.words, hagree.label w hinfix]
    have hother : (lx.reword h).read = _ := read_of_ok (hread.trans hw)
    rw [hother, read_of_ok hw, hlabel]
    rfl
  | error c =>
    have hother : (lx.reword h).read = _ := read_of_error (hread.trans hw)
    rw [hother, read_of_error hw]
    rfl

theorem reword_next? (hagree : g.lexicon.AgreesOn h.lexicon text) (hlx : lx.CountsBytes text g) :
    (lx.reword h).next? = (lx.next?.1, lx.next?.2.reword h) := by
  cases hended : lx.ended with
  | true =>
    have hother : (lx.reword h).ended = true := hended
    rw [next?_of_ended hended, next?_of_ended hother]
  | false =>
    have hother : (lx.reword h).ended = false := hended
    rw [next?_of_not_ended hended, next?_of_not_ended hother, reword_read hagree hlx]
    rfl

theorem CountsBytes.read (hlx : lx.CountsBytes text g) : lx.read.2.CountsBytes text g :=
  hlx.readsItem lx.readsItem_read

theorem CountsBytes.next? (hlx : lx.CountsBytes text g) : lx.next?.2.CountsBytes text g := by
  cases hended : lx.ended with
  | true => rwa [next?_of_ended hended]
  | false =>
    rw [next?_of_not_ended hended]
    exact ⟨hlx.read.whole, hlx.read.words, hlx.read.place⟩

/-- **All items** up to the end are the same. -/
theorem reword_items (hagree : g.lexicon.AgreesOn h.lexicon text) (resync : Bool)
    (hlx : lx.CountsBytes text g) : (lx.reword h).items resync = lx.items resync := by
  fun_induction items resync lx with
  | case1 lx t behind hread on ih =>
    have hbehind := hlx.read
    have hother := reword_read hagree hlx
    rw [hread] at hbehind hother
    rw [items_of_progresses hother on, ih hbehind]
  | case2 lx t behind hread off =>
    have hother := reword_read hagree hlx
    rw [hread] at hother
    exact items_of_not_progresses hother off
  | case3 lx s behind hread ih =>
    have hbehind := hlx.read
    have hother := reword_read hagree hlx
    rw [hread] at hbehind hother
    rw [items_of_read_error hother]
    cases resync with
    | false => exact congrArg (_ :: ·) (ih hbehind)
    | true => exact congrArg (_ :: ·) (ih hbehind.skip)

end Lexer

/-! ## Walks -/

namespace Walk

variable {w : Walk}

/-- The walk with the words of another grammar in all its lexers. -/
def reword (w : Walk) (h : Grammar) : Walk :=
  ⟨w.lexer.reword h, w.kept.map (Lexer.reword · h), w.met⟩

theorem reword_step (hagree : g.lexicon.AgreesOn h.lexicon text)
    (hw : ∀ lx ∈ w.lexers, lx.CountsBytes text g) (s : Step) :
    (w.reword h).step s = (w.step s).reword h := by
  have hlexer := (List.forall_mem_cons.mp hw).1
  cases s with
  | next =>
    show (w.reword h).reading (w.lexer.reword h).next?.1.toList (w.lexer.reword h).next?.2 = _
    rw [Lexer.reword_next? hagree hlexer]
    rfl
  | read =>
    show (w.reword h).reading [(w.lexer.reword h).read.1] (w.lexer.reword h).read.2 = _
    rw [Lexer.reword_read hagree hlexer]
    rfl
  | skip => rfl
  | restart => rfl
  | keep =>
    show (⟨w.lexer.reword h, w.kept.map (Lexer.reword · h) ++ [w.lexer.reword h], w.met⟩ : Walk) = _
    rw [step, reword, List.map_append, List.map_singleton]
  | resume number =>
    show (⟨(w.kept.map (Lexer.reword · h)).getD number (w.lexer.reword h), _, w.met⟩ : Walk) = _
    simp only [step, reword, List.getD_eq_getElem?_getD, List.getElem?_map, Option.getD_map]

/-- **Any steps** lead from one walk to the other. -/
theorem reword_run (hagree : g.lexicon.AgreesOn h.lexicon text)
    (hw : ∀ lx ∈ w.lexers, lx.CountsBytes text g) (steps : List Step) :
    (w.reword h).run steps = (w.run steps).reword h := by
  induction steps generalizing w with
  | nil => rfl
  | cons s steps ih =>
    have hstep : ∀ lx ∈ (w.step s).lexers, lx.CountsBytes text g :=
      forall_lexers (fun _ h => h.read) (fun _ _ h => ⟨h.whole, h.words, h.place⟩)
        (fun _ h => h.skip) (fun _ h => h.restart) [s] hw
    rw [run, List.foldl_cons, reword_step hagree hw]
    exact ih hstep

/-- What is met in a source depends on the words that stand in it. -/
theorem met_eq (hagree : g.lexicon.AgreesOn h.lexicon source.toList) (steps : List Step) :
    ((ofSource source g).run steps).met = ((ofSource source h).run steps).met := by
  have hfresh : ∀ lx ∈ (ofSource source g).lexers, lx.CountsBytes source.toList g :=
    List.forall_mem_singleton.mpr (Lexer.countsBytes_ofSource source g)
  have hrun : (ofSource source h).run steps = ((ofSource source g).run steps).reword h :=
    reword_run hagree hfresh steps
  rw [hrun]
  rfl

end Walk

/-! ## Segments -/

namespace Segmenter

/-- The segmenter with the words of another grammar. -/
def reword (sg : Segmenter) (h : Grammar) : Segmenter := { sg with lexer := sg.lexer.reword h }

/-- The lexer that a round leaves. -/
def Round.lexer : Round → Lexer
  | .answered _ behind => behind.lexer
  | .open lexer _ => lexer

/-- What a round comes to, with the words of another grammar. -/
def Round.reword (h : Grammar) : Round → Round
  | .answered segment behind => .answered segment (behind.reword h)
  | .open lexer items => .open (lexer.reword h) items

variable {sg : Segmenter} {lx : Lexer} {items : List Item}

theorem round_reword (hagree : g.lexicon.AgreesOn h.lexicon text) (hlx : lx.CountsBytes text g)
    (items : List Item) :
    round (lx.reword h) items = (round lx items).reword h := by
  have hother := Lexer.reword_next? hagree hlx
  rcases hnext : lx.next? with ⟨_ | s | t, behind⟩ <;> rw [hnext] at hother
  · simp only [round, hnext, hother]
    rfl
  · simp only [round, hnext, hother]
    rfl
  · simp only [round, hnext, hother]
    split
    · rfl
    split <;> rfl

theorem round_countsBytes (hlx : lx.CountsBytes text g) (items : List Item) :
    (round lx items).lexer.CountsBytes text g := by
  have hbehind := hlx.next?
  rcases hnext : lx.next? with ⟨_ | s | t, behind⟩ <;> rw [hnext] at hbehind
  · simp only [round, hnext]
    exact hbehind
  · simp only [round, hnext]
    exact hbehind.skip
  · simp only [round, hnext]
    split
    · exact hbehind
    split <;> exact hbehind

theorem Answers.reword (hagree : g.lexicon.AgreesOn h.lexicon text) {answer : Option Segment}
    {behind : Segmenter} (hlx : lx.CountsBytes text g) (ha : Answers lx items answer behind) :
    Answers (lx.reword h) items answer (behind.reword h) ∧ behind.lexer.CountsBytes text g := by
  induction ha with
  | @last lx items answer behind hround =>
    have hbehind := round_countsBytes hlx items
    have hother := round_reword hagree hlx items
    rw [hround] at hbehind hother
    exact ⟨.last hother, hbehind⟩
  | @more lx next items items' answer behind hround _ ih =>
    have hnext := round_countsBytes hlx items
    have hother := round_reword hagree hlx items
    rw [hround] at hnext hother
    obtain ⟨hrest, hbehind⟩ := ih hnext
    exact ⟨.more hother hrest, hbehind⟩

theorem Yields.reword (hagree : g.lexicon.AgreesOn h.lexicon text) {ss : List Segment}
    (hlx : sg.lexer.CountsBytes text g) (hy : sg.Yields ss) : (sg.reword h).Yields ss := by
  induction hy with
  | done hdone => exact .done hdone
  | last hopen ha => exact .last hopen (ha.reword hagree hlx).1
  | cons hopen ha _ ih =>
    obtain ⟨hother, hbehind⟩ := ha.reword hagree hlx
    exact .cons hopen hother (ih hbehind)

/-- **All segments** of a source are the same, and there is an end to them with one set of
words if there is one with the other. -/
theorem yields_iff_yields (hagree : g.lexicon.AgreesOn h.lexicon source.toList)
    (ss : List Segment) :
    (Segmenter.mk (.ofSource source g) false).Yields ss ↔
      (Segmenter.mk (.ofSource source h) false).Yields ss :=
  ⟨Yields.reword hagree (Lexer.countsBytes_ofSource source g),
    Yields.reword hagree.symm (Lexer.countsBytes_ofSource source h)⟩

end Segmenter

/-- The segments of a source are those of the other grammar. -/
theorem segments_eq_of_agreesOn (hagree : g.lexicon.AgreesOn h.lexicon source.toList) :
    segments source g = segments source h := by
  have hitems := Lexer.reword_items hagree true (Lexer.countsBytes_ofSource source g)
  exact congrArg Segment.ofItems hitems.symm

end CalcSyntax
