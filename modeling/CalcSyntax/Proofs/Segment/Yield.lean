import CalcSyntax.Analysis
import CalcSyntax.Listing
import CalcSyntax.Proofs.Segment.Piece
import CalcSyntax.Proofs.Token.Progress

/-!
# Yield — segments one at a time, up to the last

A segmenter asks its lexer for items until one of them closes the segment, and
is asked for segments until it has none. Neither loop has a bound of its own:
both end because the lexer does. `Segmenter.round` is one round of the inner
loop, `Segmenter.Answers` one call, and `Segmenter.Yields` all calls. The last
two are finite runs, so whatever they relate was reached.

## What is proved

- `Segmenter.gathers_of_delivers` — one call gathers what the lexer delivers up
  to the token that closes the segment.
- `Segmenter.yields_iff` — all calls together come to the segments of the source.
- `reading_ends` — the lexer, the listing, the segments and the analysis.
-/

set_option autoImplicit false

namespace CalcSyntax

/-- A lexer whose items are asked for by the segment. -/
structure Segmenter where
  lexer : Lexer
  /-- The end of the text has been met. -/
  done : Bool

namespace Segmenter

/-- What a round of the loop comes to: the call is answered, or the loop goes on. -/
inductive Round where
  | answered (segment : Option Segment) (behind : Segmenter)
  | open (lexer : Lexer) (items : List Item)

/-- One round, behind the items that the segment has so far. -/
def round (lx : Lexer) (items : List Item) : Round :=
  match lx.next? with
  | (none, behind) => .answered none ⟨behind, true⟩
  | (some (.error s), behind) => .open behind.skipToTerminator (items ++ [.error s])
  | (some (.ok t), behind) =>
    if t.kind = .terminator then .answered (some ⟨items, t⟩) ⟨behind, false⟩
    else if t.kind = .eof then
      .answered (if items.isEmpty then none else some ⟨items, t⟩) ⟨behind, true⟩
    else .open behind (items ++ [.ok t])

/-- What a call answers, round by round. -/
inductive Answers : Lexer → List Item → Option Segment → Segmenter → Prop where
  | last {lx : Lexer} {items : List Item} {answer : Option Segment} {behind : Segmenter}
    (h : round lx items = .answered answer behind) : Answers lx items answer behind
  | more {lx next : Lexer} {items items' : List Item} {answer : Option Segment}
    {behind : Segmenter} (h : round lx items = .open next items')
    (rest : Answers next items' answer behind) : Answers lx items answer behind

/-- What a segmenter answers, call by call, until it has nothing more. -/
inductive Yields : Segmenter → List Segment → Prop where
  | done {sg : Segmenter} (h : sg.done = true) : Yields sg []
  | last {sg behind : Segmenter} (hd : sg.done = false) (h : Answers sg.lexer [] none behind) :
    Yields sg []
  | cons {sg behind : Segmenter} {s : Segment} {ss : List Segment} (hd : sg.done = false)
    (h : Answers sg.lexer [] (some s) behind) (rest : Yields behind ss) : Yields sg (s :: ss)

/-! ## One answer -/

theorem Answers.unique {lx : Lexer} {items : List Item} {answer other : Option Segment}
    {behind after : Segmenter} (h : Answers lx items answer behind)
    (ho : Answers lx items other after) : answer = other ∧ behind = after := by
  induction h with
  | last h =>
    cases ho with
    | last ho => rw [h] at ho; cases ho; exact ⟨rfl, rfl⟩
    | more ho _ => rw [h] at ho; cases ho
  | more h _ ih =>
    cases ho with
    | last ho => rw [h] at ho; cases ho
    | more ho rest => rw [h] at ho; cases ho; exact ih rest

theorem Yields.unique {sg : Segmenter} {ss others : List Segment} (h : sg.Yields ss)
    (ho : sg.Yields others) : ss = others := by
  induction h generalizing others with
  | done h =>
    cases ho with
    | done => rfl
    | last hd _ => cases h.symm.trans hd
    | cons hd _ _ => cases h.symm.trans hd
  | last hd h =>
    cases ho with
    | done ho => cases hd.symm.trans ho
    | last => rfl
    | cons _ ho _ => cases (h.unique ho).1
  | cons hd h _ ih =>
    cases ho with
    | done ho => cases hd.symm.trans ho
    | last _ ho => cases (h.unique ho).1
    | cons _ ho rest =>
      obtain ⟨hs, rfl⟩ := h.unique ho
      rw [Option.some.inj hs, ih rest]

/-! ## What is answered -/

/-- The last item is the end of the text. -/
def Complete (items : List Item) : Prop := ∃ p, items.getLast? = some (.ok (.closing p))

theorem Complete.tail {item : Item} {items : List Item} (h : Complete (item :: items))
    (hend : Lexer.isEnd item = false) : Complete items := by
  obtain ⟨p, hp⟩ := h
  cases items with
  | nil =>
    rw [List.getLast?_singleton] at hp
    rw [Option.some.inj hp] at hend
    cases hend
  | cons next items => exact ⟨p, List.getLast?_cons_cons ▸ hp⟩

variable {lx : Lexer} {items : List Item}

theorem round_token {t : Token} {behind : Lexer} (h : lx.next? = (some (.ok t), behind))
    (hinner : t.kind.closes = false) (gathered : List Item) :
    round lx gathered = .open behind (gathered ++ [.ok t]) := by
  have hterminator : t.kind ≠ .terminator := by
    intro hk
    rw [hk] at hinner
    cases hinner
  have hend : t.kind ≠ .eof := by
    intro hk
    rw [hk] at hinner
    cases hinner
  simp only [round, h, if_neg hterminator, if_neg hend]

/-- What a call comes to. It answers what stands in front of a terminator and leaves the items
behind that, or it answers what stands in front of the end, if that is anything. -/
inductive Gathers (lx : Lexer) (gathered items : List Item) : Prop where
  | terminated {body rest : List Item} {t : Token} {behind : Lexer}
    (split : items = body ++ .ok t :: rest) (inner : ∀ i ∈ body, i.closes = false)
    (kind : t.kind = .terminator) (delivers : behind.Delivers rest) (complete : Complete rest)
    (answers : Answers lx gathered (some ⟨gathered ++ body, t⟩) ⟨behind, false⟩)
  | ended {body : List Item} {t : Token} {behind : Lexer}
    (split : items = body ++ [.ok t]) (inner : ∀ i ∈ body, i.closes = false)
    (kind : t.kind = .eof)
    (answers : Answers lx gathered
      (if (gathered ++ body).isEmpty then none else some ⟨gathered ++ body, t⟩) ⟨behind, true⟩)

/-- A round that goes on adds its item to what is gathered. -/
theorem Gathers.more {next : Lexer} {gathered : List Item} {item : Item}
    (hround : round lx gathered = .open next (gathered ++ [item])) (hinner : item.closes = false)
    (h : Gathers next (gathered ++ [item]) items) : Gathers lx gathered (item :: items) := by
  cases h with
  | @terminated body rest t behind split inner kind delivers complete answers =>
    rw [List.append_assoc, List.singleton_append] at answers
    exact .terminated (congrArg (item :: ·) split) (List.forall_mem_cons.mpr ⟨hinner, inner⟩) kind
      delivers complete (.more hround answers)
  | @ended body t behind split inner kind answers =>
    rw [List.append_assoc, List.singleton_append] at answers
    exact .ended (congrArg (item :: ·) split) (List.forall_mem_cons.mpr ⟨hinner, inner⟩) kind
      (.more hround answers)

/-- **One call** gathers the items in front of a terminator, or in front of the end. -/
theorem gathers_of_delivers (hd : lx.Delivers items) (hc : Complete items)
    (gathered : List Item) : Gathers lx gathered items := by
  induction hd generalizing gathered with
  | nothing =>
    obtain ⟨_, hlast⟩ := hc
    cases hlast
  | @token lx behind t items h rest ih =>
    by_cases hterminator : t.kind = .terminator
    · have hend : Lexer.isEnd (.ok t) = false := by
        rw [Lexer.isEnd, hterminator]
        rfl
      have hround : round lx gathered =
          .answered (some ⟨gathered ++ [], t⟩) ⟨behind, false⟩ := by
        simp only [round, h, if_pos hterminator, List.append_nil]
      have hsplit : .ok t :: items = [] ++ .ok t :: items := rfl
      exact .terminated hsplit (List.forall_mem_nil _) hterminator rest (hc.tail hend) (.last hround)
    by_cases heof : t.kind = .eof
    · have hended : behind.ended = true := by
        obtain ⟨_, _, rfl⟩ := Lexer.readsItem_of_next? h
        exact beq_iff_eq.mpr heof
      obtain rfl : items = [] := rest.eq_nil hended
      have hround : round lx gathered = .answered
          (if (gathered ++ []).isEmpty then none else some ⟨gathered ++ [], t⟩)
          ⟨behind, true⟩ := by
        simp only [round, h, if_neg hterminator, if_pos heof, List.append_nil]
      have hsplit : [(.ok t : Item)] = [] ++ [.ok t] := rfl
      exact .ended hsplit (List.forall_mem_nil _) heof (.last hround)
    have hinner : t.kind.closes = false := by
      cases hk : t.kind <;> first | rfl | contradiction
    have hend : Lexer.isEnd (.ok t) = false := beq_eq_false_iff_ne.mpr heof
    exact .more (round_token h hinner gathered) hinner (ih (hc.tail hend) _)
  | @stray lx behind s items h rest ih =>
    have hround : round lx gathered = .open behind.skipToTerminator (gathered ++ [.error s]) := by
      simp only [round, h]
    exact .more hround rfl (ih (hc.tail rfl) _)

/-- **All calls** yield the segments of what the lexer delivers. The recursion is on the
number of items: each call takes one at least. -/
theorem yields_of_delivers (lx : Lexer) (items : List Item) (hd : lx.Delivers items)
    (hc : Complete items) : (Segmenter.mk lx false).Yields (Segment.ofItems items) := by
  cases gathers_of_delivers hd hc [] with
  | @terminated body rest t behind hitems hbody ht hrest hcomplete hanswers =>
    have hsplit : Segment.ofItems items = ⟨body, t⟩ :: Segment.ofItems rest := by
      have hterminated : (Segment.mk body t).isTerminated = true := beq_iff_eq.mpr ht
      rw [hitems, Segment.ofItems, Segment.split_terminator hbody ht, List.filter_cons_of_pos]
      · rfl
      · rw [hterminated, Bool.true_or]
    rw [hsplit]
    exact .cons rfl hanswers (yields_of_delivers behind rest hrest hcomplete)
  | @ended body t behind hitems hbody ht hanswers =>
    have hterminated : (Segment.mk body t).isTerminated = false := by
      rw [Segment.isTerminated, ht]
      rfl
    rw [hitems, Segment.ofItems, Segment.split_end hbody ht]
    rw [List.nil_append] at hanswers
    by_cases hempty : body.isEmpty = true
    · rw [if_pos hempty] at hanswers
      rw [List.filter_cons_of_neg]
      · exact .last rfl hanswers
      · rw [hterminated, Segment.isBlank, hempty]
        exact Bool.false_ne_true
    · rw [if_neg hempty] at hanswers
      rw [List.filter_cons_of_pos]
      · exact .cons rfl hanswers (.done rfl)
      · rw [Segment.isBlank, Bool.eq_false_iff.mpr hempty]
        exact Bool.or_true _
termination_by items.length
decreasing_by
  rw [hitems]
  simp only [List.length_append, List.length_cons]
  omega

/-- A fresh segmenter yields the segments of its source, and nothing else. -/
theorem yields_iff (source : String) {g : Grammar} (hg : g.NoEmptyWord) (ss : List Segment) :
    (Segmenter.mk (.ofSource source g) false).Yields ss ↔ ss = segments source g := by
  have hdelivers : (Lexer.ofSource source g).Delivers (scan source g) :=
    Lexer.delivers_items hg _ rfl rfl
  have hcomplete : Complete (scan source g) := by
    obtain ⟨front, p, hlast, _⟩ := (tiles_scan source hg).last_eq
    exact ⟨p, by rw [hlast, List.getLast?_concat]⟩
  have hyields := yields_of_delivers _ _ hdelivers hcomplete
  constructor
  · intro h
    exact h.unique hyields
  · rintro rfl
    exact hyields

end Segmenter

/-- **Reading goes on, and comes to an end.** From wherever a walk leads, one reading
answers the end of the text at its end, or moves on, or is a token without characters, for
which an empty spelling must have been registered. Where none is empty, calls of `next?`
with any skips between them answer one item for each character at most, then the end, then
nothing. So the listing, the segments and the analysis are each reached: the lexer delivers
the items that are listed, and a segmenter yields the segments that are judged. -/
theorem reading_ends (source : String) (g : Grammar) :
    (∀ steps : List Step, ∀ lx ∈ ((Walk.ofSource source g).run steps).lexers,
        lx.MovesOn source.toList g lx.read) ∧
      (g.NoEmptyWord →
        (∀ steps : List Step, (∀ s ∈ steps, s.calls = true) →
            ((Walk.ofSource source g).run steps).Ends source.toList (steps.count .next)) ∧
          (∃ items, (Lexer.ofSource source g).Delivers items ∧
            listing source g = endedLines (listingLines items)) ∧
          (∀ ss, (Segmenter.mk (.ofSource source g) false).Yields ss ↔
            ss = segments source g) ∧
          ∃ ss, (Segmenter.mk (.ofSource source g) false).Yields ss ∧
            analyze source g = .ofJudged source (ss.map (Judged.ofSegment g))) := by
  constructor
  · intro steps lx hlx
    exact lx.readsItem_read.movesOn (Walk.countsBytes_run source g steps lx hlx)
  · intro hg
    have hyields := Segmenter.yields_iff source hg
    refine ⟨fun steps hsteps => Walk.ends_of_calls source hg hsteps, ?_, hyields, ?_⟩
    · exact ⟨scan source g, Lexer.delivers_items hg _ rfl rfl, rfl⟩
    · exact ⟨segments source g, (hyields _).mpr rfl, rfl⟩

/-- Two statements of a calculator, the first of them broken. The lexer is called six times,
with a skip behind the stray character and one behind the end, and answers five items. -/
theorem reading_ends_broken :
    Grammar.calculator.NoEmptyWord ∧
      ((Walk.ofSource "1 $ 2:3" .calculator).run
          [.next, .next, .skip, .next, .next, .next, .skip, .next]).Ends "1 $ 2:3".toList 6 ∧
      ((Walk.ofSource "1 $ 2:3" .calculator).run
          [.next, .next, .skip, .next, .next, .next, .skip, .next]).met.length = 5 ∧
      ∀ ss, (Segmenter.mk (.ofSource "1 $ 2:3" .calculator) false).Yields ss ↔
        ss = segments "1 $ 2:3" .calculator := by
  have hg : Grammar.calculator.NoEmptyWord := by decide +kernel
  obtain ⟨hends, _, hyields, _⟩ := (reading_ends "1 $ 2:3" .calculator).2 hg
  refine ⟨hg, ?_, by decide +kernel, hyields⟩
  exact hends [.next, .next, .skip, .next, .next, .next, .skip, .next] (by decide)

end CalcSyntax
