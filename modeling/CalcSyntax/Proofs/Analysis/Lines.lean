import CalcSyntax.Proofs.Analysis.Locality
import CalcSyntax.Proofs.Reading.Answers
import CalcSyntax.Proofs.Segment.Spelled

/-!
# Lines — a text that was put together line by line

Lines in which no terminator begins are cut apart again where they were joined.
Only a blank one at the end is lost: no terminator follows it. Each line says
what it says alone (`lineKind`), and a line says that there is nothing just if
it is blank.

## What is proved

- `pieces_lines` — the pieces of joined lines are the lines.
- `kinds_analyze_lines` — the statements of joined lines are what the lines say.
- `map_isEmpty_kinds`, `map_isEmpty_lines` — which of them are empty.
-/

set_option autoImplicit false

namespace CalcSyntax

/-! ## Cutting lines apart -/

/-- A text without terminators that does not end with half of one. -/
def FitsLine (cs : List Char) : Prop := (∀ c ∈ cs, c ≠ '\n' ∧ c ≠ ':') ∧ cs.getLast? ≠ some '\r'

/-- A line of blanks. -/
def isBlankLine (line : String) : Bool := line.toList.all isBlank

/-- The lines without the last one, if that is blank. -/
def withoutLastBlank (lines : List String) : List String :=
  if lines.getLast?.any isBlankLine then lines.dropLast else lines

theorem withoutLastBlank_cons_cons (line next : String) (lines : List String) :
    withoutLastBlank (line :: next :: lines) = line :: withoutLastBlank (next :: lines) := by
  unfold withoutLastBlank
  rw [List.getLast?_cons_cons, List.dropLast_cons_cons]
  split <;> rfl

/-- Without a blank one at the end no line is left out. -/
theorem withoutLastBlank_eq_self {lines : List String}
    (h : ∀ line ∈ lines.getLast?, isBlankLine line = false) : withoutLastBlank lines = lines := by
  refine if_neg ?_
  cases hlast : lines.getLast? with
  | none => exact Bool.false_ne_true
  | some line =>
    rw [Option.any_some, h line hlast]
    exact Bool.false_ne_true

/-- A blank line at the end is left out. -/
theorem length_withoutLastBlank_lt {lines : List String} {line : String}
    (h : lines.getLast? = some line) (hblank : isBlankLine line = true) :
    (withoutLastBlank lines).length < lines.length := by
  have hpos : 0 < lines.length := List.length_pos_iff.mpr fun hnil => by rw [hnil] at h; cases h
  rw [withoutLastBlank, h, Option.any_some, if_pos hblank, List.length_dropLast]
  omega

theorem length_withoutLastBlank_iff {lines : List String} :
    (withoutLastBlank lines).length = lines.length ↔
      ∀ line ∈ lines.getLast?, isBlankLine line = false := by
  constructor
  · intro hlength line hlast
    refine Bool.eq_false_iff.mpr fun hblank => ?_
    have hlt := length_withoutLastBlank_lt hlast hblank
    omega
  · intro h
    rw [withoutLastBlank_eq_self h]

/-- A line that is not blank stays where it is. -/
theorem getElem?_withoutLastBlank {lines : List String} {line : String} {i : Nat}
    (h : lines[i]? = some line) (hblank : isBlankLine line = false) :
    (withoutLastBlank lines)[i]? = some line := by
  unfold withoutLastBlank
  split
  · next hlast =>
    rw [List.getElem?_dropLast]
    obtain ⟨hi, _⟩ := List.getElem?_eq_some_iff.mp h
    by_cases hend : i < lines.length - 1
    · rw [if_pos hend, h]
    · obtain rfl : i = lines.length - 1 := by omega
      rw [List.getLast?_eq_getElem?, h, Option.any_some, hblank] at hlast
      cases hlast
  · exact h

theorem FitsLine.seals {cs r : List Char} (h : FitsLine cs)
    (hr : ∀ c ∈ r.head?, isBreak c = true) : Seals cs r :=
  ⟨h.1, fun hl => absurd hl h.2, hr⟩

/-- **The pieces of joined lines are the lines**, up to a blank one at the end. -/
theorem pieces_lines {lines : List String} (h : ∀ line ∈ lines, FitsLine line.toList)
    (before : List Char) :
    (piecesFrom before [] ("\n".intercalate lines).toList).map Piece.source =
      withoutLastBlank lines := by
  induction lines generalizing before with
  | nil => rfl
  | cons line lines ih =>
    obtain ⟨hline, hlines⟩ := List.forall_mem_cons.mp h
    have hsource (b : List Char) : Piece.source ⟨b, line.toList⟩ = line := String.ofList_toList
    cases lines with
    | nil =>
      have hcut := piecesFrom_append (hline.seals (r := []) nofun) before []
      rw [List.append_nil, List.nil_append] at hcut
      rw [String.intercalate_singleton, hcut, piecesFrom]
      by_cases hblank : line.toList.all isBlank = true
      · have hlast : withoutLastBlank [line] = [] := if_pos hblank
        rw [if_pos hblank, hlast, List.map_nil]
      · have hlast : withoutLastBlank [line] = [line] := if_neg hblank
        rw [if_neg hblank, hlast, List.map_singleton, hsource]
    | cons next lines =>
      have hcut := piecesFrom_append (hline.seals
        (r := '\n' :: ("\n".intercalate (next :: lines)).toList)
        (fun c hc => (Option.some.inj hc) ▸ rfl)) before []
      rw [piecesFrom_break (.inl rfl), List.nil_append] at hcut
      rw [String.intercalate_cons_cons, String.toList_append, String.toList_append,
        List.append_assoc, withoutLastBlank_cons_cons]
      exact (congrArg (List.map Piece.source) hcut).trans
        (List.cons_eq_cons.mpr ⟨hsource before, ih hlines _⟩)

/-! ## What a line says -/

/-- What a line says alone: its statement, or that there is nothing. -/
def lineKind (g : Grammar) (line : String) : StatementKind :=
  (analyze line g).program.kinds.headD .empty

variable {g : Grammar} {text : List Char} {p : Piece} {own s : Segment}

/-- A piece says what it says alone. -/
theorem kinds_of_becomes (h : p.Becomes g text own s) :
    (p.analysis g).program.kinds = [lineKind g p.source] := by
  cases hb : p.isBlank with
  | true =>
    have hfilter : segments p.source g = [] := by
      rw [segments, Segment.ofItems, h.alone, List.filter_cons_of_neg, List.filter_nil]
      rw [h.untouched, h.blank, hb]
      exact Bool.false_ne_true
    rw [Piece.analysis, hb, lineKind, analyze, judge, hfilter]
    rfl
  | false =>
    obtain ⟨st, hst, _⟩ := Piece.one_statement h
    have hkinds : (p.analysis g).program.kinds = [st.kind] := by
      rw [Program.kinds, hst, List.map_singleton]
    rw [Piece.analysis, hb, if_neg Bool.false_ne_true, Analysis.kinds_shift] at hkinds ⊢
    rw [lineKind, hkinds]
    rfl

/-- The statements of a source are what its pieces say. -/
theorem kinds_analyze (hk : g.KeepsLines) (source : String) :
    (analyze source g).program.kinds = (pieces source).map fun p => lineKind g p.source := by
  rw [analyze_eq_pieces hk, Program.kinds, List.map_flatMap, List.map_eq_flatMap]
  refine flatMap_eq_of_forall₂ (List.forall₂_same.mpr ?_)
  intro p hp
  obtain ⟨own, s, h⟩ := becomes_of_mem hk hp
  exact kinds_of_becomes h

/-- **The statements of joined lines are what the lines say**, up to a blank line at the
end. -/
theorem kinds_analyze_lines (hk : g.KeepsLines) {lines : List String}
    (h : ∀ line ∈ lines, FitsLine line.toList) :
    (analyze ("\n".intercalate lines) g).program.kinds =
      (withoutLastBlank lines).map (lineKind g) := by
  rw [kinds_analyze hk, ← pieces_lines h [], List.map_map]
  rfl

/-- A line of blanks says nothing. -/
theorem kinds_analyze_blank (hk : g.KeepsLines) {line : String} (h : FitsLine line.toList)
    (hblank : isBlankLine line = true) : (analyze line g).program.kinds = [] := by
  have hkinds := kinds_analyze_lines hk (List.forall_mem_singleton.mpr h)
  rwa [String.intercalate_singleton, show withoutLastBlank [line] = [] from if_pos hblank] at hkinds

/-- What is read from tokens is not empty. -/
theorem isEmpty_of_readStatement {tokens : List Token} {closing : Span} {k : StatementKind}
    (h : readStatement g tokens closing = .ok k) (hne : tokens ≠ [])
    (hinner : ∀ t ∈ tokens, t.kind.closes = false) : k.isEmpty = false := by
  cases readsStatement_of_readStatement h with
  | empty ends =>
    obtain ⟨t, ts, rfl⟩ := List.exists_cons_of_ne_nil hne
    have hend : t.kind = .eof := ends t rfl
    have hclosed := hinner t List.mem_cons_self
    rw [hend] at hclosed
    cases hclosed
  | command _ _ _ => rfl
  | expression _ _ _ => rfl

/-- A segment that holds something says something. -/
theorem Segment.isEmpty_kind (text : List Char) (hne : s.items ≠ [])
    (hinner : ∀ i ∈ s.items, i.closes = false) :
    ((Judged.ofSegment g s).stmt text).kind.isEmpty = false := by
  simp only [Judged.stmt, Judged.ofSegment]
  cases hv : s.verdict g with
  | error d => rfl
  | ok k =>
    refine isEmpty_of_readStatement (readStatement_of_verdict hv) ?_ ?_
    · obtain ⟨i, rest, hitems⟩ := List.exists_cons_of_ne_nil hne
      cases i with
      | error c =>
        -- the verdict would be about the stray character
        rw [verdict, stray?, hitems] at hv
        cases hv
      | ok t =>
        rw [tokens, hitems]
        exact List.cons_ne_nil _ _
    · intro t ht
      obtain ⟨i, hi, hit⟩ := List.mem_filterMap.mp ht
      cases i with
      | error c => cases hit
      | ok u =>
        obtain rfl : u = t := Option.some.inj hit
        exact hinner _ hi

/-- **A piece says that there is nothing just if it is blank.** -/
theorem isEmpty_lineKind (hk : g.KeepsLines) (h : p.Becomes g text own s) :
    (lineKind g p.source).isEmpty = p.isBlank := by
  have hkinds := kinds_of_becomes h
  rw [Piece.analysis_of_becomes h] at hkinds
  have hkind : ((Judged.ofSegment g s).stmt text).kind = lineKind g p.source :=
    (List.cons.inj hkinds).1
  rw [← hkind]
  have hblank : own.items.isEmpty = p.isBlank := h.blank
  cases hb : p.isBlank with
  | true =>
    have hitems : s.items = [] := by
      rw [h.moved.items, List.isEmpty_iff.mp (hblank.trans hb), List.map_nil]
    have hverdict := Piece.verdict_of_blank g (s := s) (List.isEmpty_iff.mpr hitems)
    simp only [Judged.stmt, Judged.ofSegment, hverdict]
    rfl
  | false =>
    obtain ⟨items, hread, hown⟩ := h.exists_readsAs hk (seals_end h.clear) rfl p.distance
    have hitems : s.items = items.map (Item.relocate (Span.shift p.distance)) := by
      rw [h.moved.items, hown]
    refine Segment.isEmpty_kind text ?_ (hitems ▸ hread.inner_relocate _)
    rw [hitems]
    intro hnil
    rw [hown, List.map_eq_nil_iff.mp hnil, hb] at hblank
    cases hblank

/-- The empty statements of a source are its blank pieces. -/
theorem map_isEmpty_kinds (hk : g.KeepsLines) (source : String) :
    (analyze source g).program.kinds.map StatementKind.isEmpty =
      (pieces source).map Piece.isBlank := by
  rw [kinds_analyze hk, List.map_map]
  refine List.map_congr_left fun p hp => ?_
  obtain ⟨own, s, h⟩ := becomes_of_mem hk hp
  exact isEmpty_lineKind hk h

/-- **The empty statements of joined lines are the blank lines**, up to one at the end. -/
theorem map_isEmpty_lines (hk : g.KeepsLines) {lines : List String}
    (h : ∀ line ∈ lines, FitsLine line.toList) :
    (analyze ("\n".intercalate lines) g).program.kinds.map StatementKind.isEmpty =
      (withoutLastBlank lines).map isBlankLine := by
  have hblank (p : Piece) : p.isBlank = isBlankLine p.source := by
    rw [Piece.isBlank, isBlankLine, Piece.source, String.toList_ofList]
  rw [map_isEmpty_kinds hk, ← pieces_lines h [], List.map_map]
  exact List.map_congr_left fun p _ => hblank p

end CalcSyntax
