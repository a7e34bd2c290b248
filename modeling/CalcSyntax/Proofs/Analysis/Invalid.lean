import CalcSyntax.Proofs.Analysis.Diagnostics
import CalcSyntax.Proofs.Analysis.Program
import CalcSyntax.Proofs.Token.Kept

/-!
# Invalid — a broken statement is read again

The text of a broken statement begins behind the blanks in front of it and is
kept without the white space at its end (`Piece.kept`). Read alone it has the
items of the statement, except that a stray character of the white space is
missing. So it is refused again and in the same words (`IsRefusedAlike`), unless
it was refused for just that character.

What is kept holds no terminator and is blank only if it is empty. It therefore
stands on a line of its own in the text of the program.

## What is proved

- `Piece.isRefusedAlike_kept_iff` — one broken piece.
- `fitsLine_of_mem_program` — every statement stands on a line.
- `isRefusedAlike_iff` — the broken statements of a source, alone and in the text
  of the program.
-/

set_option autoImplicit false

namespace CalcSyntax

theorem Grammar.Compact.noEmptyWord {g : Grammar} (h : g.Compact) : g.NoEmptyWord :=
  fun s hs => (h s hs).1

/-! ## What is kept of a piece -/

namespace Piece

variable {g : Grammar} {text space : List Char} {p : Piece} {own s : Segment}

/-- What is kept of a piece that is no statement: its text without the blanks in front and
without the white space at the end. -/
def kept (p : Piece) : List Char := trimEnd p.body

/-- How far what is kept stands from the beginning of the piece. -/
def indent (p : Piece) : Distance :=
  ⟨byteLength (leadingBlanks p.text), 0, (leadingBlanks p.text).length⟩

theorem leadingBlanks_append_body (p : Piece) : leadingBlanks p.text ++ p.body = p.text :=
  leadingBlanks_append_drop p.text

theorem mem_of_mem_kept {c : Char} (h : c ∈ p.kept) : c ∈ p.text := by
  rw [← p.leadingBlanks_append_body]
  exact List.mem_append_right _ ((List.rdropWhile_prefix isWhiteSpace p.body).subset h)

/-- Either nothing is kept, or the first character is no blank. -/
theorem kept_eq_nil_or_cons (hclear : ∀ c ∈ p.text, c ≠ '\n' ∧ c ≠ ':') :
    p.kept = [] ∨ ∃ c cs, p.kept = c :: cs ∧ CalcSyntax.isBlank c = false := by
  rcases blank_or_split p.text with hb | ⟨b, c, q, hsplit, hb, hc⟩
  · exact .inl (by rw [kept, body_of_blank hb]; rfl)
  have hmem : c ∈ p.text := by
    rw [hsplit]
    exact List.mem_append_right _ List.mem_cons_self
  have hbody := body_of_split hsplit hb hc (hclear c hmem).1
  have hprefix : p.kept <+: p.body := List.rdropWhile_prefix isWhiteSpace p.body
  cases hkept : p.kept with
  | nil => exact .inl rfl
  | cons d ds =>
    rw [hbody, hkept, List.cons_prefix_cons] at hprefix
    exact .inr ⟨d, ds, rfl, hprefix.1 ▸ hc⟩

theorem not_blank_of_getLast?_kept : ∀ c ∈ p.kept.getLast?, CalcSyntax.isBlank c = false := by
  intro c hc
  refine Bool.eq_false_iff.mpr ?_
  intro hblank
  have hnot := not_whiteSpace_of_getLast? hc
  rw [isWhiteSpace_of_isBlank hblank] at hnot
  cases hnot

/-- What is kept stands on a line, which is blank only if nothing is kept. -/
theorem fitsLine_kept (hclear : ∀ c ∈ p.text, c ≠ '\n' ∧ c ≠ ':') :
    FitsLine p.kept ∧ (p.kept.all CalcSyntax.isBlank = true ↔ p.kept = []) := by
  refine ⟨⟨fun c hc => hclear c (mem_of_mem_kept hc), ?_⟩, ?_⟩
  · intro hlast
    cases not_blank_of_getLast?_kept _ hlast
  · rcases kept_eq_nil_or_cons hclear with hnil | ⟨c, cs, hkept, hc⟩
    · exact iff_of_true (by rw [hnil]; rfl) hnil
    · refine iff_of_false ?_ (by rw [hkept]; exact List.cons_ne_nil c cs)
      rw [hkept, List.all_cons, hc]
      exact Bool.false_ne_true

/-- Behind its blanks, the lexer of a piece reads what is kept with the white space behind
it. -/
theorem items_within_indent (h : p.kept ++ space = p.body) :
    ((Lexer.ofText p.kept g.lexicon).within p.indent space).items true =
      (p.lexer g).items true := by
  have hfront : (Cursor.ofText p.kept).within p.indent space = (p.lexer g).front := by
    have hrest : p.kept ++ space = p.text.drop (leadingBlanks p.text).length := h
    simp only [Cursor.within, Cursor.ofText, Lexer.front, lexer, Lexer.ofText, Cursor.pass, indent,
      Nat.zero_add, Nat.add_zero, hrest]
  rw [Lexer.within, show (Lexer.ofText p.kept g.lexicon).cursor = Cursor.ofText p.kept from rfl,
    hfront, ← (p.lexer g).items_front]
  exact Lexer.items_text true { p.lexer g with cursor := (p.lexer g).front } p.kept

/-- The items of a piece are those of what is kept of it, and perhaps a stray character
of the white space behind it. -/
theorem exists_readsKept (hg : g.Compact) (h : p.Becomes g text own s) :
    ∃ space body extra,
      (Lexer.ofText p.kept g.lexicon).ReadsKept p.indent space body extra ∧
        own.items = body.map (Item.relocate (Span.shift p.indent)) ++ extra := by
  obtain ⟨space, hkept, hspace⟩ := exists_trimmed p.body
  have hline : Lexer.IsSpace space := by
    intro c hc
    refine ⟨hspace c hc, (h.clear c ?_).1⟩
    rw [← p.leadingBlanks_append_body, ← hkept]
    exact List.mem_append_right _ (List.mem_append_right _ hc)
  obtain ⟨body, extra, hread⟩ := Lexer.exists_readsKept (.ofText p.kept g.lexicon) hg rfl
    (fun c hc => h.clear c (mem_of_mem_kept hc)) not_blank_of_getLast?_kept p.indent hline
  refine ⟨space, body, extra, hread, ?_⟩
  obtain ⟨stop, hwithin⟩ := hread.within
  have hscan : scan p.source g = (p.lexer g).items true := by
    rw [scan, Lexer.ofSource, source, String.toList_ofList, lexer]
  have hinner : ∀ i ∈ body.map (Item.relocate (Span.shift p.indent)) ++ extra,
      i.closes = false := by
    refine List.forall_mem_append.mpr ⟨List.forall_mem_map.mpr fun i hi => ?_, ?_⟩
    · rw [Item.closes_relocate]
      exact hread.inner i hi
    · rcases hread.behind with rfl | ⟨_, c, rfl, _⟩
      · exact List.forall_mem_nil _
      · exact List.forall_mem_singleton.mpr rfl
  have hsplit := h.alone
  rw [hscan, ← items_within_indent hkept, hwithin, ← List.append_assoc,
    Segment.split_end hinner rfl] at hsplit
  exact congrArg Segment.items (List.cons.inj hsplit).1.symm

/-- A segment begins behind the blanks in front of its piece. -/
theorem start_span_of_becomes (hk : g.KeepsLines) (h : p.Becomes g text own s) :
    own.span.start = byteLength (leadingBlanks p.text) := by
  obtain ⟨items, hread, hown⟩ := h.exists_readsAs hk (seals_end h.clear) rfl p.distance
  exact (span_alone hread (congrArg Segment.items hown) (congrArg Segment.stop hown)).1

/-- What is kept of a piece is a piece of its own, and all of that is kept. -/
theorem becomes_kept (hk : g.KeepsLines) (hclear : ∀ c ∈ p.text, c ≠ '\n' ∧ c ≠ ':')
    (hne : p.kept ≠ []) :
    ∃ own s, Becomes g p.kept ⟨[], p.kept⟩ own s ∧ (Piece.mk [] p.kept).isBlank = false ∧
      trimEnd p.body = trimEnd (Piece.mk [] p.kept).body := by
  obtain ⟨hfits, hblank⟩ := fitsLine_kept hclear
  have hcut := piecesFrom_append (hfits.seals (r := []) nofun) [] []
  rw [List.append_nil, List.nil_append, piecesFrom, if_neg (mt hblank.mp hne)] at hcut
  have hmem : Piece.mk [] p.kept ∈ pieces (String.ofList p.kept) := by
    rw [pieces, String.toList_ofList, hcut]
    exact List.mem_cons_self
  obtain ⟨own, s, h⟩ := becomes_of_mem hk hmem
  rw [String.toList_ofList] at h
  refine ⟨own, s, h, Bool.eq_false_iff.mpr (mt hblank.mp hne), ?_⟩
  obtain ⟨c, cs, hkept, hc⟩ := (kept_eq_nil_or_cons hclear).resolve_left hne
  have hbody : (Piece.mk [] p.kept).body = p.kept := by
    rw [body, hkept, leadingBlanks_of_not_blank hc]
    rfl
  rw [hbody]
  exact (trimEnd_trimEnd p.body).symm

end Piece

/-! ## Where no character is stray -/

/-- Where no character is stray, no diagnostic is about one. -/
theorem kind_of_mem_diagnostics {g : Grammar} {source : String}
    (h : ∀ i ∈ scan source g, i.stray? = none) :
    ∀ d ∈ (analyze source g).diagnostics, d.kind = .syntactic := by
  intro d hd
  obtain ⟨j, hj, hdiagnostic⟩ := List.mem_filterMap.mp hd
  obtain ⟨s, hs, rfl⟩ := List.mem_map.mp hj
  obtain ⟨e, hverdict, rfl⟩ := Judged.diagnostic?_eq_some hdiagnostic
  rcases Segment.stray_or_fault_of_verdict_error hverdict with ⟨c, hc, _⟩ | ⟨fault, _, rfl⟩
  · cases h _ (Segment.mem_of_mem_split _ s (mem_split_of_mem_segments hs) _ hc)
  · exact fault.kind_report

/-! ## Reading again what is kept -/

/-- The text is read as one invalid statement that holds all of it, and refused in the same
words: one diagnostic, of that family and with that message. -/
def IsRefusedAlike (g : Grammar) (text : String) (d : Diagnostic) : Prop :=
  ∃ again, (analyze text g).program.kinds = [.invalid text] ∧
    (analyze text g).diagnostics = [again] ∧ again.kind = d.kind ∧ again.message = d.message

namespace Piece

variable {g : Grammar} {text space : List Char} {p : Piece} {own s : Segment} {e : Diagnostic}
  {body extra : List Item}

theorem scan_kept (hread : (Lexer.ofText p.kept g.lexicon).ReadsKept p.indent space body extra) :
    scan (String.ofList p.kept) g =
      body ++ [.ok (.closing (Lexer.ofText p.kept g.lexicon).stop)] := by
  rw [scan, Lexer.ofSource, String.toList_ofList]
  exact hread.alone

/-- Of a piece that is no statement something is kept, unless it has items behind that. -/
theorem kept_ne_nil
    (hread : (Lexer.ofText p.kept g.lexicon).ReadsKept p.indent space body [])
    (hitems : own.items = body.map (Item.relocate (Span.shift p.indent)))
    (hverdict : own.verdict g = .error e) : p.kept ≠ [] := by
  intro hnil
  have halone := hread.alone
  rw [hnil, Lexer.items_end (.ofText [] g.lexicon) true (b := []) rfl rfl] at halone
  have hlength := congrArg List.length halone
  rw [List.length_append, List.length_singleton, List.length_singleton] at hlength
  have hbody : body = [] := List.length_eq_zero_iff.mp (by omega)
  rw [hbody] at hitems
  rw [verdict_of_blank g (List.isEmpty_iff.mpr hitems)] at hverdict
  cases hverdict

/-- **What is kept is refused alike**, if nothing is read behind it. -/
theorem isRefusedAlike_of_readsKept (hk : g.KeepsLines) (h : p.Becomes g text own s)
    (hread : (Lexer.ofText p.kept g.lexicon).ReadsKept p.indent space body [])
    (hitems : own.items = body.map (Item.relocate (Span.shift p.indent)))
    (hverdict : own.verdict g = .error e) : IsRefusedAlike g (String.ofList p.kept) e := by
  obtain ⟨own', s', h', hblank, htrim⟩ :=
    becomes_kept hk h.clear (kept_ne_nil hread hitems hverdict)
  have hown' : own'.items = body := by
    have hsplit := h'.alone
    rw [show (Piece.mk [] p.kept).source = String.ofList p.kept from rfl, scan_kept hread,
      Segment.split_end hread.inner rfl] at hsplit
    exact congrArg Segment.items (List.cons.inj hsplit).1.symm
  have hnowhere : (own.items.map (Item.relocate nowhere)) = body.map (Item.relocate nowhere) := by
    rw [hitems, List.map_map]
    refine List.map_congr_left fun i _ => ?_
    cases i <;> rfl
  have hsame : (p.analysis g).SameWords ((Piece.mk [] p.kept).analysis g) :=
    sameWords_of_moved h h' (m := ⟨body.map (Item.relocate nowhere), .closing .origin⟩)
      (φ := nowhere) ⟨hnowhere.symm, rfl⟩ ⟨by rw [hown'], rfl⟩ htrim
  have hagain : ((Piece.mk [] p.kept).analysis g).SameWords
      (analyze (String.ofList p.kept) g) := by
    rw [analysis, hblank]
    exact Analysis.sameWords_shift _ _
  have hmoved : s.verdict g = .error (e.relocate (Span.shift p.distance)) := by
    rw [Segment.verdict_moved g h.moved, hverdict]
    rfl
  have hkinds := hsame.1.trans hagain.1
  have hdiagnostics := hsame.2.trans hagain.2
  rw [analysis_of_becomes h] at hkinds hdiagnostics
  simp only [Program.kinds, List.map_cons, List.map_nil, Judged.stmt, Judged.ofSegment, hmoved,
    h.raw] at hkinds
  simp only [Judged.diagnostic?, Judged.ofSegment, hmoved, Option.toList_some, List.map_cons,
    List.map_nil] at hdiagnostics
  obtain ⟨again, hagain, hwording⟩ := List.map_eq_singleton_iff.mp hdiagnostics.symm
  refine ⟨again, hkinds.symm, hagain, ?_, ?_⟩
  · exact congrArg Prod.fst hwording
  · exact congrArg (fun w => w.2.2.1) hwording

/-- A stray character of what is kept stands in front of its end. -/
theorem start_lt_of_mem (hg : g.Compact)
    (hread : (Lexer.ofText p.kept g.lexicon).ReadsKept p.indent space body extra) {c : Stray}
    (hc : .error c ∈ body) : c.span.start < byteLength p.kept := by
  have hmem : .error c ∈ scan (String.ofList p.kept) g := by
    rw [scan_kept hread]
    exact List.mem_append_left _ hc
  have hzero : 0 = byteLength [] := rfl
  have hcovers := (tiles_scan (String.ofList p.kept) hg.noEmptyWord).covers hzero _ hmem
  rw [String.toList_ofList, List.nil_append] at hcovers
  exact hcovers.start_lt (List.cons_ne_nil _ _)

/-- The first stray character of a segment is what is said about it. -/
theorem verdict_of_stray {c : Stray} {front rest : List Item}
    (hitems : own.items = front ++ .error c :: rest) (hfront : ∀ i ∈ front, i.stray? = none) :
    own.verdict g = .error c.report := by
  have hstray : own.stray? = some c := by
    rw [Segment.stray?, hitems, List.findSome?_append, List.findSome?_eq_none_iff.mpr hfront]
    rfl
  rw [Segment.verdict, hstray]

/-- A broken piece with nothing to read behind what is kept was refused within that. -/
theorem start_lt_of_lexical (hg : g.Compact)
    (hread : (Lexer.ofText p.kept g.lexicon).ReadsKept p.indent space body extra)
    (hitems : own.items = body.map (Item.relocate (Span.shift p.indent)))
    (hverdict : own.verdict g = .error e) (hlexical : e.kind = .lexical) :
    e.span.start < byteLength (leadingBlanks p.text) + byteLength p.kept := by
  rcases Segment.stray_or_fault_of_verdict_error hverdict with ⟨c, hc, rfl⟩ | ⟨fault, _, rfl⟩
  · rw [hitems] at hc
    obtain ⟨i, hi, hmoved⟩ := List.mem_map.mp hc
    cases i with
    | ok t => cases hmoved
    | error d =>
      obtain rfl : d.relocate (Span.shift p.indent) = c := Except.error.inj hmoved
      rw [Stray.span_report]
      exact Nat.add_lt_add_left (start_lt_of_mem hg hread hi) _
  · rw [fault.kind_report] at hlexical
    cases hlexical

/-- Where what is kept has no stray character, it is not refused for one. -/
theorem not_isRefusedAlike_of_lexical
    (hread : (Lexer.ofText p.kept g.lexicon).ReadsKept p.indent space body extra)
    (hnone : ∀ i ∈ body, i.stray? = none) (hlexical : e.kind = .lexical) :
    ¬ IsRefusedAlike g (String.ofList p.kept) e := by
  rintro ⟨again, _, hagain, hkind, _⟩
  have hscan : ∀ i ∈ scan (String.ofList p.kept) g, i.stray? = none := by
    rw [scan_kept hread]
    exact List.forall_mem_append.mpr ⟨hnone, List.forall_mem_singleton.mpr rfl⟩
  have hsyntactic := kind_of_mem_diagnostics hscan again (hagain ▸ List.mem_cons_self)
  rw [hkind, hlexical] at hsyntactic
  cases hsyntactic

/-- **What is kept of a broken piece is refused alike**, unless it was refused for a stray
character behind that. -/
theorem isRefusedAlike_kept_iff (hg : g.Compact) (h : p.Becomes g text own s)
    (hverdict : own.verdict g = .error e) :
    IsRefusedAlike g (String.ofList p.kept) e ↔
      (e.kind = .lexical → e.span.start < own.span.start + byteLength p.kept) := by
  rw [start_span_of_becomes hg.keepsLines h]
  obtain ⟨space, body, extra, hread, hitems⟩ := exists_readsKept hg h
  rcases hread.behind with rfl | ⟨hnone, c, rfl, hle⟩
  · rw [List.append_nil] at hitems
    exact iff_of_true (isRefusedAlike_of_readsKept hg.keepsLines h hread hitems hverdict)
      (start_lt_of_lexical hg hread hitems hverdict)
  · have hmoved : ∀ i ∈ body.map (Item.relocate (Span.shift p.indent)), i.stray? = none := by
      refine List.forall_mem_map.mpr fun i hi => ?_
      have hi := hnone i hi
      cases i with
      | ok t => rfl
      | error d => cases hi
    obtain rfl : c.report = e :=
      Except.error.inj ((verdict_of_stray hitems hmoved).symm.trans hverdict)
    have hlexical : c.report.kind = .lexical := by
      unfold Stray.report
      split <;> rfl
    refine iff_of_false (not_isRefusedAlike_of_lexical hread hnone hlexical) ?_
    intro hlt
    have hlt := hlt hlexical
    rw [Stray.span_report] at hlt
    have hle : byteLength (leadingBlanks p.text) + (0 + byteLength p.kept) ≤ c.span.start := hle
    omega

end Piece

/-! ## The statements of a source -/

section Source

variable {source : String} {g : Grammar}

/-- A segment of a source is the segment of a piece. -/
theorem exists_piece_of_mem (hk : g.KeepsLines) {s : Segment} (hs : s ∈ segments source g) :
    ∃ p own, Piece.Becomes g source.toList p own s := by
  obtain ⟨i, hi, rfl⟩ := List.mem_iff_get.mp hs
  have hpieces := segments_pieces hk source
  obtain ⟨own, h⟩ := hpieces.get (by rw [hpieces.length_eq]; exact i.2) i.2
  exact ⟨_, own, h⟩

/-- No two segments have the same span. -/
theorem eq_of_span_eq (hg : g.NoEmptyWord) {s r : Segment} (hs : s ∈ segments source g)
    (hr : r ∈ segments source g) (h : s.span = r.span) : s = r := by
  have happart : (segments source g).Pairwise fun s r => s.span ≠ r.span := by
    refine (segments_pairwise source hg).imp_of_mem fun {s r} hs _ hlt heq => ?_
    have hle := (placed_of_mem_segments hg hs).isBoundary.1
    rw [← heq] at hlt
    omega
  exact List.Pairwise.forall_of_forall_of_flip (R := fun s r => s.span = r.span → s = r)
    (fun _ _ _ => rfl) (happart.imp fun hne heq => absurd heq hne)
    (happart.imp fun hne heq => absurd heq.symm hne) hs hr h

/-- The diagnostic of a statement is that of its segment. -/
theorem diagnostic?_of_mem (hg : g.NoEmptyWord) {s : Segment} (hs : s ∈ segments source g)
    {d : Diagnostic} (hd : d ∈ (analyze source g).diagnostics)
    (hspan : d.statement = some s.span) : (Judged.ofSegment g s).diagnostic? = some d := by
  obtain ⟨j, hj, hdiagnostic⟩ := List.mem_filterMap.mp hd
  obtain ⟨r, hr, rfl⟩ := List.mem_map.mp hj
  have hrspan := (within_of_mem_segments hg hr hdiagnostic).1
  rwa [eq_of_span_eq hg hs hr (Option.some.inj (hspan.symm.trans hrspan))]

/-- What is kept of a broken statement is refused alike, unless it was refused for a stray
character behind that. -/
theorem isRefusedAlike_iff_of_mem (hg : g.Compact) {s : Segment} (hs : s ∈ segments source g)
    {d : Diagnostic} (hd : (Judged.ofSegment g s).diagnostic? = some d) :
    IsRefusedAlike g (s.rawText source.toList) d ↔
      (d.kind = .lexical →
        d.span.start < s.span.start + byteLength (s.rawText source.toList).toList) := by
  obtain ⟨p, own, h⟩ := exists_piece_of_mem hg.keepsLines hs
  have hraw : s.rawText source.toList = String.ofList p.kept := h.raw
  obtain ⟨e', hverdict', rfl⟩ := Judged.diagnostic?_eq_some hd
  have hmoved := Segment.verdict_moved g h.moved
  have hspan : s.span.start = p.distance.bytes + own.span.start :=
    congrArg Span.start (Segment.span_moved h.moved)
  cases hverdict : own.verdict g with
  | ok k =>
    rw [hverdict] at hmoved
    cases hverdict'.symm.trans hmoved
  | error e =>
    rw [hverdict] at hmoved
    obtain rfl : e' = e.relocate (Span.shift p.distance) :=
      Except.error.inj (hverdict'.symm.trans hmoved)
    have hlt : e.span.start < own.span.start + byteLength p.kept ↔
        p.distance.bytes + e.span.start <
          p.distance.bytes + own.span.start + byteLength p.kept := by
      omega
    rw [hraw, String.toList_ofList, hspan]
    exact (Piece.isRefusedAlike_kept_iff hg h hverdict).trans (imp_congr_right fun _ => hlt)

/-- A statement stands on a line, which is blank only if the statement is empty or nothing
was kept of it. -/
theorem fitsLine_of_mem_program {k : StatementKind}
    (h : k ∈ (analyze source .calculator).program.kinds) :
    FitsLine k.source.toList ∧ (isBlankLine k.source = true ↔ k = .empty ∨ k = .invalid "") := by
  obtain ⟨st, hst, rfl⟩ := List.mem_map.mp h
  obtain ⟨s, hs, rfl⟩ := exists_segment_of_mem hst
  rcases readStatement_or_invalid .calculator source.toList s with hread | ⟨_, hinvalid⟩
  · have hreadable := readable_of_readStatement (spelled_of_mem_segments hs) hread
    have hvalid := isInvalid_of_readStatement hread
    obtain ⟨hfits, hblank⟩ := fitsLine_source hreadable
    refine ⟨hfits, hblank.trans (or_iff_left ?_).symm⟩
    intro hempty
    rw [hempty] at hvalid
    cases hvalid
  · obtain ⟨p, own, hp⟩ := exists_piece_of_mem Grammar.keepsLines_calculator hs
    obtain ⟨hfits, hblank⟩ := Piece.fitsLine_kept hp.clear
    have hraw : s.rawText source.toList = String.ofList p.kept := hp.raw
    have hlist : (StatementKind.invalid (String.ofList p.kept)).source.toList = p.kept :=
      String.toList_ofList
    rw [hinvalid, hraw, isBlankLine, hlist, hblank]
    refine ⟨hfits, ?_⟩
    constructor
    · intro hnil
      rw [hnil]
      exact .inr rfl
    · rintro (hempty | hinvalid)
      · cases hempty
      · exact String.ofList_eq_empty_iff.mp (StatementKind.invalid.inj hinvalid)

/-- A statement that is refused alike stays broken in the text of the whole program. -/
theorem getElem?_reread_of_isRefusedAlike {i : Nat} {text : String} {d : Diagnostic}
    (hi : (analyze source .calculator).program.kinds[i]? = some (.invalid text))
    (h : IsRefusedAlike .calculator text d) :
    (analyze (analyze source .calculator).program.source .calculator).program.kinds[i]? =
      some (.invalid text) := by
  have hk := Grammar.keepsLines_calculator
  obtain ⟨_, hkinds, _⟩ := h
  have hfits : FitsLine text.toList := (fitsLine_of_mem_program (List.mem_of_getElem? hi)).1
  have hblank : isBlankLine text = false := by
    refine Bool.eq_false_iff.mpr ?_
    intro hblank
    rw [kinds_analyze_blank hk hfits hblank] at hkinds
    cases hkinds
  have hline : ((analyze source .calculator).program.kinds.map StatementKind.source)[i]? =
      some text := by
    rw [List.getElem?_map, hi]
    rfl
  rw [Program.source, kinds_analyze_lines hk, List.getElem?_map,
    getElem?_withoutLastBlank hline hblank, Option.map_some, lineKind, hkinds]
  · rfl
  · exact List.forall_mem_map.mpr fun k hk => (fitsLine_of_mem_program hk).1

end Source

/-- **A broken statement is refused alike when its text is read alone**, unless it was refused
for a stray character in the white space that is not kept. A statement that is refused alike
is so in the text of the whole program: it stays broken, at its place and with its text. -/
theorem isRefusedAlike_iff (source : String) :
    (∀ st ∈ (analyze source .calculator).program.statements, ∀ text, st.kind = .invalid text →
      (∃ d ∈ (analyze source .calculator).diagnostics, d.statement = some st.span) ∧
        ∀ d ∈ (analyze source .calculator).diagnostics, d.statement = some st.span →
          (IsRefusedAlike .calculator text d ↔
            (d.kind = .lexical → d.span.start < st.span.start + byteLength text.toList))) ∧
      ∀ (i : Nat) (text : String) (d : Diagnostic),
        (analyze source .calculator).program.kinds[i]? = some (.invalid text) →
          IsRefusedAlike .calculator text d →
            (analyze (analyze source .calculator).program.source .calculator).program.kinds[i]? =
              some (.invalid text) := by
  have hg := Grammar.compact_calculator
  constructor
  · intro st hst text htext
    obtain ⟨s, hs, rfl⟩ := exists_segment_of_mem hst
    rcases readStatement_or_invalid .calculator source.toList s with hread | ⟨hsome, hinvalid⟩
    · have hvalid := isInvalid_of_readStatement hread
      rw [htext] at hvalid
      cases hvalid
    · obtain rfl : s.rawText source.toList = text :=
        StatementKind.invalid.inj (hinvalid.symm.trans htext)
      rw [Judged.span_stmt]
      obtain ⟨d, hd⟩ := Option.isSome_iff_exists.mp hsome
      refine ⟨⟨d, ?_, (within_of_mem_segments hg.noEmptyWord hs hd).1⟩, fun d hd hspan => ?_⟩
      · exact List.mem_filterMap.mpr ⟨_, List.mem_map_of_mem hs, hd⟩
      · exact isRefusedAlike_iff_of_mem hg hs (diagnostic?_of_mem hg.noEmptyWord hs hd hspan)
  · intro i text d hi halike
    exact getElem?_reread_of_isRefusedAlike hi halike

/-- A no-break space behind a dollar sign, and one behind a number. The first statement is
refused alike for its dollar sign, and the second was refused for its space alone. -/
theorem isRefusedAlike_iff_noBreakSpace :
    (analyze "1 $\u00a0:5\u00a0" .calculator).program.statements =
        [⟨.invalid "1 $", ⟨0, 5, 1, 0⟩⟩, ⟨.invalid "5", ⟨6, 9, 1, 5⟩⟩] ∧
      (∀ d ∈ (analyze "1 $\u00a0:5\u00a0" .calculator).diagnostics,
        (d.statement = some ⟨0, 5, 1, 0⟩ → IsRefusedAlike .calculator "1 $" d) ∧
          (d.statement = some ⟨6, 9, 1, 5⟩ → ¬ IsRefusedAlike .calculator "5" d)) ∧
      (analyze "1 $\n5" .calculator).program.kinds[0]? = some (.invalid "1 $") := by
  have hstatements : (analyze "1 $\u00a0:5\u00a0" .calculator).program.statements =
      [⟨.invalid "1 $", ⟨0, 5, 1, 0⟩⟩, ⟨.invalid "5", ⟨6, 9, 1, 5⟩⟩] := by decide +kernel
  have hplaces : ∀ d ∈ (analyze "1 $\u00a0:5\u00a0" .calculator).diagnostics,
      (d.statement = some ⟨0, 5, 1, 0⟩ → d.span.start = 2) ∧
        (d.statement = some ⟨6, 9, 1, 5⟩ → d.kind = .lexical ∧ d.span.start = 7) := by
    decide +kernel
  have hkinds : (analyze "1 $\u00a0:5\u00a0" .calculator).program.kinds =
      [.invalid "1 $", .invalid "5"] := by rw [Program.kinds, hstatements]; rfl
  obtain ⟨halike, hagain⟩ := isRefusedAlike_iff "1 $\u00a0:5\u00a0"
  obtain ⟨⟨d, hd, hspan⟩, hfirst⟩ :=
    halike _ (by rw [hstatements]; exact List.mem_cons_self) "1 $" rfl
  have hsecond := (halike ⟨.invalid "5", ⟨6, 9, 1, 5⟩⟩
    (by rw [hstatements]; exact List.mem_cons_of_mem _ List.mem_cons_self) "5" rfl).2
  have hrefused (d : Diagnostic) (hd : d ∈ (analyze "1 $\u00a0:5\u00a0" .calculator).diagnostics)
      (hspan : d.statement = some ⟨0, 5, 1, 0⟩) : IsRefusedAlike .calculator "1 $" d := by
    refine (hfirst d hd hspan).mpr fun _ => ?_
    rw [(hplaces d hd).1 hspan]
    decide
  refine ⟨hstatements, fun d hd => ⟨hrefused d hd, fun hspan halike => ?_⟩, ?_⟩
  · obtain ⟨hlexical, hstart⟩ := (hplaces d hd).2 hspan
    have hlt := (hsecond d hd hspan).mp halike hlexical
    rw [hstart] at hlt
    exact absurd hlt (by decide)
  · have hfound := hagain 0 "1 $" d (by rw [hkinds]; rfl) (hrefused d hd hspan)
    rwa [Program.source, hkinds] at hfound

/-- A number in front of a no-break space is refused, and is read where it is kept. Of such a
space alone nothing is kept. -/
theorem noBreakSpace_notRefused :
    (analyze "1\u00a0" .calculator).program.kinds = [.invalid "1"] ∧
      (analyze "1" .calculator).program.kinds = [.expression (.literal .integer "1")] ∧
      (analyze "1" .calculator).diagnostics = [] ∧
      (analyze "\u00a0" .calculator).program.kinds = [.invalid ""] ∧
      (analyze "" .calculator).program.kinds = [] := by
  decide +kernel

end CalcSyntax
