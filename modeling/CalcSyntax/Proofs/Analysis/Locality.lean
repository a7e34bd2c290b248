import CalcSyntax.Proofs.Segment.Piece

/-!
# Locality — a source is analyzed piece by piece

What is said about a source is what is said about its pieces, each read as
a source of its own and put at its distance from the beginning. A piece of
blanks says that there is nothing.

So a broken statement is broken alone. A stray character, a label that is
awaited in vain or a parenthesis that is never closed ends with its piece,
and the statements before and behind it are read as if it were not there.

## What is proved

- `Piece.analysis_of_becomes` — one piece: its segment within the text is
  judged as the segment of the piece alone, at its distance.
- `Piece.sameWords_return` — a carriage return at the end of a piece
  changes no word. A colon that becomes a line feed can take one away.
- `analyze_pieces` — the whole source.
-/

set_option autoImplicit false

namespace CalcSyntax

namespace Analysis

/-- The analysis of a first line, once that line stands so far from the
beginning of a text. -/
def shift (d : Distance) (a : Analysis) : Analysis :=
  ⟨⟨a.program.statements.map (Statement.relocate (Span.shift d))⟩,
    a.diagnostics.map (Diagnostic.relocate (Span.shift d))⟩

/-- The same statements and the same messages, at whatever places. -/
def SameWords (a b : Analysis) : Prop :=
  a.program.kinds = b.program.kinds ∧
    a.diagnostics.map Diagnostic.wording = b.diagnostics.map Diagnostic.wording

theorem kinds_shift (d : Distance) (a : Analysis) :
    (a.shift d).program.kinds = a.program.kinds := by
  rw [Program.kinds, shift, List.map_map]
  rfl

theorem sameWords_shift (d : Distance) (a : Analysis) : (a.shift d).SameWords a := by
  constructor
  · exact kinds_shift d a
  · rw [shift, List.map_map]
    rfl

end Analysis

/-- What a piece says in its text: what it says alone, put at its distance. -/
def Piece.analysis (g : Grammar) (p : Piece) : Analysis :=
  if p.isBlank then ⟨⟨[⟨.empty, p.stop⟩]⟩, []⟩ else (analyze p.source g).shift p.distance

namespace Piece

variable {g : Grammar} {text : List Char} {p : Piece} {own s : Segment}

/-! ## One piece -/

theorem stmt_of_becomes (h : p.Becomes g text own s) :
    (Judged.ofSegment g s).stmt text =
      ((Judged.ofSegment g own).stmt p.text).relocate (Span.shift p.distance) := by
  have hv := Segment.verdict_moved g h.moved
  simp only [Judged.stmt, Judged.ofSegment, hv, h.raw, h.rawAlone, Segment.span_moved h.moved]
  cases own.verdict g <;> rfl

theorem diagnostic?_of_becomes (h : p.Becomes g text own s) :
    (Judged.ofSegment g s).diagnostic? =
      (Judged.ofSegment g own).diagnostic?.map (Diagnostic.relocate (Span.shift p.distance)) := by
  have hv := Segment.verdict_moved g h.moved
  simp only [Judged.diagnostic?, Judged.ofSegment, hv, Segment.span_moved h.moved]
  cases own.verdict g <;> rfl

/-- Unless it is blank, the piece alone is one segment. -/
theorem segments_alone (h : p.Becomes g text own s) (hb : p.isBlank = false) :
    segments p.source g = [own] := by
  rw [segments, Segment.ofItems, h.alone, List.filter_cons_of_pos, List.filter_nil]
  rw [h.blank, hb]
  exact Bool.or_true _

theorem verdict_of_blank (g : Grammar) (h : s.isBlank = true) : s.verdict g = .ok .empty := by
  have hitems : s.items = [] := List.isEmpty_iff.mp h
  have htokens : s.tokens = [] := by rw [Segment.tokens, hitems]; rfl
  rw [Segment.verdict, Segment.stray?, hitems, htokens]
  rfl

/-- **One piece.** The segment of a piece within its text says what the piece
says alone, at the distance of the piece. -/
theorem analysis_of_becomes (h : p.Becomes g text own s) :
    p.analysis g = ⟨⟨[(Judged.ofSegment g s).stmt text]⟩,
      (Judged.ofSegment g s).diagnostic?.toList⟩ := by
  unfold analysis
  cases hb : p.isBlank with
  | true =>
    have hown : own.isBlank = true := h.blank.trans hb
    have hitems : s.items = [] := by
      rw [h.moved.items, List.isEmpty_iff.mp hown, List.map_nil]
    have hspan : s.span = p.stop := by
      rw [Segment.span, hitems, h.moved.stop, h.stop]
      rfl
    have hverdict : s.verdict g = .ok .empty :=
      verdict_of_blank g (List.isEmpty_iff.mpr hitems)
    simp only [Judged.stmt, Judged.diagnostic?, Judged.ofSegment, hverdict, hspan]
    rfl
  | false =>
    rw [stmt_of_becomes h, diagnostic?_of_becomes h, analyze, judge, segments_alone h hb]
    simp only [Analysis.shift, Analysis.ofJudged, source, String.toList_ofList]
    cases hd : (Judged.ofSegment g own).diagnostic? with
    | none => simp [hd]
    | some d => simp [hd]

/-- A piece is one statement. A diagnostic of it is marked with that statement. -/
theorem one_statement (h : p.Becomes g text own s) :
    ∃ statement, (p.analysis g).program.statements = [statement] ∧
      ((p.analysis g).diagnostics = [] ∨
        ∃ d, (p.analysis g).diagnostics = [d] ∧ d.statement = some statement.span) := by
  rw [analysis_of_becomes h]
  refine ⟨_, rfl, ?_⟩
  simp only [Judged.stmt, Judged.diagnostic?, Judged.ofSegment]
  cases s.verdict g with
  | ok k => exact .inl rfl
  | error d => exact .inr ⟨_, rfl, rfl⟩

/-- Pieces of the same text say the same. -/
theorem sameWords_text (g : Grammar) {p p' : Piece} (h : p.text = p'.text) :
    (p.analysis g).SameWords (p'.analysis g) := by
  have hblank : p.isBlank = p'.isBlank := by rw [isBlank, isBlank, h]
  have hsource : p.source = p'.source := by rw [source, source, h]
  unfold analysis
  rw [hblank, hsource]
  cases p'.isBlank with
  | true => exact ⟨rfl, rfl⟩
  | false =>
    obtain ⟨hk, hd⟩ := Analysis.sameWords_shift p.distance (analyze p'.source g)
    obtain ⟨hk', hd'⟩ := Analysis.sameWords_shift p'.distance (analyze p'.source g)
    exact ⟨hk.trans hk'.symm, hd.trans hd'.symm⟩

/-! ## A carriage return at the end -/

/-- Segments that differ in their places alone, and in text that is trimmed off,
say the same. -/
theorem sameWords_of_moved {text' : List Char} {p' : Piece} {own' s' m : Segment}
    {φ : Span → Span} (h : p.Becomes g text own s) (h' : p'.Becomes g text' own' s')
    (hm : Segment.Moved φ own m) (hm' : Segment.Moved φ own' m)
    (hbody : trimEnd p.body = trimEnd p'.body) :
    (p.analysis g).SameWords (p'.analysis g) := by
  have hverdict := (Segment.verdict_moved g hm).symm.trans (Segment.verdict_moved g hm')
  rw [analysis_of_becomes h, analysis_of_becomes h', stmt_of_becomes h, stmt_of_becomes h',
    diagnostic?_of_becomes h, diagnostic?_of_becomes h']
  simp only [Analysis.SameWords, Program.kinds, List.map_cons, List.map_nil,
    Statement.kind_relocate, Judged.stmt, Judged.diagnostic?, Judged.ofSegment, h.rawAlone,
    h'.rawAlone, hbody]
  cases hv : own.verdict g with
  | ok k =>
    cases hv' : own'.verdict g with
    | ok k' =>
      rw [hv, hv'] at hverdict
      cases hverdict
      exact ⟨rfl, rfl⟩
    | error d' => rw [hv, hv'] at hverdict; cases hverdict
  | error d =>
    cases hv' : own'.verdict g with
    | ok k' => rw [hv, hv'] at hverdict; cases hverdict
    | error d' =>
      rw [hv, hv'] at hverdict
      have hd : d.relocate φ = d'.relocate φ := Except.error.inj hverdict
      have hw : (d.relocate φ).wording = (d'.relocate φ).wording := by rw [hd]
      exact ⟨rfl, congrArg (fun w => [w]) hw⟩

theorem body_of_split {b q : List Char} {c : Char} (hp : p.text = b ++ c :: q)
    (hb : ∀ d ∈ b, CalcSyntax.isBlank d = true) (hc : CalcSyntax.isBlank c = false)
    (hn : c ≠ '\n') : p.body = c :: q := by
  rw [body, hp, leadingBlanks_split hb hc hn, List.drop_left]

theorem body_of_blank (h : ∀ c ∈ p.text, CalcSyntax.isBlank c = true) : p.body = [] := by
  rw [body, leadingBlanks_of_blank h, List.drop_length]

theorem trimEnd_return (cs : List Char) : trimEnd (cs ++ ['\r']) = trimEnd cs := by
  have h : isWhiteSpace '\r' = true := by decide
  rw [trimEnd, trimEnd, List.reverse_append, List.reverse_singleton, List.singleton_append,
    List.dropWhile_cons_of_pos h]

theorem trimEnd_body_return {p' : Piece} (hclear : ∀ c ∈ p'.text, c ≠ '\n' ∧ c ≠ ':')
    (hp : p.text = p'.text ++ ['\r']) : trimEnd p.body = trimEnd p'.body := by
  rcases blank_or_split p'.text with hb | ⟨b, c, q, hsplit, hb, hc⟩
  · have hb' : ∀ c ∈ p.text, CalcSyntax.isBlank c = true := by
      rw [hp]
      exact List.forall_mem_append.mpr ⟨hb, List.forall_mem_singleton.mpr rfl⟩
    rw [body_of_blank hb, body_of_blank hb']
  · have hmem : c ∈ p'.text := by
      rw [hsplit]
      exact List.mem_append_right _ List.mem_cons_self
    have hn : c ≠ '\n' := (hclear c hmem).1
    have hp' : p.text = b ++ c :: (q ++ ['\r']) := by
      rw [hp, hsplit, List.append_assoc, List.cons_append]
    rw [body_of_split hsplit hb hc hn, body_of_split hp' hb hc hn, ← List.cons_append,
      trimEnd_return]

/-- The segment of a piece alone is what its lexer reads, whatever stands behind the piece. -/
theorem Becomes.exists_readsAs (hk : g.KeepsLines) (h : p.Becomes g text own s) {r : List Char}
    (hs : Seals p.text r) (hr : untilTerminator r = leadingBlanks r) (d : Distance) :
    ∃ items, (p.lexer g).ReadsAs d r items ∧ own = ⟨items, .closing (p.lexer g).stop⟩ := by
  obtain ⟨items, hread⟩ :=
    Lexer.exists_readsAs (p.lexer g) (Grammar.keepsLines_lexicon hk) hs hr d
  have hsplit := h.alone
  rw [split_scan_of_readsAs hread] at hsplit
  exact ⟨items, hread, (List.cons.inj hsplit).1.symm⟩

/-- A carriage return at the end of a piece changes no word. -/
theorem sameWords_return (hk : g.KeepsLines) {text' : List Char} {p' : Piece} {own' s' : Segment}
    (h : p.Becomes g text own s) (h' : p'.Becomes g text' own' s')
    (hp : p.text = p'.text ++ ['\r']) : (p.analysis g).SameWords (p'.analysis g) := by
  have hs : Seals p'.text ['\r'] :=
    ⟨h'.clear, fun _ => by decide, fun c hc => (Option.some.inj hc) ▸ rfl⟩
  obtain ⟨items, hread, hown'⟩ := h'.exists_readsAs hk hs rfl ⟨0, 0, 0⟩
  obtain ⟨stop, hown⟩ : ∃ stop,
      own = ⟨items.map (Item.relocate (Span.shift ⟨0, 0, 0⟩)), .closing stop⟩ := by
    have hscan : scan p.source g = ((p'.lexer g).within ⟨0, 0, 0⟩ ['\r']).items true := by
      rw [scan, Lexer.ofSource, source, String.toList_ofList, hp]
      exact Lexer.items_text true ((p'.lexer g).within ⟨0, 0, 0⟩ ['\r']) (p'.text ++ ['\r'])
    have hend := Lexer.items_end ((p'.lexer g).finish.within ⟨0, 0, 0⟩ ['\r']) true
      (b := ['\r']) (by rw [finish_lexer]; rfl)
      (by rw [finish_lexer]; rfl)
    have hsplit := h.alone
    rw [hscan, hread.within, hend, Segment.split_end (hread.inner_relocate _) rfl] at hsplit
    exact ⟨_, (List.cons.inj hsplit).1.symm⟩
  let φ : Span → Span := fun _ => .origin
  refine sameWords_of_moved h h' (m := ⟨items.map (Item.relocate φ), .closing .origin⟩) (φ := φ)
    ⟨?_, ?_⟩ ⟨?_, ?_⟩ (trimEnd_body_return h'.clear hp)
  · rw [hown, List.map_map]
    refine List.map_congr_left ?_
    intro i _
    cases i <;> rfl
  · rfl
  · rw [hown']
  · rfl

end Piece

/-! ## The whole source -/

theorem flatMap_eq_of_forall₂ {α β γ : Type} {f : α → List γ} {g : β → List γ} {as : List α}
    {bs : List β} (h : List.Forall₂ (fun a b => f a = g b) as bs) :
    as.flatMap f = bs.flatMap g := by
  induction h with
  | nil => rfl
  | cons hab _ ih => rw [List.flatMap_cons, List.flatMap_cons, hab, ih]

/-- A source is analyzed piece by piece. -/
theorem analyze_eq_pieces {g : Grammar} (hk : g.KeepsLines) (source : String) :
    analyze source g =
      ⟨⟨(pieces source).flatMap fun p => (p.analysis g).program.statements⟩,
        (pieces source).flatMap fun p => (p.analysis g).diagnostics⟩ := by
  have hpieces := segments_pieces hk source
  have hstatements : (pieces source).flatMap (fun p => (p.analysis g).program.statements) =
      (segments source g).flatMap fun s => [(Judged.ofSegment g s).stmt source.toList] := by
    refine flatMap_eq_of_forall₂ (hpieces.imp ?_)
    intro p s ⟨own, h⟩
    rw [Piece.analysis_of_becomes h]
  have hdiagnostics : (pieces source).flatMap (fun p => (p.analysis g).diagnostics) =
      (segments source g).flatMap fun s => (Judged.ofSegment g s).diagnostic?.toList := by
    refine flatMap_eq_of_forall₂ (hpieces.imp ?_)
    intro p s ⟨own, h⟩
    rw [Piece.analysis_of_becomes h]
  rw [hstatements, hdiagnostics, analyze, Analysis.ofJudged, judge, List.map_map,
    List.filterMap_map, ← List.map_eq_flatMap, List.filterMap_eq_flatMap_toList]
  rfl

/-- Some colons of a text made line feeds. -/
def ColonsBroken (cs cs' : List Char) : Prop :=
  List.Forall₂ (fun c c' => c' = c ∨ c = ':' ∧ c' = '\n') cs cs'

/-- Breaking colons leaves the pieces as they are, up to a carriage return that
becomes part of a line break. -/
theorem piecesFrom_colonsBroken {cs cs' : List Char} (h : ColonsBroken cs cs')
    (before before' text : List Char) :
    List.Forall₂ (fun p p' => p.text = p'.text ∨ p.text = p'.text ++ ['\r'])
      (piecesFrom before text cs) (piecesFrom before' text cs') := by
  fun_induction piecesFrom before text cs generalizing before' cs' with
  | case1 before text hb =>
    cases h
    rw [piecesFrom, if_pos hb]
    exact .nil
  | case2 before text hb =>
    cases h
    rw [piecesFrom, if_neg hb]
    exact .cons (.inl rfl) .nil
  | case3 before text cs ih =>
    rcases h with _ | ⟨rfl | ⟨hr, _⟩, _ | ⟨rfl | ⟨hn, _⟩, h⟩⟩
    · exact .cons (.inl rfl) (ih h _)
    · exact absurd hn (by decide)
    · exact absurd hr (by decide)
    · exact absurd hr (by decide)
  | case4 before text c cs hcrlf hc ih =>
    obtain ⟨c', cs', hc', hrest, rfl⟩ := List.forall₂_cons_left_iff.mp h
    have hbreak : c' = '\n' ∨ c' = ':' := by
      rcases hc' with rfl | ⟨_, rfl⟩
      exacts [hc, .inl rfl]
    rw [piecesFrom_break hbreak]
    exact .cons (.inl rfl) (ih hrest _)
  | case5 before text c cs hcrlf hc ih =>
    obtain ⟨c', cs', hc', hrest, rfl⟩ := List.forall₂_cons_left_iff.mp h
    obtain rfl : c' = c := hc'.resolve_right fun he => hc (.inr he.1)
    have ih := ih hrest before'
    by_cases hnew : c' = '\r' ∧ ∃ ds', cs' = '\n' :: ds'
    · -- the colon behind a carriage return was broken
      obtain ⟨rfl, ds', rfl⟩ := hnew
      obtain ⟨e, es, he, _, rfl⟩ := List.forall₂_cons_right_iff.mp hrest
      have he : e = ':' := by
        rcases he with rfl | he
        exacts [absurd rfl (hcrlf _ rfl), he.1]
      rw [he, piecesFrom_break (.inr rfl), piecesFrom_break (.inl rfl)] at ih
      rw [he, piecesFrom_break (.inr rfl)]
      have hbefore : before' ++ (text ++ ['\r']) ++ ['\n'] = before' ++ text ++ ['\r', '\n'] := by
        simp only [List.append_assoc, List.cons_append, List.nil_append]
      rw [hbefore] at ih
      exact .cons (.inr rfl) (List.forall₂_cons.mp ih).2
    · rw [piecesFrom.eq_3, if_neg hc]
      · exact ih
      · rintro ds' rfl hds
        exact hnew ⟨rfl, ds', hds⟩

theorem becomes_of_mem {g : Grammar} (hk : g.KeepsLines) {source : String} {p : Piece}
    (h : p ∈ pieces source) : ∃ own s, p.Becomes g source.toList own s := by
  obtain ⟨i, hi, rfl⟩ := List.mem_iff_get.mp h
  have hpieces := segments_pieces hk source
  obtain ⟨own, hb⟩ := hpieces.get i.2 (hpieces.length_eq ▸ i.2)
  exact ⟨own, _, hb⟩

/-- Breaking colons changes no word. -/
theorem sameWords_colonsBroken {g : Grammar} (hk : g.KeepsLines) {source source' : String}
    (h : ColonsBroken source.toList source'.toList) :
    (analyze source g).SameWords (analyze source' g) := by
  have htexts := piecesFrom_colonsBroken h [] [] []
  have hpieces : List.Forall₂ (fun p p' => (p.analysis g).SameWords (p'.analysis g))
      (pieces source) (pieces source') := by
    refine List.forall₂_iff_zip.mpr ⟨htexts.length_eq, ?_⟩
    intro p p' hmem
    obtain ⟨own, s, hb⟩ := becomes_of_mem hk (List.of_mem_zip hmem).1
    obtain ⟨own', s', hb'⟩ := becomes_of_mem hk (List.of_mem_zip hmem).2
    rcases List.forall₂_zip htexts hmem with ht | ht
    · exact Piece.sameWords_text g ht
    · exact Piece.sameWords_return hk hb hb' ht
  rw [analyze_eq_pieces hk, analyze_eq_pieces hk]
  constructor
  · simp only [Program.kinds, List.map_flatMap]
    exact flatMap_eq_of_forall₂ (hpieces.imp fun _ _ hw => hw.1)
  · simp only [List.map_flatMap]
    exact flatMap_eq_of_forall₂ (hpieces.imp fun _ _ hw => hw.2)

/-- **A source is analyzed piece by piece.** There is one statement to a piece, and
one diagnostic at most. Each is what the piece says alone, at its distance.
Where colons are broken the words stay. -/
theorem analyze_pieces (source : String) (g : Grammar) (hk : g.KeepsLines) :
    analyze source g =
        ⟨⟨(pieces source).flatMap fun p => (p.analysis g).program.statements⟩,
          (pieces source).flatMap fun p => (p.analysis g).diagnostics⟩ ∧
      (∀ p ∈ pieces source, ∃ statement, (p.analysis g).program.statements = [statement] ∧
        ((p.analysis g).diagnostics = [] ∨
          ∃ d, (p.analysis g).diagnostics = [d] ∧ d.statement = some statement.span)) ∧
      ∀ source' : String, ColonsBroken source.toList source'.toList →
        (analyze source g).SameWords (analyze source' g) := by
  refine ⟨analyze_eq_pieces hk source, ?_, ?_⟩
  · intro p hp
    obtain ⟨own, s, hb⟩ := becomes_of_mem hk hp
    exact Piece.one_statement hb
  · intro source' h
    exact sameWords_colonsBroken hk h

/-- A label that is awaited in vain and an open parenthesis stay where they are. -/
theorem analyze_pieces_broken :
    Grammar.calculator.KeepsLines ∧
      (analyze "Lbl :(2+\r:A" .calculator).program.size = 3 ∧
      (analyze "Lbl :(2+\r:A" .calculator).SameWords
        (analyze "Lbl \n(2+\r\nA" .calculator) := by
  obtain ⟨hpieces, hone, hbroken⟩ :=
    analyze_pieces "Lbl :(2+\r:A" .calculator Grammar.keepsLines_calculator
  have hcut : pieces "Lbl :(2+\r:A" =
      [⟨[], ['L', 'b', 'l', ' ']⟩, ⟨['L', 'b', 'l', ' ', ':'], ['(', '2', '+', '\r']⟩,
        ⟨['L', 'b', 'l', ' ', ':', '(', '2', '+', '\r', ':'], ['A']⟩] := by decide
  refine ⟨Grammar.keepsLines_calculator, ?_, hbroken _ ?_⟩
  · rw [hcut] at hone hpieces
    simp only [List.forall_mem_cons] at hone
    obtain ⟨⟨s, hs, _⟩, ⟨t, ht, _⟩, ⟨u, hu, _⟩, _⟩ := hone
    rw [hpieces, Program.size]
    simp only [List.flatMap_cons, List.flatMap_nil, hs, ht, hu]
    rfl
  · unfold ColonsBroken
    decide

end CalcSyntax
