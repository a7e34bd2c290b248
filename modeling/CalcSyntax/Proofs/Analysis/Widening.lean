import CalcSyntax.Proofs.Analysis.Locality
import CalcSyntax.Proofs.Segment.Concord
import CalcSyntax.Proofs.Token.Widening

/-!
# Widening — white space between tokens says nothing

What is said about a text depends on the words of its tokens alone, where nothing in it is
stray: on their kinds and lexemes, and on which of them end a statement. Only the text that is
kept of a broken statement shows the white space in it. So spaces, tabs and form feeds may be
put between the tokens of a text, and the same is said about it.

## What is proved

- `Segment.ofItems_relocate` — cutting at terminators does not look at places.
- `analyze_of_words` — two sources with the same words.
- `analyze_widened` — a source, and the source with spacing put in.
-/

set_option autoImplicit false

namespace CalcSyntax

/-- The statement without the text that is kept of a broken one. -/
def StatementKind.untold : StatementKind → StatementKind
  | invalid _ => invalid ""
  | k => k

namespace Segment

variable {φ : Span → Span}

/-- The segment at another place. -/
def relocate (φ : Span → Span) (s : Segment) : Segment :=
  ⟨s.items.map (Item.relocate φ), s.closer.relocate φ⟩

theorem putFront_relocate (item : Item) (ss : List Segment) :
    putFront (item.relocate φ) (ss.map (relocate φ)) = (putFront item ss).map (relocate φ) := by
  cases ss <;> rfl

theorem split_relocate (φ : Span → Span) (items : List Item) :
    split (items.map (Item.relocate φ)) = (split items).map (relocate φ) := by
  fun_induction split items with
  | case1 => rfl
  | case2 t rest hkind ih =>
    rw [List.map_cons, Item.relocate, split, Token.kind_relocate, if_pos hkind, ih]
    rfl
  | case3 t rest hterminator hkind =>
    rw [List.map_cons, Item.relocate, split, Token.kind_relocate, if_neg hterminator, if_pos hkind]
    rfl
  | case4 t rest hterminator hkind ih =>
    rw [List.map_cons, Item.relocate, split, Token.kind_relocate, if_neg hterminator, if_neg hkind,
      ih, ← putFront_relocate]
    rfl
  | case5 c rest ih =>
    rw [List.map_cons, Item.relocate, split, ih, ← putFront_relocate]
    rfl

/-- Cutting does not look at places. -/
theorem ofItems_relocate (φ : Span → Span) (items : List Item) :
    ofItems (items.map (Item.relocate φ)) = (ofItems items).map (relocate φ) := by
  have hkept : (fun s : Segment => s.isTerminated || !s.isBlank) ∘ relocate φ =
      fun s : Segment => s.isTerminated || !s.isBlank := by
    funext s
    show (_ || !(s.items.map (Item.relocate φ)).isEmpty) = _
    rw [List.isEmpty_map]
    rfl
  rw [ofItems, split_relocate, List.filter_map, hkept]
  rfl

/-- What a segment says nowhere is what it says, up to its places. -/
theorem verdict_nowhere (g : Grammar) (s : Segment) :
    (s.relocate nowhere).verdict g = (s.verdict g).mapError (Diagnostic.relocate nowhere) :=
  verdict_moved g ⟨rfl, rfl⟩

/-- The statement of a segment, without the text that is kept. -/
def untold (g : Grammar) (s : Segment) : StatementKind :=
  match s.verdict g with
  | .ok kind => kind.untold
  | .error _ => .invalid ""

/-- The wording of what is wrong with a segment. -/
def wording? (g : Grammar) (s : Segment) :
    Option (DiagnosticKind × String × String × Option String) :=
  match s.verdict g with
  | .ok _ => none
  | .error d => some d.wording

theorem untold_nowhere (g : Grammar) (s : Segment) : (s.relocate nowhere).untold g = s.untold g := by
  rw [untold, untold, verdict_nowhere]
  cases s.verdict g <;> rfl

theorem wording?_nowhere (g : Grammar) (s : Segment) :
    (s.relocate nowhere).wording? g = s.wording? g := by
  rw [wording?, wording?, verdict_nowhere]
  cases s.verdict g <;> rfl

end Segment

variable {g : Grammar} {source source' : String} {ts ts' : List Token}

theorem untold_kinds (source : String) (g : Grammar) :
    (analyze source g).program.kinds.map StatementKind.untold =
      (segments source g).map (Segment.untold g) := by
  rw [analyze, Analysis.ofJudged, Program.kinds, judge, List.map_map, List.map_map, List.map_map]
  refine List.map_congr_left fun s _ => ?_
  show ((Judged.ofSegment g s).stmt source.toList).kind.untold = s.untold g
  rw [Judged.stmt, Judged.ofSegment, Segment.untold]
  cases s.verdict g <;> rfl

theorem wordings (source : String) (g : Grammar) :
    (analyze source g).diagnostics.map Diagnostic.wording =
      (segments source g).filterMap (Segment.wording? g) := by
  rw [analyze, Analysis.ofJudged, judge, List.filterMap_map, List.map_filterMap]
  refine List.filterMap_congr fun s _ => ?_
  show (Judged.ofSegment g s).diagnostic?.map Diagnostic.wording = s.wording? g
  rw [Judged.diagnostic?, Judged.ofSegment, Segment.wording?]
  cases s.verdict g <;> rfl

theorem Item.eq_of_tokens? {items : List Item} (h : Item.tokens? items = .ok ts) :
    items = ts.map .ok := by
  induction items generalizing ts with
  | nil => exact Except.ok.inj h ▸ rfl
  | cons item items ih =>
    cases item with
    | error c => cases h
    | ok t =>
      obtain ⟨us, hus, rfl⟩ := exists_of_tokens?_cons h
      exact congrArg (.ok t :: ·) (ih hus)

/-- Where nothing is stray, the items of a source are its tokens. -/
theorem scan_of_tokenize (h : tokenize source g = .ok ts) : scan source g = ts.map .ok :=
  Item.eq_of_tokens? ((tokenize_eq source g).symm.trans h)

/-- The segments of a source, nowhere, are those of its words. -/
theorem segments_nowhere (h : tokenize source g = .ok ts) :
    (segments source g).map (Segment.relocate nowhere) =
      Segment.ofItems ((ts.map Token.word).map fun w => .ok (.bare w.1 w.2)) := by
  rw [segments, ← Segment.ofItems_relocate, scan_of_tokenize h, List.map_map, List.map_map]
  rfl

/-- **Sources with the same words** say the same, but for the text of broken statements. -/
theorem analyze_of_words (h : tokenize source g = .ok ts) (h' : tokenize source' g = .ok ts')
    (hwords : ts'.map Token.word = ts.map Token.word) :
    (analyze source' g).program.kinds.map StatementKind.untold =
        (analyze source g).program.kinds.map StatementKind.untold ∧
      (analyze source' g).diagnostics.map Diagnostic.wording =
        (analyze source g).diagnostics.map Diagnostic.wording := by
  have hsegments : (segments source' g).map (Segment.relocate nowhere) =
      (segments source g).map (Segment.relocate nowhere) := by
    rw [segments_nowhere h, segments_nowhere h', hwords]
  have huntold (source : String) : (segments source g).map (Segment.untold g) =
      ((segments source g).map (Segment.relocate nowhere)).map (Segment.untold g) := by
    rw [List.map_map]
    exact List.map_congr_left fun s _ => (s.untold_nowhere g).symm
  have hwording (source : String) : (segments source g).filterMap (Segment.wording? g) =
      ((segments source g).map (Segment.relocate nowhere)).filterMap (Segment.wording? g) := by
    rw [List.filterMap_map]
    exact List.filterMap_congr fun s _ => (s.wording?_nowhere g).symm
  constructor
  · rw [untold_kinds, untold_kinds, huntold, huntold, hsegments]
  · rw [wordings, wordings, hwording, hwording, hsegments]

/-- **White space between tokens says nothing.** If a source is read without a stray character,
spaces, tabs and form feeds can be put in front of its tokens, between them and behind the
last. Its tokens keep their kinds and lexemes. The same is said about it, in the same words,
and a broken statement is broken in the same way. -/
theorem analyze_widened (g : Grammar) (hg : g.Spaceable) (source source' : String)
    (ts : List Token) (h : tokenize source g = .ok ts)
    (hwide : Widened ts 0 source.toList source'.toList) :
    ∃ ts', tokenize source' g = .ok ts' ∧ ts'.map Token.word = ts.map Token.word ∧
      (analyze source' g).program.kinds.map StatementKind.untold =
        (analyze source g).program.kinds.map StatementKind.untold ∧
      (analyze source' g).diagnostics.map Diagnostic.wording =
        (analyze source g).diagnostics.map Diagnostic.wording := by
  obtain ⟨ts', h', hwords⟩ := tokenize_widened hg h hwide
  exact ⟨ts', h', hwords, analyze_of_words h h' hwords⟩

/-- A label that is still awaited behind a gap, a number that was cut behind its second digit of
an exponent, and spacing in front of a line break. -/
theorem analyze_widened_label :
    let source := "Lbl1:1e123\r\n("
    let source' := "Lbl\t 1:1e12 3\x0c\r\n("
    ∃ ts, Grammar.calculator.Spaceable ∧ tokenize source .calculator = .ok ts ∧
      Widened ts 0 source.toList source'.toList ∧
      ∃ ts', tokenize source' .calculator = .ok ts' ∧ ts'.map Token.word = ts.map Token.word ∧
        (analyze source' .calculator).program.kinds.map StatementKind.untold =
          (analyze source .calculator).program.kinds.map StatementKind.untold ∧
        (analyze source' .calculator).diagnostics.map Diagnostic.wording =
          (analyze source .calculator).diagnostics.map Diagnostic.wording := by
  intro source source'
  let ts : List Token :=
    [⟨.command, "Lbl", ⟨0, 3, 1, 0⟩⟩, ⟨.label, "1", ⟨3, 4, 1, 3⟩⟩, ⟨.terminator, ":", ⟨4, 5, 1, 4⟩⟩,
      ⟨.float, "1e12", ⟨5, 9, 1, 5⟩⟩, ⟨.integer, "3", ⟨9, 10, 1, 9⟩⟩,
      ⟨.terminator, "\r\n", ⟨10, 12, 1, 10⟩⟩, ⟨.leftParen, "(", ⟨12, 13, 2, 0⟩⟩,
      .closing ⟨13, 13, 2, 1⟩]
  have hg : Grammar.calculator.Spaceable := by decide +kernel
  have hread : tokenize source .calculator = .ok ts := by decide +kernel
  have hwide : Widened ts 0 source.toList source'.toList := by
    have hsource : source.toList =
        ['L', 'b', 'l'] ++ (['1', ':', '1', 'e', '1', '2'] ++ (['3'] ++ ['\r', '\n', '('])) := by
      decide +kernel
    have hsource' : source'.toList = ['L', 'b', 'l'] ++ (['\t', ' '] ++
        (['1', ':', '1', 'e', '1', '2'] ++ ([' '] ++
          (['3'] ++ (['\x0c'] ++ ['\r', '\n', '(']))))) := by
      decide +kernel
    rw [hsource, hsource']
    refine .keeps _ (.inserts _ rfl (by decide) ?_)
    refine .keeps _ (.inserts _ rfl (by decide) ?_)
    exact .keeps _ (.inserts _ rfl (by decide) (.refl _ _ _))
  exact ⟨ts, hg, hread, hwide, analyze_widened .calculator hg source source' ts hread hwide⟩

end CalcSyntax
