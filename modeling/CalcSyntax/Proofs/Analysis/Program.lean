import CalcSyntax.Proofs.Analysis.Lines
import CalcSyntax.Proofs.Program.Printed

/-!
# Program — a program is read back from its text

The text of a program has a line for each statement, so it is cut into the
same statements again. Each line is read as its statement, closing
parentheses that the source had left out included. Only an empty statement
at the end has nothing to show for it: its line is blank and no terminator
follows.

## What is proved

- `piecesFrom_lines` — the pieces of the text are the lines.
- `analyze_source_of_isClean` — where nothing was wrong, the text is read
  as the same program, up to an empty statement at the end.
-/

set_option autoImplicit false

namespace CalcSyntax

/-- The statements without the last one, if that is empty. -/
def withoutLastEmpty (ks : List StatementKind) : List StatementKind :=
  if ks.getLast? = some .empty then ks.dropLast else ks

/-! ## Lines -/

/-- A piece is the line of a statement that can be read. -/
structure Piece.IsLine (p : Piece) (k : StatementKind) : Prop where
  text : p.text = k.source.toList
  readable : k.IsReadable .calculator

/-- The text of a statement stands on a line, which is blank only if there is nothing. -/
theorem fitsLine_source {k : StatementKind} (h : k.IsReadable .calculator) :
    FitsLine k.source.toList ∧ (isBlankLine k.source = true ↔ k = .empty) := by
  have hreads := reads_statement h
  refine ⟨hreads.clear (Grammar.keepsLines_lexicon Grammar.keepsLines_calculator), ?_⟩
  constructor
  · intro hblank
    by_contra he
    rw [isBlankLine, hreads.not_blank (StatementKind.tokens_ne_nil h he)] at hblank
    cases hblank
  · rintro rfl
    rfl

theorem withoutLastBlank_sources {ks : List StatementKind}
    (h : ∀ k ∈ ks, k.IsReadable .calculator) :
    withoutLastBlank (ks.map StatementKind.source) =
      (withoutLastEmpty ks).map StatementKind.source := by
  rw [withoutLastBlank, withoutLastEmpty, List.getLast?_map, ← List.map_dropLast]
  cases hlast : ks.getLast? with
  | none => rfl
  | some k =>
    have hblank := (fitsLine_source (h k (List.mem_of_getLast? hlast))).2
    rw [Option.map_some, Option.any_some, apply_ite (List.map _)]
    exact if_congr (hblank.trans Option.some_inj.symm) rfl rfl

/-- **The pieces of a program's text are its lines.** -/
theorem piecesFrom_lines {ks : List StatementKind} (h : ∀ k ∈ ks, k.IsReadable .calculator)
    (before : List Char) :
    List.Forall₂ Piece.IsLine
      (piecesFrom before [] ("\n".intercalate (ks.map StatementKind.source)).toList)
      (withoutLastEmpty ks) := by
  have hfits : ∀ line ∈ ks.map StatementKind.source, FitsLine line.toList :=
    List.forall_mem_map.mpr fun k hk => (fitsLine_source (h k hk)).1
  have hlines := pieces_lines hfits before
  rw [withoutLastBlank_sources h, ← List.forall₂_eq_eq_eq, List.forall₂_map_left_iff,
    List.forall₂_map_right_iff] at hlines
  have hreadable : ∀ k ∈ withoutLastEmpty ks, k.IsReadable .calculator := by
    intro k hk
    refine h k ?_
    unfold withoutLastEmpty at hk
    split at hk
    · exact (List.dropLast_subset ks) hk
    · exact hk
  refine ((List.forall₂_and_left _ _).mpr ⟨hreadable, hlines.flip⟩).flip.imp ?_
  rintro p k ⟨hk, hsource⟩
  refine ⟨?_, hk⟩
  rw [← show p.source = k.source from hsource, Piece.source, String.toList_ofList]

/-- A line says its statement, wherever it stands. -/
theorem analysis_of_isLine {p : Piece} {k : StatementKind} (h : p.IsLine k) :
    (p.analysis .calculator).program.kinds = [k] ∧ (p.analysis .calculator).diagnostics = [] := by
  obtain ⟨htext, hk⟩ := h
  unfold Piece.analysis
  by_cases he : k = .empty
  · subst he
    have hblank : p.isBlank = true := by
      rw [Piece.isBlank, htext]
      rfl
    rw [if_pos hblank]
    exact ⟨rfl, rfl⟩
  · have hblank : p.isBlank = false := by
      rw [Piece.isBlank, htext]
      exact (reads_statement hk).not_blank (StatementKind.tokens_ne_nil hk he)
    have hsource : p.source = k.source := by
      rw [Piece.source, htext, String.ofList_toList]
    obtain ⟨hkinds, hclean⟩ := analyze_statement_source hk he
    rw [hblank, hsource, if_neg Bool.false_ne_true]
    refine ⟨(Analysis.kinds_shift _ _).trans hkinds, ?_⟩
    rw [Analysis.shift, hclean]
    rfl

/-- A text whose pieces are lines says their statements and nothing else. -/
theorem analyze_of_lines (text : String) {ks : List StatementKind}
    (h : List.Forall₂ Piece.IsLine (pieces text) ks) :
    (analyze text .calculator).program.kinds = ks ∧
      (analyze text .calculator).diagnostics = [] := by
  have hkinds := flatMap_eq_of_forall₂ (g := fun k => [k])
    (h.imp fun _ _ hline => (analysis_of_isLine hline).1)
  have hclean := flatMap_eq_of_forall₂ (g := fun _ => ([] : List Diagnostic))
    (h.imp fun _ _ hline => (analysis_of_isLine hline).2)
  rw [List.flatMap_singleton'] at hkinds
  rw [List.flatMap_eq_nil_iff.mpr fun _ _ => rfl] at hclean
  rw [analyze_eq_pieces Grammar.keepsLines_calculator, Program.kinds, List.map_flatMap]
  exact ⟨hkinds, hclean⟩

/-! ## The whole program -/

/-- **Where nothing is wrong, a program is read back from its text.** The text is clean
as well and has the same statements, except that an empty one at the end is
left out. If there is none, writing the program out again changes nothing. -/
theorem analyze_source_of_isClean (source : String)
    (h : (analyze source .calculator).isClean = true) :
    (analyze (analyze source .calculator).program.source .calculator).isClean = true ∧
      (analyze (analyze source .calculator).program.source .calculator).program.kinds =
        withoutLastEmpty (analyze source .calculator).program.kinds ∧
      ((analyze source .calculator).program.kinds.getLast? ≠ some .empty →
        (analyze (analyze source .calculator).program.source .calculator).program.source =
          (analyze source .calculator).program.source) := by
  have hlines := piecesFrom_lines (fun k hk => readable_of_isClean h hk) []
  obtain ⟨hkinds, hclean⟩ :=
    analyze_of_lines (analyze source .calculator).program.source hlines
  refine ⟨List.isEmpty_iff.mpr hclean, hkinds, ?_⟩
  intro hlast
  rw [withoutLastEmpty, if_neg hlast] at hkinds
  rw [Program.source, hkinds]
  rfl

/-- A loop, a label and an empty statement, written with colons. -/
theorem analyze_source_of_isClean_colons :
    (analyze "For(A,1,9):Lbl A1::" .calculator).isClean = true ∧
      (analyze "For(A,1,9):Lbl A1::" .calculator).program.source = "For(A,1,9)\nLbl A1\n" ∧
      (analyze "For(A,1,9)\nLbl A1\n" .calculator).program.size = 2 := by
  have integer (lexeme : String) (h : Numeral.IsInteger lexeme.toList) :
      (Expr.literal .integer lexeme).IsReadable .calculator :=
    ⟨.literal, (by decide : 1 ≤ maxNesting), .integer h⟩
  have hvar : (Expr.var "A").IsReadable .calculator :=
    ⟨.var, by decide, .var (.inr ⟨'A', rfl, rfl⟩)⟩
  let loop : StatementKind := .command (.withArguments "For("
    [.var "A", .literal .integer "1", .literal .integer "9"])
  let label : StatementKind := .command (.withLabel "Lbl" "A1")
  have hloop : loop.IsReadable .calculator := by
    refine .arguments (d := ⟨"For(", .between 3 4⟩) rfl (by decide) (by decide) ?_
    simp only [List.forall_mem_cons]
    exact ⟨hvar, integer "1" (by decide), integer "9" (by decide), nofun⟩
  have hlabel : label.IsReadable .calculator :=
    .label (d := ⟨"Lbl", .label⟩) rfl rfl ⟨by decide, by decide, List.all_eq_true.mp rfl⟩
  have hcut : pieces "For(A,1,9):Lbl A1::" = [⟨[], "For(A,1,9)".toList⟩,
      ⟨"For(A,1,9):".toList, "Lbl A1".toList⟩, ⟨"For(A,1,9):Lbl A1:".toList, []⟩] := by decide
  have hlines : List.Forall₂ Piece.IsLine (pieces "For(A,1,9):Lbl A1::") [loop, label, .empty] := by
    rw [hcut]
    exact .cons ⟨by decide, hloop⟩ (.cons ⟨by decide, hlabel⟩ (.cons ⟨rfl, .empty⟩ .nil))
  obtain ⟨hkinds, hclean⟩ := analyze_of_lines _ hlines
  have hclean : (analyze "For(A,1,9):Lbl A1::" .calculator).isClean = true :=
    List.isEmpty_iff.mpr hclean
  have htext : (analyze "For(A,1,9):Lbl A1::" .calculator).program.source =
      "For(A,1,9)\nLbl A1\n" := by
    rw [Program.source, hkinds]
    decide
  obtain ⟨_, hagain, _⟩ := analyze_source_of_isClean "For(A,1,9):Lbl A1::" hclean
  rw [htext, hkinds] at hagain
  refine ⟨hclean, htext, ?_⟩
  rw [Program.size, ← List.length_map, ← Program.kinds, hagain]
  rfl

end CalcSyntax
