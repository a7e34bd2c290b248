import CalcSyntax.Proofs.Analysis.Invalid

/-!
# Count — how many statements come back

The text of a program has a line for each statement. Read again it has a
statement for each line, unless the last line is blank: no terminator follows
it, so it is no statement. A line is blank where the statement was empty, and
also where nothing was kept of a broken one.

## What is proved

- `map_isEmpty_reread` — which of the statements that come back are empty.
- `size_reread_iff` — when as many come back, and when the empty ones stay where
  they are.
-/

set_option autoImplicit false

namespace CalcSyntax

theorem StatementKind.isEmpty_iff {k : StatementKind} : k.isEmpty = true ↔ k = .empty := by
  cases k with
  | empty => exact iff_of_true rfl rfl
  | _ => exact iff_of_false Bool.false_ne_true nofun

namespace Program

/-- The lines of a program's text. -/
def lines (p : Program) : List String := p.kinds.map StatementKind.source

/-- The program that is read from a program's text. -/
def reread (p : Program) : Program := (analyze p.source .calculator).program

end Program

/-- The empty statements that come back are the blank lines, up to one at the end. -/
theorem map_isEmpty_reread (source : String) :
    (analyze source .calculator).program.reread.kinds.map StatementKind.isEmpty =
      (withoutLastBlank (analyze source .calculator).program.lines).map isBlankLine :=
  map_isEmpty_lines Grammar.keepsLines_calculator
    (List.forall_mem_map.mpr fun _ hk => (fitsLine_of_mem_program hk).1)

/-- The last line is blank just if the last statement is empty, or nothing was kept of it. -/
theorem not_isBlankLine_getLast?_iff (source : String) :
    (∀ line ∈ (analyze source .calculator).program.lines.getLast?, isBlankLine line = false) ↔
      (analyze source .calculator).program.kinds.getLast? ≠ some .empty ∧
        (analyze source .calculator).program.kinds.getLast? ≠ some (.invalid "") := by
  rw [Program.lines, List.getLast?_map]
  cases hlast : (analyze source .calculator).program.kinds.getLast? with
  | none => exact iff_of_true nofun ⟨nofun, nofun⟩
  | some k =>
    have hblank := (fitsLine_of_mem_program (List.mem_of_getLast? hlast)).2
    rw [Option.map_some, ne_eq, ne_eq, Option.some_inj, Option.some_inj, ← not_or, ← hblank,
      Bool.not_eq_true]
    constructor
    · intro h
      exact h _ rfl
    · intro h line hline
      exact Option.some.inj hline ▸ h

/-- The lines are as many as the statements, and as many come back unless the last is blank. -/
theorem size_reread_eq_iff (source : String) :
    (analyze source .calculator).program.reread.size = (analyze source .calculator).program.size ↔
      ∀ line ∈ (analyze source .calculator).program.lines.getLast?, isBlankLine line = false := by
  have hlength := congrArg List.length (map_isEmpty_reread source)
  have hlines : (analyze source .calculator).program.lines.length =
      (analyze source .calculator).program.size := by
    rw [Program.lines, Program.kinds, List.length_map, List.length_map, Program.size]
  rw [List.length_map, List.length_map, Program.kinds, List.length_map] at hlength
  rw [← length_withoutLastBlank_iff, ← hlength, hlines]
  rfl

/-- **As many statements come back** just if the last one is not empty and something was
kept of it. The empty ones stay where they are just if, besides, something was kept of every
broken one. -/
theorem size_reread_iff (source : String) :
    ((analyze source .calculator).program.reread.size =
          (analyze source .calculator).program.size ↔
        (analyze source .calculator).program.kinds.getLast? ≠ some .empty ∧
          (analyze source .calculator).program.kinds.getLast? ≠ some (.invalid "")) ∧
      ((analyze source .calculator).program.reread.kinds.map StatementKind.isEmpty =
          (analyze source .calculator).program.kinds.map StatementKind.isEmpty ↔
        (analyze source .calculator).program.kinds.getLast? ≠ some .empty ∧
          .invalid "" ∉ (analyze source .calculator).program.kinds) := by
  have hsize := size_reread_eq_iff source
  have hlast := not_isBlankLine_getLast?_iff source
  refine ⟨hsize.trans hlast, ?_, ?_⟩
  · intro hsame
    have hlength := congrArg List.length hsame
    rw [List.length_map, List.length_map, Program.kinds, Program.kinds, List.length_map,
      List.length_map] at hlength
    have hfull := hsize.mp hlength
    refine ⟨(hlast.mp hfull).1, fun hmem => ?_⟩
    -- the line of such a statement would be blank and the statement not empty
    rw [map_isEmpty_reread, withoutLastBlank_eq_self hfull, Program.lines, List.map_map] at hsame
    cases List.map_inj_left.mp hsame _ hmem
  · rintro ⟨hempty, hmem⟩
    have hinvalid : (analyze source .calculator).program.kinds.getLast? ≠ some (.invalid "") :=
      fun h => hmem (List.mem_of_getLast? h)
    rw [map_isEmpty_reread, withoutLastBlank_eq_self (hlast.mpr ⟨hempty, hinvalid⟩),
      Program.lines, List.map_map]
    refine List.map_congr_left fun k hk => ?_
    have hblank : isBlankLine k.source = true ↔ k = .empty :=
      (fitsLine_of_mem_program hk).2.trans (or_iff_left fun h => hmem (h ▸ hk))
    exact Bool.eq_iff_iff.mpr (hblank.trans StatementKind.isEmpty_iff.symm)

/-- An empty statement at the end is lost, and a no-break space in front of a statement leaves
an empty one. -/
theorem emptyAtEnd_lost :
    (analyze "5::" .calculator).program.kinds = [.expression (.literal .integer "5"), .empty] ∧
      (analyze "5::" .calculator).program.reread.size = 1 ∧
      (analyze "\u00a0:5" .calculator).program.kinds =
        [.invalid "", .expression (.literal .integer "5")] ∧
      (analyze "\u00a0:5" .calculator).program.reread.kinds =
        [.empty, .expression (.literal .integer "5")] := by
  decide +kernel

end CalcSyntax
