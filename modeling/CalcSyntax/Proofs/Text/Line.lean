import CalcSyntax.Proofs.Span.Relocation
import CalcSyntax.Text.Rows

/-!
# Line — the rows of a text, and the line of a place

Two readers of a text have to agree on its lines. A cursor counts the line feeds
that it has passed and the characters behind the last of them. Whoever quotes a
row cuts the text at its line feeds, and takes the carriage return in front of one
for a part of the break. The two differ where a place lies between a carriage return
and its line feed: there the row ends in front of the place. Everywhere else
(`Apart`) the row of that number begins with what the cursor has counted.

## What is proved

- `exists_lastLine` — the line in which a text ends, by the count of its columns.
- `IsLine.row_eq` — a line is the row of its number.
- `exists_isLine` — a stretch without a line feed stands on a line, behind so many
  characters as are counted in front of it.
-/

set_option autoImplicit false

namespace CalcSyntax

/-- A text behind which a line begins. -/
def EndsLine (before : List Char) : Prop := before = [] ∨ before.getLast? = some '\n'

/-- No line break is cut in two between one text and the next. -/
def Apart (before after : List Char) : Prop :=
  before.getLast? = some '\r' → after.head? ≠ some '\n'

/-- What stands behind a row: a line break, or the end of the text. A carriage return that
belongs to the break is not left to the row. -/
inductive EndsRow (row : List Char) : List Char → List Char → Prop where
  | text : EndsRow row [] []
  | feed {after : List Char} (h : row.getLast? ≠ some '\r') : EndsRow row ['\n'] after
  | returnAndFeed {after : List Char} : EndsRow row ['\r', '\n'] after

/-- A row of a text, with the line break behind it. -/
structure IsLine (text before row ending after : List Char) : Prop where
  whole : text = before ++ (row ++ (ending ++ after))
  begins : EndsLine before
  inner : '\n' ∉ row
  ends : EndsRow row ending after

variable {before after line row ending text : List Char}

/-! ## Places -/

/-- The last line of a text. -/
theorem exists_lastLine (before : List Char) :
    ∃ earlier line, before = earlier ++ line ∧ EndsLine earlier ∧ '\n' ∉ line ∧
      line.length = (Distance.after before).columns := by
  refine ⟨(before.reverse.dropWhile (· ≠ '\n')).reverse,
    (before.reverse.takeWhile (· ≠ '\n')).reverse, ?_, ?_, ?_, List.length_reverse⟩
  · rw [← List.reverse_append, List.takeWhile_append_dropWhile, List.reverse_reverse]
  · rw [EndsLine, List.reverse_eq_nil_iff, List.getLast?_reverse]
    cases hrest : before.reverse.dropWhile (· ≠ '\n') with
    | nil => exact .inl rfl
    | cons c cs =>
      have hc := List.head?_dropWhile_not (· ≠ '\n') before.reverse
      rw [hrest] at hc
      exact .inr (congrArg some (by simpa using hc))
  · intro h
    have hne := List.all_eq_true.mp List.all_takeWhile _ (List.mem_reverse.mp h)
    exact absurd rfl (of_decide_eq_true hne)

theorem count_append_line (before : List Char) (h : '\n' ∉ line) :
    (before ++ line).count '\n' = before.count '\n' := by
  rw [List.count_append, List.count_eq_zero.mpr h, Nat.add_zero]

/-! ## Rows -/

/-- A line without the carriage return at its end. -/
def withoutReturn (line : List Char) : List Char :=
  if line.getLast? = some '\r' then line.dropLast else line

theorem rows_cons {c : Char} {cs : List Char} (hc : c ≠ '\n')
    (hreturn : c = '\r' → ∀ tail, cs ≠ '\n' :: tail) :
    rows (c :: cs) = (c :: (rows cs).headD []) :: (rows cs).tail := by
  rw [rows.eq_4]
  · cases rows cs <;> rfl
  · exact hc
  · intro tail hcr
    exact hreturn hcr tail

/-- What stands in front of a line feed is a row, but for the carriage return there. -/
theorem rows_line_break (h : '\n' ∉ line) (rest : List Char) :
    rows (line ++ '\n' :: rest) = withoutReturn line :: rows rest := by
  induction line with
  | nil => rfl
  | cons c line ih =>
    obtain ⟨hc, hline⟩ := List.ne_and_not_mem_of_not_mem_cons h
    by_cases hreturn : c = '\r' ∧ line = []
    · obtain ⟨rfl, rfl⟩ := hreturn
      rfl
    · have hstay : withoutReturn (c :: line) = c :: withoutReturn line := by
        cases line with
        | nil =>
          have hcr : c ≠ '\r' := fun hcr => hreturn ⟨hcr, rfl⟩
          rw [withoutReturn, if_neg (by simpa using hcr)]
          rfl
        | cons d line =>
          rw [withoutReturn, withoutReturn, List.getLast?_cons_cons]
          split <;> rfl
      rw [List.cons_append, rows_cons (Ne.symm hc), ih hline, hstay]
      · rfl
      · rintro rfl tail htail
        cases line with
        | nil => exact hreturn ⟨rfl, rfl⟩
        | cons d line => exact hline ((List.cons.inj htail).1 ▸ List.mem_cons_self)

/-- Without a line feed a text is one row, or none. -/
theorem rows_line (h : '\n' ∉ line) : (rows line).headD [] = line ∧ (rows line).tail = [] := by
  induction line with
  | nil => exact ⟨rfl, rfl⟩
  | cons c line ih =>
    obtain ⟨hc, hline⟩ := List.ne_and_not_mem_of_not_mem_cons h
    obtain ⟨hhead, htail⟩ := ih hline
    rw [rows_cons (Ne.symm hc), hhead, htail]
    · exact ⟨rfl, rfl⟩
    · rintro _ tail rfl
      exact hline List.mem_cons_self

/-- The rows of whole lines stand above those of what comes behind. The induction is on the
line feeds. -/
theorem exists_rows_append (h : EndsLine before) :
    ∃ above, above.length = before.count '\n' ∧
      ∀ rest, rows (before ++ rest) = above ++ rows rest := by
  induction hn : before.count '\n' generalizing before with
  | zero =>
    rcases h with rfl | hlast
    · exact ⟨[], rfl, fun _ => rfl⟩
    · exact absurd (List.mem_of_getLast? hlast) (List.count_eq_zero.mp hn)
  | succ n ih =>
    have hmem : '\n' ∈ before := List.count_pos_iff.mp (by omega)
    obtain ⟨line, behind, rfl, hline⟩ := List.eq_append_cons_of_mem hmem
    have hbehind : EndsLine behind := by
      rcases h with hnil | hlast
      · cases (List.append_eq_nil_iff.mp hnil).2
      · cases behind with
        | nil => exact .inl rfl
        | cons c cs =>
          rw [List.getLast?_append, List.getLast?_cons_cons] at hlast
          cases hcs : (c :: cs).getLast? with
          | none => cases List.getLast?_eq_none_iff.mp hcs
          | some d =>
            rw [hcs] at hlast
            exact .inr (hcs.trans hlast)
    have hcount : behind.count '\n' = n := by
      rw [List.count_append, List.count_eq_zero.mpr hline, List.count_cons_self] at hn
      omega
    obtain ⟨above, hlength, habove⟩ := ih hbehind hcount
    refine ⟨withoutReturn line :: above, congrArg (· + 1) hlength, fun rest => ?_⟩
    rw [List.append_assoc, List.cons_append, rows_line_break hline, habove, List.cons_append]

/-- **A line is the row of its number**, where a text has no row behind its last line feed. -/
theorem IsLine.row_eq (h : IsLine text before row ending after) :
    (rows text)[before.count '\n']?.getD [] = row := by
  obtain ⟨above, hlength, habove⟩ := exists_rows_append h.begins
  rw [h.whole, habove, ← hlength, List.getElem?_append_right (Nat.le_refl _), Nat.sub_self,
    ← List.head?_eq_getElem?, ← List.headD_eq_head?_getD]
  cases h.ends with
  | text =>
    rw [List.append_nil, List.append_nil]
    exact (rows_line h.inner).1
  | feed hlast =>
    show (rows (row ++ '\n' :: after)).headD [] = row
    rw [rows_line_break h.inner, List.headD_cons, withoutReturn, if_neg hlast]
  | returnAndFeed =>
    have hreturn : '\n' ∉ row ++ ['\r'] := fun hmem =>
      (List.mem_append.mp hmem).elim h.inner (by decide)
    have hrow : row ++ (['\r', '\n'] ++ after) = (row ++ ['\r']) ++ '\n' :: after := by
      rw [List.append_assoc]
      rfl
    rw [hrow, rows_line_break hreturn, List.headD_cons, withoutReturn,
      if_pos List.getLast?_concat, List.dropLast_concat]

/-! ## The line of a place -/

/-- A stretch without a line feed is continued up to the next line break. -/
theorem exists_row (hline : '\n' ∉ line) (hapart : Apart line after) :
    ∃ row ending below, line ++ after = row ++ (ending ++ below) ∧ line <+: row ∧ '\n' ∉ row ∧
      EndsRow row ending below := by
  by_cases hmem : '\n' ∈ after
  · obtain ⟨front, below, rfl, hfront⟩ := List.eq_append_cons_of_mem hmem
    have hinner {cs : List Char} (hcs : cs <+: front) : '\n' ∉ line ++ cs := fun h =>
      (List.mem_append.mp h).elim hline fun hcs' => hfront (hcs.subset hcs')
    rcases List.eq_nil_or_concat front with rfl | ⟨init, c, hconcat⟩
    · exact ⟨line, ['\n'], below, rfl, List.prefix_rfl, hline, .feed fun hlast =>
        hapart hlast rfl⟩
    · rw [List.concat_eq_append] at hconcat
      subst hconcat
      by_cases hc : c = '\r'
      · subst hc
        refine ⟨line ++ init, ['\r', '\n'], below, ?_, List.prefix_append _ _,
          hinner (List.prefix_append _ _), .returnAndFeed⟩
        simp only [List.append_assoc, List.cons_append, List.nil_append]
      · refine ⟨line ++ (init ++ [c]), ['\n'], below, ?_, List.prefix_append _ _,
          hinner List.prefix_rfl, .feed ?_⟩
        · simp only [List.append_assoc, List.cons_append, List.nil_append]
        · rw [← List.append_assoc, List.getLast?_concat]
          exact fun h => hc (Option.some.inj h)
  · refine ⟨line ++ after, [], [], ?_, List.prefix_append _ _, ?_, .text⟩
    · rw [List.append_nil, List.append_nil]
    · exact fun h => (List.mem_append.mp h).elim hline hmem

/-- **A stretch stands on a line**, if it holds no line feed and its end cuts no line break
in two. In front of it the line has as many characters as there are columns. -/
theorem exists_isLine {inner : List Char} (hinner : '\n' ∉ inner)
    (hapart : Apart (before ++ inner) after) :
    ∃ earlier line row ending below, before = earlier ++ line ∧ '\n' ∉ line ∧
      line.length = (Distance.after before).columns ∧ line ++ inner <+: row ∧
      IsLine (before ++ (inner ++ after)) earlier row ending below := by
  obtain ⟨earlier, line, rfl, hends, hline, hcolumns⟩ := exists_lastLine before
  have hstretch : '\n' ∉ line ++ inner := fun h => (List.mem_append.mp h).elim hline hinner
  have hrest : Apart (line ++ inner) after := by
    intro hlast
    apply hapart
    rw [List.append_assoc, List.getLast?_append, hlast, Option.some_or]
  obtain ⟨row, ending, below, hrow, hprefix, hfeed, hending⟩ := exists_row hstretch hrest
  refine ⟨earlier, line, row, ending, below, rfl, hline, hcolumns, hprefix, ?_, hends, hfeed,
    hending⟩
  rw [← hrow]
  simp only [List.append_assoc]

end CalcSyntax
