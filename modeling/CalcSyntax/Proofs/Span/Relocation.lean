import CalcSyntax.Program.Basic
import CalcSyntax.Segment

/-!
# Relocation — the same words at other places

A text that is read behind another text stands at other places and says
the same. `relocate` gives everything that carries a span another place
and changes nothing else: tokens, stray characters, faults, diagnostics
and statements. It is stated for any function on spans, so that it serves
a move (`Span.shift`) and forgetting the place altogether (`fun _ => .origin`).

How far a text moves the words behind it is its `Distance.after`: its
bytes, its line breaks, and the characters behind the last of them.

## What is proved

- `relocate_report`: the wording of a fault or of a stray character does
  not depend on its place.
- `Span.join_shift`: joining commutes with a move, so the span of a
  statement moves as its parts do.
- `Distance.after_append_line`, `Distance.after_append_break`: how the
  distance grows along a line, and over the end of one.
-/

set_option autoImplicit false

namespace CalcSyntax

/-! ## Distances -/

/-- How far a place is from the beginning of a text. -/
structure Distance where
  bytes : Nat
  lines : Nat
  /-- The characters behind the last line feed. -/
  columns : Nat
deriving DecidableEq

namespace Distance

/-- The distance to the end of a text. -/
def after (before : List Char) : Distance :=
  ⟨byteLength before, before.count '\n', (before.reverse.takeWhile (· ≠ '\n')).length⟩

end Distance

/-- A span on the first line of a text, once the text stands so far from the
beginning of another. -/
def Span.shift (d : Distance) (a : Span) : Span :=
  ⟨d.bytes + a.start, d.bytes + a.stop, d.lines + a.line, d.columns + a.column⟩

theorem byteLength_append (as bs : List Char) :
    byteLength (as ++ bs) = byteLength as + byteLength bs := by
  induction as with
  | nil => simp only [List.nil_append, byteLength, Nat.zero_add]
  | cons a as ih => simp only [List.cons_append, byteLength, ih, Nat.add_assoc]

/-- Along a line, columns grow by characters. -/
theorem Distance.after_append_line (before : List Char) {line : List Char} (h : '\n' ∉ line) :
    after (before ++ line) =
      ⟨(after before).bytes + byteLength line, (after before).lines,
        (after before).columns + line.length⟩ := by
  have hl : ∀ c ∈ line.reverse, decide (c ≠ '\n') = true := by
    intro c hc
    refine decide_eq_true ?_
    rintro rfl
    exact h (List.mem_reverse.mp hc)
  have hc : line.count '\n' = 0 := List.count_eq_zero.mpr h
  simp only [after, byteLength_append, List.count_append, hc, Nat.add_zero, List.reverse_append,
    List.takeWhile_append_of_pos hl, List.length_append, List.length_reverse,
    Nat.add_comm line.length]

/-- Behind a line feed columns begin again. -/
theorem Distance.after_append_break (before : List Char) :
    after (before ++ ['\n']) = ⟨(after before).bytes + 1, (after before).lines + 1, 0⟩ := by
  have hb : byteLength ['\n'] = 1 := by decide
  simp only [after, byteLength_append, hb, List.count_append, List.count_singleton_self,
    List.reverse_append, List.reverse_singleton, List.singleton_append, ne_eq,
    decide_not, List.takeWhile_cons, decide_true, Bool.not_true, Bool.false_eq_true, ↓reduceIte,
    List.length_nil]

/-- Joining commutes with a move. -/
theorem Span.join_shift (d : Distance) (a b : Span) :
    (a.shift d).join (b.shift d) = (a.join b).shift d := by
  have hs : (d.bytes + a.start ≤ d.bytes + b.start) ↔ a.start ≤ b.start :=
    Nat.add_le_add_iff_left
  by_cases h : a.start ≤ b.start
  · simp only [join, shift, hs, if_pos h, Nat.add_max_add_left]
  · simp only [join, shift, hs, if_neg h, Nat.add_max_add_left]

/-! ## Relocating -/

variable (φ : Span → Span)

/-- The token at another place. -/
def Token.relocate (t : Token) : Token := { t with span := φ t.span }

/-- A token at no place in particular. -/
def Token.bare (kind : TokenKind) (lexeme : String) : Token := ⟨kind, lexeme, .origin⟩

/-- The stray character at another place. -/
def Stray.relocate (s : Stray) : Stray := { s with span := φ s.span }

/-- The item at another place. -/
def Item.relocate : Item → Item
  | .ok t => .ok (t.relocate φ)
  | .error s => .error (s.relocate φ)

/-- The fault about the token at another place. -/
def Fault.relocate : Fault → Fault
  | unexpected wanted t => unexpected wanted (t.relocate φ)
  | noLeftOperand t => noLeftOperand (t.relocate φ)
  | emptyGroup t => emptyGroup (t.relocate φ)
  | unknownCommand t => unknownCommand (t.relocate φ)
  | unknownFunction t => unknownFunction (t.relocate φ)
  | wrongCount t wanted count => wrongCount (t.relocate φ) wanted count
  | tooDeep t => tooDeep (t.relocate φ)

/-- The diagnostic with both of its spans elsewhere. -/
def Diagnostic.relocate (d : Diagnostic) : Diagnostic :=
  { d with span := φ d.span, statement := d.statement.map φ }

/-- The statement at another place. -/
def Statement.relocate (s : Statement) : Statement := { s with span := φ s.span }

@[simp] theorem Token.kind_relocate (t : Token) : (t.relocate φ).kind = t.kind := rfl

@[simp] theorem Token.lexeme_relocate (t : Token) : (t.relocate φ).lexeme = t.lexeme := rfl

@[simp] theorem Token.span_relocate (t : Token) : (t.relocate φ).span = φ t.span := rfl

@[simp] theorem Token.kind_bare (kind : TokenKind) (lexeme : String) :
    (bare kind lexeme).kind = kind := rfl

@[simp] theorem Item.span_relocate (i : Item) : (i.relocate φ).span = φ i.span := by
  cases i <;> rfl

/-- A fault is worded alike wherever it stands. -/
theorem Fault.relocate_report (f : Fault) : (f.relocate φ).report = f.report.relocate φ := by
  cases f <;> rfl

/-- A stray character is worded alike wherever it stands. -/
theorem Stray.relocate_report (s : Stray) : (s.relocate φ).report = s.report.relocate φ := by
  unfold Stray.report
  by_cases h : s.char = '.'
  · have h' : (s.relocate φ).char = '.' := h
    rw [if_pos h, if_pos h']
    rfl
  · have h' : ¬ (s.relocate φ).char = '.' := h
    rw [if_neg h, if_neg h']
    rfl

/-- What a diagnostic says, its places apart. -/
def Diagnostic.wording (d : Diagnostic) : DiagnosticKind × String × String × Option String :=
  (d.kind, d.code, d.message, d.hint)

@[simp] theorem Diagnostic.wording_relocate (d : Diagnostic) :
    (d.relocate φ).wording = d.wording := rfl

@[simp] theorem Statement.kind_relocate (s : Statement) : (s.relocate φ).kind = s.kind := rfl

end CalcSyntax
