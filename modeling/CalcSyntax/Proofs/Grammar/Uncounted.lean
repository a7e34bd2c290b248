import CalcSyntax.Proofs.Reading.Language

/-!
# Uncounted — a grammar whose words take any number of arguments

How many arguments a word takes is counted once they are read, and does not tell how to
read them. Leave the counts out of the tables, and the same tokens are read the same way,
up to the place where a count would have been wrong. A command that takes a label goes
on taking one: that is not a number.

## What is proved

`Derives.uncounted` — a phrase of the grammar is one without the counts.
-/

set_option autoImplicit false

namespace CalcSyntax

/-! ## Tables -/

namespace Table

variable {α κ : Type} [Keyed α κ]

/-- The table with all its entries changed, each under its own key. -/
def mapEntries (t : Table α) (f : α → α) (hf : ∀ d, Keyed.key (f d) = Keyed.key d) : Table α where
  entries := t.entries.map f
  distinct := by
    rw [List.map_map, show Keyed.key ∘ f = Keyed.key from funext hf]
    exact t.distinct

theorem get?_mapEntries [DecidableEq κ] (t : Table α) (f : α → α)
    (hf : ∀ d, Keyed.key (f d) = Keyed.key d) (k : κ) :
    (t.mapEntries f hf).get? k = (t.get? k).map f := by
  have hkey : (fun e => decide (Keyed.key e = k)) ∘ f = fun e => decide (Keyed.key e = k) :=
    funext fun e => by rw [Function.comp_apply, hf]
  simp only [get?, mapEntries, List.find?_map, hkey]

end Table

/-- The command with any number of arguments, or with its label. -/
def CommandEntry.uncounted (d : CommandEntry) : CommandEntry :=
  { d with args := if d.takesLabel then .label else .atLeast 0 }

/-- The function with any number of arguments. -/
def FunctionEntry.uncounted (d : FunctionEntry) : FunctionEntry := { d with args := .atLeast 0 }

namespace CommandEntry

variable (d : CommandEntry)

@[simp] theorem opensParen_uncounted : d.uncounted.opensParen = d.opensParen := rfl

@[simp] theorem takesLabel_uncounted : d.uncounted.takesLabel = d.takesLabel := by
  unfold uncounted
  cases h : d.takesLabel <;> rfl

@[simp] theorem args_uncounted_eq_label : d.uncounted.args = .label ↔ d.args = .label := by
  have h : d.uncounted.takesLabel = true ↔ d.takesLabel = true := by rw [takesLabel_uncounted]
  simpa [takesLabel] using h

theorem accepts_uncounted {d : CommandEntry} (takes : d.args ≠ .label) (count : Nat) :
    d.uncounted.args.accepts count = true := by
  have h : d.takesLabel = false := beq_false_of_ne takes
  simp [uncounted, h, Arity.accepts]

end CommandEntry

@[simp] theorem FunctionEntry.accepts_uncounted (d : FunctionEntry) (count : Nat) :
    d.uncounted.args.accepts count = true := by
  simp [uncounted, Arity.accepts]

namespace Grammar

/-- The grammar without the numbers of arguments. -/
def uncounted (g : Grammar) : Grammar where
  commands := g.commands.mapEntries CommandEntry.uncounted fun _ => rfl
  functions := g.functions.mapEntries FunctionEntry.uncounted fun _ => rfl
  operators := g.operators

variable (g : Grammar)

@[simp] theorem operators_uncounted : g.uncounted.operators = g.operators := rfl

@[simp] theorem command?_uncounted (keyword : String) :
    g.uncounted.command? keyword = (g.command? keyword).map CommandEntry.uncounted :=
  g.commands.get?_mapEntries CommandEntry.uncounted (fun _ => rfl) keyword

@[simp] theorem function?_uncounted (name : String) :
    g.uncounted.function? name = (g.function? name).map FunctionEntry.uncounted :=
  g.functions.get?_mapEntries FunctionEntry.uncounted (fun _ => rfl) name

end Grammar

/-! ## Phrases -/

variable {g : Grammar} {p : Phrase} {ts rest : List Token}

/-- **A phrase of the grammar is one without the counts.** -/
theorem Derives.uncounted (h : Derives g p ts rest) : Derives g.uncounted p ts rest := by
  induction h with
  | integer kind => exact .integer kind
  | float kind => exact .float kind
  | var kind => exact .var kind
  | group kind _ close ih => exact .group kind ih close
  | @call t _ _ _ d count kind known _ close _ ih =>
    have hknown : g.uncounted.function? t.lexeme = some d.uncounted := by simp [known]
    exact .call kind hknown ih close (d.accepts_uncounted count)
  | noPostfix => exact .noPostfix
  | postfixed op _ ih => exact .postfixed op ih
  | prefixed op _ ih => exact .prefixed op ih
  | operand _ _ atom postfixes => exact .operand atom postfixes
  | noInfix => exact .noInfix
  | infixed op _ _ right more => exact .infixed op right more
  | expr _ _ first more => exact .expr first more
  | last _ ih => exact .last ih
  | comma _ kind _ e more => exact .comma e kind more
  | noArgument => exact .noArgument
  | arguments _ ih => exact .arguments ih

end CalcSyntax
