import CalcSyntax.Grammar.Basic

/-!
# Registration — what a history of registrations leaves

A grammar is reached by registering entries one after the other, and an entry
whose key is taken replaces the old one in its place. So a table lists its keys
in the order in which they first came, while the entry of a key is the last that
was registered for it. Whoever reads a grammar looks entries up by their key,
and what is found there is the history's last word on that key.

The three tables differ in what their keys are made of, and in nothing else.
`Registration` and `Registration.Key` put them side by side, so that each law is
one statement about `Grammar.lookup?`.

## What is proved

- `Grammar.lookup?_registerAll` — a key finds the last entry registered for it.
- `Grammar.SameEntries.agreesAt` — grammars that hold the same entries give the
  same answers.
- `Grammar.agreesAt_register` — a registration changes the answers about its own
  spelling alone.
-/

set_option autoImplicit false

namespace CalcSyntax

/-! ## One table -/

namespace Table

variable {α κ : Type} [Keyed α κ] [DecidableEq κ]

/-- Looking a key up in a list into which an entry was put. -/
theorem find?_put (d : α) (es : List α) (k : κ) :
    (put d es).find? (fun e => decide (Keyed.key e = k)) =
      if Keyed.key d = k then some d else es.find? fun e => decide (Keyed.key e = k) := by
  induction es with
  | nil => by_cases hk : Keyed.key d = k <;> simp [put, hk]
  | cons e es ih =>
    by_cases hput : Keyed.key e = Keyed.key d
    · rw [put, if_pos hput, List.find?_cons, List.find?_cons]
      by_cases hk : Keyed.key d = k <;> simp [hput, hk]
    · rw [put, if_neg hput, List.find?_cons, List.find?_cons, ih]
      by_cases hk : Keyed.key e = k
      · have hne : Keyed.key d ≠ k := fun h => hput (hk.trans h.symm)
        simp [hk, hne]
      · simp [hk]

/-- A key finds the entry that was registered for it just now, or what it found before. -/
theorem get?_register (t : Table α) (d : α) (k : κ) :
    (t.register d).get? k = if Keyed.key d = k then some d else t.get? k :=
  find?_put d t.entries k

end Table

/-! ## The three tables -/

/-- An entry to be registered, for one of the three tables. -/
inductive Registration where
  | command (d : CommandEntry)
  | function (d : FunctionEntry)
  | operator (d : OperatorEntry)
deriving DecidableEq

namespace Registration

/-- What tells the entries of a grammar apart. -/
inductive Key where
  | command (keyword : String)
  | function (name : String)
  | operator (symbol : String) (fixity : Fixity)
deriving DecidableEq

/-- The text in a key. -/
def Key.spelling : Key → String
  | command keyword => keyword
  | function name => name
  | operator symbol _ => symbol

/-- The key that an entry is registered for. -/
def key : Registration → Key
  | command d => .command d.keyword
  | function d => .function d.name
  | operator d => .operator d.symbol d.fixity

/-- The text that an entry is known by. -/
def spelling (r : Registration) : String := r.key.spelling

end Registration

namespace Grammar

/-- Registers an entry in its table. -/
def register (g : Grammar) : Registration → Grammar
  | .command d => g.registerCommand d
  | .function d => g.registerFunction d
  | .operator d => g.registerOperator d

/-- Registers entries one after the other. -/
def registerAll (g : Grammar) (rs : List Registration) : Grammar := rs.foldl register g

/-- The entry of a key. -/
def lookup? (g : Grammar) : Registration.Key → Option Registration
  | .command keyword => (g.command? keyword).map .command
  | .function name => (g.function? name).map .function
  | .operator symbol fixity => (g.operators.operator? symbol fixity).map .operator

/-- The entry stands in its table. -/
def Holds (g : Grammar) : Registration → Prop
  | .command d => d ∈ g.commands.entries
  | .function d => d ∈ g.functions.entries
  | .operator d => d ∈ g.operators.entries

/-- Two grammars hold the same entries, in whatever order. -/
def SameEntries (g h : Grammar) : Prop := ∀ r, g.Holds r ↔ h.Holds r

theorem sameEntries_iff {g h : Grammar} : g.SameEntries h ↔
    (g.commands.entries ⊆ h.commands.entries ∧ h.commands.entries ⊆ g.commands.entries) ∧
      (g.functions.entries ⊆ h.functions.entries ∧ h.functions.entries ⊆ g.functions.entries) ∧
        (g.operators.entries ⊆ h.operators.entries ∧
          h.operators.entries ⊆ g.operators.entries) := by
  constructor
  · intro hsame
    exact ⟨⟨fun d => (hsame (.command d)).mp, fun d => (hsame (.command d)).mpr⟩,
      ⟨fun d => (hsame (.function d)).mp, fun d => (hsame (.function d)).mpr⟩,
      ⟨fun d => (hsame (.operator d)).mp, fun d => (hsame (.operator d)).mpr⟩⟩
  · rintro ⟨⟨hc, hc'⟩, ⟨hf, hf'⟩, ho, ho'⟩ (d | d | d)
    · exact ⟨@hc d, @hc' d⟩
    · exact ⟨@hf d, @hf' d⟩
    · exact ⟨@ho d, @ho' d⟩

instance (g h : Grammar) : Decidable (g.SameEntries h) := decidable_of_iff _ sameEntries_iff.symm

/-- Two grammars give the same answers when they are asked about a spelling. -/
def AgreesAt (g h : Grammar) (s : String) : Prop :=
  ∀ k : Registration.Key, k.spelling = s → g.lookup? k = h.lookup? k

/-- Looking a key up finds the one entry that has it. -/
theorem lookup?_eq_some_iff {g : Grammar} {k : Registration.Key} {r : Registration} :
    g.lookup? k = some r ↔ g.Holds r ∧ r.key = k := by
  cases k with
  | command keyword =>
    cases r <;> simp [lookup?, command?, Holds, Registration.key, Table.get?_eq_some_iff]
    exact fun _ => Iff.rfl
  | function name =>
    cases r <;> simp [lookup?, function?, Holds, Registration.key, Table.get?_eq_some_iff]
    exact fun _ => Iff.rfl
  | operator symbol fixity =>
    cases r <;> simp [lookup?, Table.operator?, Holds, Registration.key, Table.get?_eq_some_iff]
    exact fun _ => Iff.of_eq (Prod.mk.injEq ..)

/-! ## Registering -/

theorem command?_register (g : Grammar) (d : CommandEntry) (s : String) :
    (g.registerCommand d).command? s = if d.keyword = s then some d else g.command? s :=
  Table.get?_register g.commands d s

theorem function?_register (g : Grammar) (d : FunctionEntry) (s : String) :
    (g.registerFunction d).function? s = if d.name = s then some d else g.function? s :=
  Table.get?_register g.functions d s

theorem operator?_register (g : Grammar) (d : OperatorEntry) (s : String) (f : Fixity) :
    (g.registerOperator d).operators.operator? s f =
      if d.symbol = s ∧ d.fixity = f then some d else g.operators.operator? s f := by
  have hkey : (Keyed.key d = (s, f)) = (d.symbol = s ∧ d.fixity = f) := Prod.mk.injEq ..
  have hget := Table.get?_register g.operators d (s, f)
  simp only [hkey] at hget
  exact hget

/-- A key finds the entry that was registered for it just now, or what it found before. -/
theorem lookup?_register (g : Grammar) (r : Registration) (k : Registration.Key) :
    (g.register r).lookup? k = if r.key = k then some r else g.lookup? k := by
  -- an entry of one table leaves the other two alone
  cases r with
  | command d =>
    cases k with
    | command keyword =>
      simp only [register, lookup?, Registration.key, command?_register,
        Registration.Key.command.injEq]
      split <;> rfl
    | function | operator => rfl
  | function d =>
    cases k with
    | function name =>
      simp only [register, lookup?, Registration.key, function?_register,
        Registration.Key.function.injEq]
      split <;> rfl
    | command | operator => rfl
  | operator d =>
    cases k with
    | operator symbol fixity =>
      simp only [register, lookup?, Registration.key, operator?_register,
        Registration.Key.operator.injEq]
      split <;> rfl
    | command | function => rfl

/-- **A key finds the last entry that was registered for it**, and what it found before
if there is none. -/
theorem lookup?_registerAll (g : Grammar) (rs : List Registration) (k : Registration.Key) :
    (g.registerAll rs).lookup? k =
      (rs.reverse.find? fun r => decide (r.key = k)).or (g.lookup? k) := by
  induction rs generalizing g with
  | nil => rfl
  | cons r rs ih =>
    rw [registerAll, List.foldl_cons, ← registerAll, ih, lookup?_register, List.reverse_cons,
      List.find?_append, Option.or_assoc, List.find?_singleton]
    by_cases hk : r.key = k <;> simp [hk]

/-! ## Answers -/

/-- Grammars that hold the same entries give the same answers. -/
theorem SameEntries.agreesAt {g h : Grammar} (hsame : g.SameEntries h) (s : String) :
    g.AgreesAt h s := by
  intro k _
  refine Option.ext fun r => ?_
  rw [lookup?_eq_some_iff, lookup?_eq_some_iff, hsame r]

/-- **A registration concerns its own spelling**, whether it adds an entry or replaces one. -/
theorem agreesAt_register (g : Grammar) {r : Registration} {s : String} (h : r.spelling ≠ s) :
    g.AgreesAt (g.register r) s := by
  intro k hk
  rw [lookup?_register, if_neg]
  rintro rfl
  exact h hk

namespace AgreesAt

variable {g h : Grammar} {s : String}

theorem command (hs : g.AgreesAt h s) : g.command? s = h.command? s :=
  Option.map_injective (fun _ _ => Registration.command.inj) (hs (.command s) rfl)

theorem function (hs : g.AgreesAt h s) : g.function? s = h.function? s :=
  Option.map_injective (fun _ _ => Registration.function.inj) (hs (.function s) rfl)

theorem operator (hs : g.AgreesAt h s) (f : Fixity) :
    g.operators.operator? s f = h.operators.operator? s f :=
  Option.map_injective (fun _ _ => Registration.operator.inj) (hs (.operator s f) rfl)

end AgreesAt

end Grammar

end CalcSyntax
