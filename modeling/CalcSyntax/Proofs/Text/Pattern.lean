import CalcSyntax.Grammar.Lexicon

/-!
# Pattern — the ways to fit the front of a text

A pattern may fit the front of a text in several ways: an optional part is taken or left
out, and a run takes more characters or fewer. The ways come in an order. To take more
goes before taking less, and the left of two alternatives before the right.
`Pattern.rests` lists what each way leaves of the text, in that order, and the match is
the first of them (`Pattern.match?`).

A sequence may have to go back. Where its second part does not fit behind the first way
of its first part, the next way is tried. `Pattern.first?_seq_many` says when that is in
vain: behind a shorter run the second part would meet a character of the run.

## What is proved

- `Pattern.first?_seq_many` — a run is not given back in part, if what follows it begins
  with no character of the run.
- `Pattern.match?_of_takes` — what a pattern matches, told by what it takes.
-/

set_option autoImplicit false

namespace CalcSyntax

/-- A pattern for the front of a text. -/
inductive Pattern where
  /-- A character of a class. -/
  | one (p : Char → Bool)
  /-- A run of characters of a class, as long as possible. -/
  | many (p : Char → Bool)
  /-- A part that may be missing. -/
  | option (a : Pattern)
  /-- One part behind the other. -/
  | seq (a b : Pattern)
  /-- One of two parts, the left one first. -/
  | either (a b : Pattern)

namespace Pattern

/-- What is left behind a run of characters of a class, longer runs first. -/
def behindRuns (p : Char → Bool) : List Char → List (List Char)
  | [] => [[]]
  | c :: cs => if p c then behindRuns p cs ++ [c :: cs] else [c :: cs]

/-- What is left of a text for each way in which it begins with the pattern, the preferred
way first. -/
def rests : Pattern → List Char → List (List Char)
  | one _, [] => []
  | one p, c :: cs => if p c then [cs] else []
  | many p, cs => behindRuns p cs
  | option a, cs => a.rests cs ++ [cs]
  | seq a b, cs => (a.rests cs).flatMap b.rests
  | either a b, cs => a.rests cs ++ b.rests cs

/-- What is left behind the preferred way. -/
def first? (a : Pattern) (cs : List Char) : Option (List Char) := (a.rests cs).head?

/-- The part of a text that the preferred way takes. -/
def match? (a : Pattern) (cs : List Char) : Option (List Char) :=
  (a.first? cs).map fun rest => cs.take (cs.length - rest.length)

variable {a b : Pattern} {p : Char → Bool} {c : Char} {cs : List Char}

@[simp] theorem first?_one_cons (p : Char → Bool) (c : Char) (cs : List Char) :
    (one p).first? (c :: cs) = if p c then some cs else none := by
  rw [first?, rests]
  split <;> rfl

@[simp] theorem first?_option (a : Pattern) (cs : List Char) :
    (option a).first? cs = some ((a.first? cs).getD cs) := by
  rw [first?, rests, List.head?_append, first?]
  cases (a.rests cs).head? <;> rfl

@[simp] theorem first?_either (a b : Pattern) (cs : List Char) :
    (either a b).first? cs = (a.first? cs).or (b.first? cs) := List.head?_append

/-- The ways of the first part are tried until the second part fits. -/
theorem first?_seq (a b : Pattern) (cs : List Char) :
    (seq a b).first? cs = (a.rests cs).findSome? b.first? := List.head?_flatMap

/-- In front of a part that always fits, the preferred way stays. -/
theorem first?_seq_option (a b : Pattern) (cs : List Char) :
    (seq a (option b)).first? cs = (a.first? cs).map fun rest => (b.first? rest).getD rest := by
  rw [first?_seq, first?]
  cases a.rests cs with
  | nil => rfl
  | cons rest more => rw [List.findSome?_cons, first?_option]; rfl

/-- There is one way to fit a character. -/
theorem first?_seq_one (p : Char → Bool) (b : Pattern) (c : Char) (cs : List Char) :
    (seq (one p) b).first? (c :: cs) = if p c then b.first? cs else none := by
  rw [first?_seq, rests]
  split
  · rw [List.findSome?_singleton]
  · rfl

/-- A run goes on as far as it can. -/
@[simp] theorem first?_many (p : Char → Bool) (cs : List Char) :
    (many p).first? cs = some (cs.dropWhile p) := by
  rw [first?, rests]
  induction cs with
  | nil => rfl
  | cons c cs ih =>
    by_cases hc : p c = true
    · rw [behindRuns, if_pos hc, List.head?_append, ih, Option.some_or, List.dropWhile_cons_of_pos hc]
    · rw [behindRuns, if_neg hc, List.dropWhile_cons_of_neg hc, List.head?_cons]

/-- **A run is not given back in part**: a shorter one is in vain, where what follows fits in
front of no character of the run. -/
theorem first?_seq_many (hb : ∀ c cs, p c = true → b.first? (c :: cs) = none) (cs : List Char) :
    (seq (many p) b).first? cs = b.first? (cs.dropWhile p) := by
  rw [first?_seq, rests]
  induction cs with
  | nil => rw [behindRuns, List.findSome?_singleton, List.dropWhile_nil]
  | cons c cs ih =>
    by_cases hc : p c = true
    · rw [behindRuns, if_pos hc, List.findSome?_append, ih, List.findSome?_singleton, hb c cs hc,
        Option.or_none, List.dropWhile_cons_of_pos hc]
    · rw [behindRuns, if_neg hc, List.findSome?_singleton, List.dropWhile_cons_of_neg hc]

/-- Sequences are grouped as one likes. -/
theorem first?_seq_assoc (a b d : Pattern) (cs : List Char) :
    (seq (seq a b) d).first? cs = (seq a (seq b d)).first? cs := by
  simp only [first?, rests, List.flatMap_assoc]

/-- The pattern fits where `take` takes something, and takes that. -/
def Takes (a : Pattern) (take : List Char → List Char) : Prop :=
  ∀ cs, a.first? cs = if (take cs).isEmpty then none else some (cs.drop (take cs).length)

/-- What is matched is what is taken. -/
theorem match?_of_first? {s : List Char} (hs : s <+: cs)
    (h : a.first? cs = some (cs.drop s.length)) : a.match? cs = some s := by
  have hlength : cs.length - (cs.drop s.length).length = s.length := by
    have := hs.length_le
    rw [List.length_drop]
    omega
  rw [match?, h, Option.map_some, hlength, ← List.prefix_iff_eq_take.mp hs]

theorem match?_of_takes {take : List Char → List Char} (h : a.Takes take)
    (hfront : ∀ cs, take cs <+: cs) (cs : List Char) :
    a.match? cs = if (take cs).isEmpty then none else some (take cs) := by
  have hfirst := h cs
  split
  · next hempty => rw [match?, hfirst, if_pos hempty]; rfl
  · next hne =>
    rw [if_neg hne] at hfirst
    exact match?_of_first? (hfront cs) hfirst

end Pattern

end CalcSyntax
