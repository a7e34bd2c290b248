/-!
# Table — entries in order of registration, one to a key

A grammar is three tables. An entry is found by its key, and registering
an entry whose key is taken replaces the old one in its place, so the
order a reader sees is the order in which the keys first came.

That no key occurs twice is part of the type. It is what makes "the entry
of a key" a meaningful phrase: `get?_eq_some_iff` says that looking a key
up finds an entry exactly when the table holds it.
-/

set_option autoImplicit false

namespace CalcSyntax

/-- Entries that are told apart by a key. -/
class Keyed (α : Type) (κ : outParam Type) where
  key : α → κ

/-- A list of entries, no two of one key. -/
structure Table (α : Type) {κ : Type} [Keyed α κ] where
  entries : List α
  distinct : (entries.map Keyed.key).Nodup

namespace Table

variable {α κ : Type} [Keyed α κ]

/-- The table with no entry. -/
def empty : Table α := ⟨[], List.nodup_nil⟩

variable [DecidableEq κ]

/-- Puts an entry where its key stands, at the end if it is new. -/
def put (d : α) : List α → List α
  | [] => [d]
  | e :: es => if Keyed.key e = Keyed.key d then d :: es else e :: put d es

/-- Putting an entry adds at most its own key, and at the end. -/
theorem map_key_put (d : α) (es : List α) :
    (put d es).map Keyed.key =
      if Keyed.key d ∈ es.map Keyed.key then es.map Keyed.key
      else es.map Keyed.key ++ [Keyed.key d] := by
  induction es with
  | nil => simp [put]
  | cons e es ih =>
    by_cases h : Keyed.key e = Keyed.key d
    · simp [put, h]
    · have h' : ¬ Keyed.key d = Keyed.key e := fun k => h k.symm
      by_cases m : Keyed.key d ∈ es.map Keyed.key
      · rw [if_pos m] at ih
        rw [if_pos (by simpa [h'] using m)]
        simp [put, h, ih]
      · rw [if_neg m] at ih
        rw [if_neg (by simpa [h'] using m)]
        simp [put, h, ih]

/-- Registers an entry: it replaces the one of its key, or comes last. -/
def register (t : Table α) (d : α) : Table α where
  entries := put d t.entries
  distinct := by
    rw [map_key_put]
    split
    · exact t.distinct
    · next h =>
      rw [List.nodup_append]
      refine ⟨t.distinct, by simp, ?_⟩
      intro a ha b hb
      rw [List.mem_singleton] at hb
      exact fun k => h (hb ▸ k ▸ ha)

/-- Registers entries one after the other. -/
def registerAll (t : Table α) (ds : List α) : Table α := ds.foldl register t

/-- The table of the listed entries, the last one of a key winning. -/
def ofList (ds : List α) : Table α := empty.registerAll ds

/-- The entry of a key. -/
def get? (t : Table α) (k : κ) : Option α := t.entries.find? fun e => Keyed.key e = k

/-- Whether a key has an entry. -/
def contains (t : Table α) (k : κ) : Bool := (t.get? k).isSome

/-- How many entries there are. -/
def size (t : Table α) : Nat := t.entries.length

/-- Looking up a key finds the one entry that has it. -/
theorem get?_eq_some_iff {t : Table α} {k : κ} {e : α} :
    t.get? k = some e ↔ e ∈ t.entries ∧ Keyed.key e = k := by
  constructor
  · intro h
    exact ⟨List.mem_of_find?_eq_some h, by simpa using List.find?_some h⟩
  · intro ⟨hm, hk⟩
    have key : ∀ es : List α, (es.map Keyed.key).Nodup → e ∈ es →
        es.find? (fun e => decide (Keyed.key e = k)) = some e := by
      intro es
      induction es with
      | nil => intro _ h; cases h
      | cons x xs ih =>
        intro hn hx
        rw [List.map_cons, List.nodup_cons] at hn
        rcases List.mem_cons.mp hx with rfl | hx
        · simp [hk]
        · have hne : Keyed.key x ≠ k := fun h =>
            hn.1 (h ▸ hk ▸ List.mem_map_of_mem hx)
          simp [hne, ih hn.2 hx]
    exact key t.entries t.distinct hm

end Table

end CalcSyntax
