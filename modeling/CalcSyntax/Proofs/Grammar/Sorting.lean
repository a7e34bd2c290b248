import CalcSyntax.Proofs.Grammar.Lexicon
import Mathlib.Data.List.Destutter

/-!
# Sorting — the words as a stable sort leaves them

The words of a lexicon are entered one by one, each in its place. The same list comes
about if all spellings are written down in the order of their sources, sorted, and
of those that stand side by side with one spelling only the first is kept. The sort
must be stable: among words of one spelling the order of the sources decides, and
nothing else does.

## What is proved

- `Word.find?_mergeSort` — a stable sort leaves the first word of a spelling first.
- `Word.ordered_destutter` — without repetitions, a sorted list is ordered.
- `Word.enterAll_eq` — entering words is sorting them and dropping repetitions.
-/

set_option autoImplicit false

namespace CalcSyntax

namespace Word

variable {a b c : Word} {ws : List Word}

/-- A word may stand in front of another one: it need not be tried later. -/
def notAfter (a b : Word) : Bool := !b.before a

theorem notAfter_iff : a.notAfter b = true ↔ a.before b = true ∨ a.spelling = b.spelling := by
  rw [notAfter, Bool.not_eq_true']
  constructor
  · intro h
    by_cases he : a.spelling = b.spelling
    · exact .inr he
    · refine .inl ((before_or_before he).resolve_right ?_)
      rw [h]
      exact Bool.false_ne_true
  · intro h
    apply Bool.eq_false_iff.mpr
    intro hba
    rcases h with hab | he
    · exact ne_of_before (before_trans hab hba) rfl
    · exact ne_of_before hba he.symm

theorem before_of_before_of_notAfter (hab : a.before b = true) (hbc : b.notAfter c = true) :
    a.before c = true := by
  rcases notAfter_iff.mp hbc with hbc | he
  · exact before_trans hab hbc
  · rw [before_iff, he] at hab
    exact before_iff.mpr hab

theorem notAfter_trans (a b c : Word) (hab : a.notAfter b = true) (hbc : b.notAfter c = true) :
    a.notAfter c = true := by
  rcases notAfter_iff.mp hab with hab | he
  · exact notAfter_iff.mpr (.inl (before_of_before_of_notAfter hab hbc))
  · rw [notAfter_iff, before_iff, ← he, ← before_iff] at hbc
    exact notAfter_iff.mpr hbc

theorem notAfter_total (a b : Word) : (a.notAfter b || b.notAfter a) = true := by
  rw [Bool.or_eq_true, notAfter_iff, notAfter_iff]
  by_cases he : a.spelling = b.spelling
  · exact .inl (.inr he)
  · exact (before_or_before he).imp .inl .inl

/-! ## Sorting -/

/-- Sorting leaves words of one spelling in their order, since any order of these is sorted. -/
theorem filter_mergeSort (ws : List Word) (s : List Char) :
    (ws.mergeSort notAfter).filter (fun u => decide (u.spelling = s)) =
      ws.filter fun u => decide (u.spelling = s) := by
  have hsorted : (ws.filter fun u => decide (u.spelling = s)).Pairwise
      fun a b => a.notAfter b = true := by
    have hsame {u : Word} (hu : u ∈ ws.filter fun u => decide (u.spelling = s)) : u.spelling = s :=
      of_decide_eq_true (List.mem_filter.mp hu).2
    apply List.pairwise_of_forall_mem_list
    intro a ha b hb
    exact notAfter_iff.mpr (.inr ((hsame ha).trans (hsame hb).symm))
  have hsub := (List.sublist_mergeSort notAfter_trans notAfter_total hsorted
    List.filter_sublist).filter fun u => decide (u.spelling = s)
  simp only [List.filter_filter, Bool.and_self] at hsub
  refine (hsub.eq_of_length ?_).symm
  exact ((List.mergeSort_perm ws notAfter).filter _).length_eq.symm

/-- **The first word of a spelling is first behind a stable sort as well.** -/
theorem find?_mergeSort (ws : List Word) (s : List Char) :
    (ws.mergeSort notAfter).find? (fun u => decide (u.spelling = s)) =
      ws.find? fun u => decide (u.spelling = s) := by
  rw [← List.head?_filter, ← List.head?_filter, filter_mergeSort]

/-! ## Dropping repetitions -/

/-- The first word of a spelling is kept. -/
theorem find?_destutter' (a : Word) (ws : List Word) (s : List Char) :
    (ws.destutter' (fun a b => a.spelling ≠ b.spelling) a).find?
        (fun u => decide (u.spelling = s)) =
      (a :: ws).find? fun u => decide (u.spelling = s) := by
  induction ws generalizing a with
  | nil => rfl
  | cons b ws ih =>
    rw [List.destutter'_cons]
    split
    · simp only [List.find?_cons, ih]
    · next hsame =>
      rw [ih, List.find?_cons, List.find?_cons, List.find?_cons, Decidable.not_not.mp hsame]
      split <;> rfl

/-- Without repetitions, a sorted list is ordered. -/
theorem ordered_destutter' (h : (a :: ws).Pairwise fun a b => a.notAfter b = true) :
    Ordered (ws.destutter' (fun a b => a.spelling ≠ b.spelling) a) := by
  induction ws generalizing a with
  | nil => exact List.pairwise_singleton _ _
  | cons b ws ih =>
    obtain ⟨hfirst, hrest⟩ := List.pairwise_cons.mp h
    rw [List.destutter'_cons]
    split
    · next hne =>
      refine List.pairwise_cons.mpr ⟨fun u hu => ?_, ih hrest⟩
      have hab : a.before b = true :=
        (notAfter_iff.mp (hfirst b List.mem_cons_self)).resolve_right hne
      rcases List.mem_cons.mp ((List.destutter'_sublist _ _ b).subset hu) with rfl | hu
      · exact hab
      · exact before_of_before_of_notAfter hab ((List.pairwise_cons.mp hrest).1 u hu)
    · refine ih (List.pairwise_cons.mpr ⟨fun u hu => ?_, (List.pairwise_cons.mp hrest).2⟩)
      exact hfirst u (List.mem_cons_of_mem _ hu)

theorem find?_destutter (ws : List Word) (s : List Char) :
    (ws.destutter fun a b => a.spelling ≠ b.spelling).find? (fun u => decide (u.spelling = s)) =
      ws.find? fun u => decide (u.spelling = s) := by
  cases ws with
  | nil => rfl
  | cons a ws => exact find?_destutter' a ws s

theorem ordered_destutter (h : ws.Pairwise fun a b => a.notAfter b = true) :
    Ordered (ws.destutter fun a b => a.spelling ≠ b.spelling) := by
  cases ws with
  | nil => exact List.Pairwise.nil
  | cons a ws => exact ordered_destutter' h

/-- **Entering words is sorting them**, in a stable way, and keeping the first of those that
stand side by side with one spelling. -/
theorem enterAll_eq (ws : List Word) :
    enterAll ws = (ws.mergeSort notAfter).destutter fun a b => a.spelling ≠ b.spelling := by
  have hordered := ordered_destutter (List.pairwise_mergeSort notAfter_trans notAfter_total ws)
  refine (ordered_enterAll ws).eq_of_forall_mem hordered fun u => ?_
  rw [mem_enterAll_iff, hordered.mem_iff, find?_destutter, find?_mergeSort]

end Word

end CalcSyntax
