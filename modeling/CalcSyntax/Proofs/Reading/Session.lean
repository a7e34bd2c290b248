import CalcSyntax.Reading.Session

/-!
# Session — where a session stands after a rule

A session counts the tokens in front of its position, and a rule answers
with the tokens that it leaves. The two agree: what a rule leaves is a
suffix of what it was given, so behind the new position the session finds
just these tokens (`rest_run`). Nothing else of the session changes.
-/

set_option autoImplicit false

namespace CalcSyntax

namespace Session

variable {α : Type} (s : Session) (rule : Setting → Rule α)

/-- **After a rule the session stands in front of what the rule left.** -/
theorem rest_run : (s.run rule).2.rest = ((rule s.setting).run s.rest).rest := by
  have hsuffix : ((rule s.setting).run s.rest).rest <:+ s.tokens :=
    ((rule s.setting).rest_suffix s.rest).trans (List.drop_suffix s.position s.tokens)
  exact (List.suffix_iff_eq_drop.mp hsuffix).symm

/-- A rule that answers has run on the tokens from the position on, and the session
stands where it stopped. -/
theorem run_eq_ok {a : α} {behind : Session} (h : s.run rule = (.ok a, behind)) :
    (rule s.setting).run s.rest = .ok a behind.rest ∧ behind.setting = s.setting := by
  have hbehind : (s.run rule).2 = behind := congrArg Prod.snd h
  have hresult : ((rule s.setting).run s.rest).result = .ok a := congrArg Prod.fst h
  rw [← hbehind, rest_run]
  refine ⟨?_, rfl⟩
  cases ho : (rule s.setting).run s.rest with
  | ok b rest => rw [ho] at hresult; cases hresult; rfl
  | fail fault rest => rw [ho] at hresult; cases hresult

end Session

end CalcSyntax
