import CalcSyntax.Expr.Source
import CalcSyntax.Proofs.Expr.Power
import CalcSyntax.Proofs.Reading.Reread
import CalcSyntax.Proofs.Token.Vocabulary

/-!
# Printed — the words of an expression's text

The text of an expression puts words next to each other that must not grow
together. Each place where that could happen is looked at once: operators
between operands have a blank on both sides, a number, a variable or an
operand as a whole ends in front of a separator, and a minus in front of an
operand is kept from another minus and from an arrow head.

## What is proved

`Expr.reads_source` — the words of the text are the tokens of the tree, for
every tree over the calculator's words, whether or not it fits.
-/

set_option autoImplicit false

namespace CalcSyntax

namespace Expr

variable {e : Expr} {es : List Expr} {r : List Char}

/-- Whether the text begins, and not with the arrow head that would go on with a
minus. -/
def leads (text : String) : Bool := text.toList.head?.any (· != '>')

theorem exists_of_leads {text : String} (h : leads text = true) :
    ∃ c cs, text.toList = c :: cs ∧ c ≠ '>' := by
  unfold leads at h
  cases hl : text.toList with
  | nil => rw [hl] at h; cases h
  | cons c cs =>
    rw [hl] at h
    exact ⟨c, cs, rfl, bne_iff_ne.mp h⟩

theorem leads_append {s : String} (h : leads s = true) (t : String) : leads (s ++ t) = true := by
  obtain ⟨c, cs, hc, hne⟩ := exists_of_leads h
  rw [leads, String.toList_append, hc]
  exact bne_iff_ne.mpr hne

theorem leads_of_isNumeral (kind : TokenKind) {lexeme : String}
    (h : Numeral.IsNumeral ⟨lexeme.toList, kind⟩) : leads lexeme = true := by
  obtain ⟨c, cs, hc⟩ : ∃ c cs, lexeme.toList = c :: cs :=
    List.exists_cons_of_ne_nil (Numeral.numeral?_eq_some (numeral?_eq_self h)).2
  have hcontinues := Numeral.continues_of_mem h c (by rw [hc]; exact List.mem_cons_self)
  rw [leads, hc]
  refine bne_iff_ne.mpr ?_
  rintro rfl
  exact absurd hcontinues (by decide)

theorem leads_glue {operator : String} (h : leads operator = true) (operand : String) :
    leads (glue operator operand) = true := by
  unfold glue
  split
  · exact leads_append (leads_append h " ") operand
  · exact leads_append h operand

theorem leads_source (h : e.IsOver .calculator) : leads e.source = true := by
  induction h with
  | integer hi => exact leads_of_isNumeral .integer (.inl ⟨rfl, hi⟩)
  | float hf => exact leads_of_isNumeral .float (.inr ⟨rfl, hf⟩)
  | @var name hv =>
    rcases hv with hn | ⟨c, hupper, hc⟩
    · have key : ∀ name ∈ namedVariables, leads name = true := by decide
      exact key name hn
    · rw [source, leads, hc]
      refine bne_iff_ne.mpr ?_
      rintro rfl
      cases hupper
  | binary _ _ _ ihl _ =>
    exact leads_append (leads_append (leads_append (leads_append ihl _) _) _) _
  | unary hd _ _ =>
    refine leads_glue ?_ _
    rcases minus_of_prefixOp hd with rfl | rfl <;> decide
  | suffixed hd _ _ => rw [no_postfixOp] at hd; cases hd
  | call hd _ _ _ =>
    obtain ⟨hm, rfl⟩ := Table.get?_eq_some_iff.mp hd
    have key : ∀ d ∈ calculatorFunctions, leads d.name = true := by decide
    exact leads_append (leads_append (key _ hm) _) _
  | group _ _ => exact leads_append (leads_append (by decide) _) _

/-! ## Lists -/

/-- The texts of a list are read one after the other, with the commas. -/
theorem reads_sources
    (h : ∀ e ∈ es, ∀ r, Separated r →
      Reads calcLexicon false (e.source.toList ++ r) e.tokens false r) (hr : Separated r) :
    Reads calcLexicon false ((",".intercalate (sources es)).toList ++ r) (listTokens es)
      false r := by
  induction es with
  | nil => exact .done
  | cons e es ih =>
    have he := h e List.mem_cons_self
    have ih := ih fun a ha => h a (List.mem_cons_of_mem _ ha)
    cases es with
    | nil =>
      rw [sources, sources, String.intercalate_singleton, listTokens, moreTokens, List.append_nil]
      exact he r hr
    | cons e' es =>
      rw [sources, sources, String.intercalate_cons_cons, String.toList_append,
        String.toList_append, List.append_assoc, List.append_assoc]
      rw [sources] at ih
      have hcomma := reads_closed_word isClosedWord_comma
        ((",".intercalate (e'.source :: sources es)).toList ++ r)
      exact (he _ (separated_cons rfl)).trans (hcomma.trans ih)

/-! ## Trees -/

/-- An operator in front of its operand does not grow into it. -/
theorem reads_glue {operator : String} {operand : Expr} {d : OperatorEntry}
    (hd : calcOps.operator? operator .prefixOp = some d) (h : operand.IsOver .calculator)
    (ho : Reads calcLexicon false (operand.source.toList ++ r) operand.tokens false r) :
    Reads calcLexicon false ((glue operator operand.source).toList ++ r)
      (.bare .operator operator :: operand.tokens) false r := by
  have hword := mem_spellings_of_operator hd
  have hminus := minus_of_prefixOp hd
  unfold glue
  split
  · rw [String.toList_append, String.toList_append, List.append_assoc, List.append_assoc]
    have hop := reads_separated_word hword
      (separated_cons (c := ' ') (r := operand.source.toList ++ r) rfl)
    exact hop.trans (ho.space operand.tokens_ne_nil)
  · next hnot =>
    obtain ⟨c, cs, hc, harrow⟩ := exists_of_leads (leads_source h)
    have hdash : c ≠ '-' := by
      rintro rfl
      refine hnot ⟨?_, by rw [hc]; rfl⟩
      rcases hminus with rfl | rfl <;> decide
    rw [String.toList_append, List.append_assoc]
    rcases hminus with rfl | rfl
    · have hnext : ∀ x ∈ (operand.source.toList ++ r).head?, x ≠ '-' ∧ x ≠ '>' := by
        rw [hc]
        intro x hx
        exact (Option.some.inj hx) ▸ ⟨hdash, harrow⟩
      have hop := reads_word (mem_words_of_mem_spellings hword) (not_longer_minus hnext)
      exact hop.trans ho
    · exact (reads_closed_word (isClosedWord_of_mem_spellings hword (by decide)) _).trans ho

/-- **The words of an expression's text are the tokens of the tree.** -/
theorem reads_source (h : e.IsOver .calculator) (hr : Separated r) :
    Reads calcLexicon false (e.source.toList ++ r) e.tokens false r := by
  induction h generalizing r with
  | integer hi => exact reads_numeral (.inl ⟨rfl, hi⟩) hr
  | float hf => exact reads_numeral (.inr ⟨rfl, hf⟩) hr
  | var hv => exact reads_variable hv hr
  | @binary left right operator d hd hl hrt ihl ihr =>
    simp only [source, String.toList_append, List.append_assoc]
    have hop := reads_separated_word (mem_spellings_of_operator hd)
      (separated_cons (c := ' ') (r := right.source.toList ++ r) rfl)
    exact (ihl (separated_cons rfl)).trans
      ((hop.space (List.cons_ne_nil _ _)).trans ((ihr hr).space right.tokens_ne_nil))
  | unary hd h ih => exact reads_glue hd h (ih hr)
  | suffixed hd _ _ => rw [no_postfixOp] at hd; cases hd
  | @call function arguments d hd _ _ ih =>
    simp only [source, tokens, String.toList_append, List.append_assoc]
    have hfunction := reads_closed_word (isClosedWord_function hd)
    have hlist := reads_sources (fun a ha r hr => ih a ha hr)
      (separated_cons (c := ')') (r := r) rfl)
    exact (hfunction _).trans (hlist.trans (reads_closed_word isClosedWord_rightParen r))
  | @group inner _ ih =>
    simp only [source, tokens, String.toList_append, List.append_assoc]
    have hinner := ih (separated_cons (c := ')') (r := r) rfl)
    have hclose := reads_closed_word isClosedWord_rightParen r
    exact (reads_closed_word isClosedWord_leftParen _).trans (hinner.trans hclose)

end Expr

end CalcSyntax
