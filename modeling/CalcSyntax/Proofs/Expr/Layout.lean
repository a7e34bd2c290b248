import CalcSyntax.Expr.Source
import CalcSyntax.Proofs.Reading.Conservation
import CalcSyntax.Proofs.Token.Spacing

/-!
# Layout — the words of a printed expression in their places

The text of an expression is its tokens one after the other, with a blank in front
of some. `Expr.layout` lists the tokens with these blanks, so that one can say what
stands behind a word of the text.

## What is proved

- `Expr.text_layout` — the words in their places make up the text.
- `Expr.token_layout` — they are the tokens of the tree.
- `Expr.isPlain_of_mem_tokens` — a tree has no other tokens than those that expressions
  are written with.
-/

set_option autoImplicit false

namespace CalcSyntax

namespace Expr

mutual

/-- The words of an expression's text, with or without a blank in front of the first. -/
def layout : Expr → Bool → List Spaced
  | literal kind lexeme, apart => [⟨apart, .bare kind.token lexeme⟩]
  | var name, apart => [⟨apart, .bare .var name⟩]
  | binary left operator right, apart =>
    left.layout apart ++ ⟨true, .bare .operator operator⟩ :: right.layout true
  | unary operator operand, apart =>
    ⟨apart, .bare .operator operator⟩ ::
      operand.layout (decide
        (operator.toList.getLast? = some '-' ∧ operand.source.toList.head? = some '-'))
  | suffixed operand operator, apart =>
    operand.layout apart ++ [⟨false, .bare .operator operator⟩]
  | call function arguments, apart =>
    ⟨apart, .bare .function function⟩ :: (listLayout arguments ++ [⟨false, .closer⟩])
  | group inner, apart =>
    ⟨apart, .bare .leftParen "("⟩ :: (inner.layout false ++ [⟨false, .closer⟩])

/-- The words of a list, with commas between the elements. -/
def listLayout : List Expr → List Spaced
  | [] => []
  | e :: es => e.layout false ++ moreLayout es

/-- The same behind an element. -/
def moreLayout : List Expr → List Spaced
  | [] => []
  | e :: es => ⟨false, .bare .comma ","⟩ :: (e.layout false ++ moreLayout es)

end

open Spaced

/-! ## The text -/

/-- An operator stands apart from its operand where the two are kept from growing together. -/
theorem glue_toList (operator operand : String) : (glue operator operand).toList =
    operator.toList ++ (gap (decide
      (operator.toList.getLast? = some '-' ∧ operand.toList.head? = some '-')) ++
        operand.toList) := by
  unfold glue
  split
  · next h => simp only [gap, h, String.toList_append, List.append_assoc, decide_true, and_self,
      if_true]; rfl
  · next h => rw [gap, decide_eq_false h, String.toList_append]; rfl

/-- The elements of a list and the commas between them. -/
theorem text_listLayout {es : List Expr}
    (h : ∀ e ∈ es, text (e.layout false) = e.source.toList) :
    text (listLayout es) = (",".intercalate (sources es)).toList := by
  induction es with
  | nil => rfl
  | cons e es ih =>
    have he := h e List.mem_cons_self
    have ih := ih fun a ha => h a (List.mem_cons_of_mem _ ha)
    cases es with
    | nil =>
      rw [listLayout, moreLayout, List.append_nil, he, sources, sources,
        String.intercalate_singleton]
    | cons e' es =>
      rw [listLayout, sources] at ih
      rw [listLayout, moreLayout, text_append, he, text, ih, sources, sources,
        String.intercalate_cons_cons]
      simp only [String.toList_append, List.append_assoc]
      rfl

/-- **The words in their places make up the text.** -/
theorem text_layout (e : Expr) (apart : Bool) :
    text (e.layout apart) = gap apart ++ e.source.toList := by
  induction e using Expr.induction generalizing apart with
  | literal kind lexeme => simp only [layout, text, source, Token.bare, List.append_nil]
  | var name => simp only [layout, text, source, Token.bare, List.append_nil]
  | binary left operator right ihl ihr =>
    simp only [layout, text_append, text, ihl, ihr, source, String.toList_append,
      List.append_assoc]
    rfl
  | unary operator operand ih =>
    simp only [layout, text, ih, source, glue_toList]
    rfl
  | suffixed operand operator ih =>
    simp only [layout, text_append, text, ih, source, String.toList_append, List.append_assoc,
      List.append_nil]
    rfl
  | call function arguments ih =>
    simp only [layout, text, text_append, text_listLayout fun a ha => ih a ha false, source,
      String.toList_append, List.append_assoc, List.append_nil]
    rfl
  | group inner ih =>
    simp only [layout, text, text_append, ih, source, String.toList_append, List.append_assoc,
      List.append_nil]
    rfl

/-! ## The tokens -/

theorem token_moreLayout {es : List Expr}
    (h : ∀ e ∈ es, (e.layout false).map Spaced.token = e.tokens) :
    (moreLayout es).map Spaced.token = moreTokens es := by
  induction es with
  | nil => rfl
  | cons e es ih =>
    rw [moreLayout, moreTokens, List.map_cons, List.map_append, h e List.mem_cons_self,
      ih fun a ha => h a (List.mem_cons_of_mem _ ha)]

/-- **The words of the text are the tokens of the tree.** -/
theorem token_layout (e : Expr) (apart : Bool) :
    (e.layout apart).map Spaced.token = e.tokens := by
  induction e using Expr.induction generalizing apart with
  | literal kind lexeme => rfl
  | var name => rfl
  | binary left operator right ihl ihr =>
    rw [layout, tokens, List.map_append, List.map_cons, ihl, ihr]
  | unary operator operand ih => rw [layout, tokens, List.map_cons, ih]
  | suffixed operand operator ih =>
    rw [layout, tokens, List.map_append, ih]
    rfl
  | call function arguments ih =>
    have hlist : (listLayout arguments).map Spaced.token = listTokens arguments := by
      cases arguments with
      | nil => rfl
      | cons e es =>
        rw [listLayout, listTokens, List.map_append, ih e List.mem_cons_self,
          token_moreLayout fun a ha => ih a (List.mem_cons_of_mem _ ha) false]
    rw [layout, tokens, List.map_cons, List.map_append, hlist]
    rfl
  | group inner ih =>
    rw [layout, tokens, List.map_cons, List.map_append, ih]
    rfl

theorem isPlain_of_mem_moreTokens {es : List Expr}
    (h : ∀ e ∈ es, ∀ t ∈ e.tokens, t.IsPlain) : ∀ t ∈ moreTokens es, t.IsPlain := by
  induction es with
  | nil => nofun
  | cons e es ih =>
    refine List.forall_mem_cons.mpr ⟨⟨rfl, rfl⟩, List.forall_mem_append.mpr ?_⟩
    exact ⟨h e List.mem_cons_self, ih fun a ha => h a (List.mem_cons_of_mem _ ha)⟩

/-- A tree has no commands, no labels and no ends among its tokens. -/
theorem isPlain_of_mem_tokens (e : Expr) : ∀ t ∈ e.tokens, t.IsPlain := by
  have hclose : ∀ t ∈ [Token.bare .rightParen ")"], t.IsPlain :=
    List.forall_mem_singleton.mpr ⟨rfl, rfl⟩
  induction e using Expr.induction with
  | literal kind lexeme => exact List.forall_mem_singleton.mpr ⟨rfl, by cases kind <;> rfl⟩
  | var name => exact List.forall_mem_singleton.mpr ⟨rfl, rfl⟩
  | binary left operator right ihl ihr =>
    exact List.forall_mem_append.mpr ⟨ihl, List.forall_mem_cons.mpr ⟨⟨rfl, rfl⟩, ihr⟩⟩
  | unary operator operand ih => exact List.forall_mem_cons.mpr ⟨⟨rfl, rfl⟩, ih⟩
  | suffixed operand operator ih =>
    exact List.forall_mem_append.mpr ⟨ih, List.forall_mem_singleton.mpr ⟨rfl, rfl⟩⟩
  | call function arguments ih =>
    refine List.forall_mem_cons.mpr ⟨⟨rfl, rfl⟩, List.forall_mem_append.mpr ⟨?_, hclose⟩⟩
    cases arguments with
    | nil => nofun
    | cons e es =>
      refine List.forall_mem_append.mpr ⟨ih e List.mem_cons_self, ?_⟩
      exact isPlain_of_mem_moreTokens fun a ha => ih a (List.mem_cons_of_mem _ ha)
  | group inner ih =>
    exact List.forall_mem_cons.mpr ⟨⟨rfl, rfl⟩, List.forall_mem_append.mpr ⟨ih, hclose⟩⟩

end Expr

end CalcSyntax
