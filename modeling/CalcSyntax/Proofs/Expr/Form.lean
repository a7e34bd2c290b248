import CalcSyntax.Expr.Sexpr
import CalcSyntax.Proofs.Expr.Ladder
import CalcSyntax.Proofs.Token.Vocabulary

/-!
# Form — the prefix form of a tree is read back

The prefix form of an expression is a text, and so much is left out of it: the fixity
of an operator, the kind of a number, the parenthesis of a function. `Sexpr` is the
structure in between, words and lists of forms. A text has one such structure only,
since words hold no space and no parenthesis. And a structure comes from one tree
only, since the words of a grammar say what a node is (`Grammar.TellsForms`).

## What is proved

- `Sexpr.text_append_inj` — a form is read off the front of a text in one way only.
- `Expr.ofForm?_form` — a tree is read back from its form.
- `Expr.eq_of_sexpr` — trees of one prefix form are the same.
-/

set_option autoImplicit false

namespace CalcSyntax

/-! ## Forms -/

/-- A word, or forms in parentheses, of which there is one at least. -/
inductive Sexpr where
  | word (w : String)
  | node (first : Sexpr) (rest : List Sexpr)

/-- The characters that stand around the words of a form. -/
def isFormMark (c : Char) : Bool := c == ' ' || c == '(' || c == ')'

/-- A word that can be told from what stands around it. -/
def IsFormWord (w : String) : Prop := w.toList ≠ [] ∧ ∀ c ∈ w.toList, isFormMark c = false

-- By going through the word, and not through all characters.
instance (w : String) : Decidable (IsFormWord w) :=
  @instDecidableAnd _ _ _ (List.decidableBAll (isFormMark · = false) w.toList)

namespace Sexpr

mutual

/-- The text of a form. -/
def text : Sexpr → List Char
  | word w => w.toList
  | node first rest => '(' :: (first.text ++ (textAll rest ++ [')']))

/-- The texts of a list of forms, a space in front of each. -/
def textAll : List Sexpr → List Char
  | [] => []
  | f :: fs => ' ' :: (f.text ++ textAll fs)

end

/-- All words of a form can be told from what stands around them. -/
inductive IsPlain : Sexpr → Prop
  | word {w : String} (h : IsFormWord w) : IsPlain (.word w)
  | node {first : Sexpr} {rest : List Sexpr} (hfirst : IsPlain first)
    (hrest : ∀ f ∈ rest, IsPlain f) : IsPlain (.node first rest)

/-! ## A text has one form -/

/-- Whatever stands in front of the text ends there. -/
def Stops (r : List Char) : Prop := ∀ c ∈ r.head?, isFormMark c = true

variable {a b : Sexpr} {as bs : List Sexpr} {v w : String} {r r' : List Char}

theorem stops_textAll (fs : List Sexpr) (r : List Char) : Stops (textAll fs ++ ')' :: r) := by
  cases fs <;> simp [textAll, Stops, isFormMark]

/-- The word at the front of a text is what comes before the first mark. -/
theorem takeWhile_word (hw : IsFormWord w) (hr : Stops r) :
    (w.toList ++ r).takeWhile (fun c => !isFormMark c) = w.toList := by
  have hword : ∀ c ∈ w.toList, (!isFormMark c) = true := fun c hc => by simp [hw.2 c hc]
  have hstop : r.takeWhile (fun c => !isFormMark c) = [] := by
    cases r with
    | nil => rfl
    | cons c r => simp [hr c rfl]
  rw [List.takeWhile_append_of_pos hword, hstop, List.append_nil]

theorem word_append_inj (hv : IsFormWord v) (hw : IsFormWord w) (hr : Stops r) (hr' : Stops r')
    (h : v.toList ++ r = w.toList ++ r') : v = w ∧ r = r' := by
  have hword : v.toList = w.toList := by
    rw [← takeWhile_word hv hr, h, takeWhile_word hw hr']
  rw [hword] at h
  exact ⟨String.toList_inj.mp hword, List.append_cancel_left h⟩

/-- No word begins like a node. -/
theorem word_append_ne (hw : IsFormWord w) (r r' : List Char) : w.toList ++ r ≠ '(' :: r' := by
  obtain ⟨hne, hmarks⟩ := hw
  intro h
  cases hl : w.toList with
  | nil => exact hne hl
  | cons c cs =>
    rw [hl, List.cons_append] at h
    have hmark : isFormMark c = false := hmarks c (by simp [hl])
    rw [(List.cons.inj h).1] at hmark
    cases hmark

/-- Lists of forms are told apart if each of the one list is told from any other form. -/
theorem textAll_append_inj (has : ∀ a ∈ as, ∀ {b : Sexpr} {r r' : List Char}, b.IsPlain →
      Stops r → Stops r' → a.text ++ r = b.text ++ r' → a = b ∧ r = r')
    (hbs : ∀ b ∈ bs, b.IsPlain) (h : textAll as ++ ')' :: r = textAll bs ++ ')' :: r') :
    as = bs ∧ r = r' := by
  induction as generalizing bs with
  | nil =>
    cases bs with
    | nil => simpa [textAll] using h
    | cons b bs => simp [textAll] at h
  | cons a as ih =>
    cases bs with
    | nil => simp [textAll] at h
    | cons b bs =>
      obtain ⟨ha, has'⟩ := List.forall_mem_cons.mp has
      obtain ⟨hb, hbs'⟩ := List.forall_mem_cons.mp hbs
      simp only [textAll, List.cons_append, List.append_assoc, List.cons.injEq, true_and] at h
      obtain ⟨rfl, hrest⟩ := ha hb (stops_textAll as r) (stops_textAll bs r') h
      obtain ⟨rfl, rfl⟩ := ih has' hbs' hrest
      exact ⟨rfl, rfl⟩

/-- **A form is read off the front of a text in one way only**, where the text goes on with a
mark or ends. By induction on the form, since each of its parts ends at a mark. -/
theorem text_append_inj (ha : a.IsPlain) (hb : b.IsPlain) (hr : Stops r) (hr' : Stops r')
    (h : a.text ++ r = b.text ++ r') : a = b ∧ r = r' := by
  induction ha generalizing b r r' with
  | word hv =>
    cases hb with
    | word hw =>
      obtain ⟨rfl, rfl⟩ := word_append_inj hv hw hr hr' h
      exact ⟨rfl, rfl⟩
    | node => exact absurd h (word_append_ne hv r _)
  | node _ _ ihfirst ihrest =>
    cases hb with
    | word hw => exact absurd h.symm (word_append_ne hw r' _)
    | @node first' rest' hfirst' hrest' =>
      simp only [text, List.cons_append, List.append_assoc, List.nil_append, List.cons.injEq,
        true_and] at h
      obtain ⟨rfl, hrest⟩ := ihfirst hfirst' (stops_textAll _ r) (stops_textAll rest' r') h
      obtain ⟨rfl, rfl⟩ := textAll_append_inj ihrest hrest' hrest
      exact ⟨rfl, rfl⟩

theorem text_inj (ha : a.IsPlain) (hb : b.IsPlain) (h : a.text = b.text) : a = b := by
  have hend : Stops [] := nofun
  have happend : a.text ++ [] = b.text ++ [] := by rw [h]
  exact (text_append_inj ha hb hend hend happend).1

end Sexpr

/-! ## Expressions -/

/-- The words of numbers and variables. -/
def IsOperandWord (w : String) : Prop :=
  (∃ kind, Numeral.IsNumeral ⟨w.toList, kind⟩) ∨ Expr.IsVariable w

/-- The words of the grammar say what a node of a form is: no operator is taken for an operand
or for one of the two heads, and functions differ in more than their parentheses. -/
structure Grammar.TellsForms (g : Grammar) : Prop where
  symbols : ∀ d ∈ g.operators.entries,
    IsFormWord d.symbol ∧ d.symbol ≠ "call" ∧ d.symbol ≠ "group" ∧ ¬ IsOperandWord d.symbol
  names : ∀ d ∈ g.functions.entries, IsFormWord (withoutParen d.name)
  apart : ∀ d ∈ g.functions.entries, ∀ d' ∈ g.functions.entries,
    withoutParen d.name = withoutParen d'.name → d.name = d'.name

namespace Expr

mutual

/-- The form of an expression. -/
def form : Expr → Sexpr
  | literal _ lexeme => .word lexeme
  | var name => .word name
  | binary left operator right => .node (.word operator) [left.form, right.form]
  | unary operator operand => .node (.word operator) [operand.form]
  | suffixed operand operator => .node operand.form [.word operator]
  | call function arguments => .node (.word "call") (.word (withoutParen function) :: forms arguments)
  | group inner => .node (.word "group") [inner.form]

/-- The forms of a list of expressions. -/
def forms : List Expr → List Sexpr
  | [] => []
  | e :: es => e.form :: forms es

end

mutual

/-- The prefix form is the text of the form. -/
theorem toList_sexpr : ∀ e : Expr, e.sexpr.toList = e.form.text
  | literal _ _ => rfl
  | var _ => rfl
  | binary left _ right => by
    simp [sexpr, form, Sexpr.text, Sexpr.textAll, toList_sexpr left, toList_sexpr right]
  | unary _ operand => by simp [sexpr, form, Sexpr.text, Sexpr.textAll, toList_sexpr operand]
  | suffixed operand _ => by simp [sexpr, form, Sexpr.text, Sexpr.textAll, toList_sexpr operand]
  | call _ arguments => by
    simp [sexpr, form, Sexpr.text, Sexpr.textAll, toList_sexprTail arguments]
  | group inner => by simp [sexpr, form, Sexpr.text, Sexpr.textAll, toList_sexpr inner]

theorem toList_sexprTail : ∀ es : List Expr, (sexprTail es).toList = Sexpr.textAll (forms es)
  | [] => rfl
  | e :: es => by
    simp [sexprTail, forms, Sexpr.textAll, toList_sexpr e, toList_sexprTail es]

end

/-! ## From forms to expressions -/

/-- The number or the variable of a word. -/
def ofWord (w : String) : Expr :=
  match numeral? w.toList with
  | some n => .literal (if n.kind = .integer then .integer else .float) w
  | none => .var w

/-- The word of a form that is nothing else. -/
def word? : Sexpr → Option String
  | .word w => some w
  | .node _ _ => none

/-- The operator that a form is in front of another. -/
def ahead? (g : Grammar) (f : Sexpr) : Option String :=
  (word? f).filter fun w => (g.operators.operator? w .prefixOp).isSome

/-- The function whose name is written so without its parenthesis. -/
def named? (g : Grammar) (w : String) : Option FunctionEntry :=
  g.functions.entries.find? fun d => withoutParen d.name = w

mutual

/-- The expression of a form, in the words of a grammar. -/
def ofForm? (g : Grammar) : Sexpr → Option Expr
  | .word w => some (ofWord w)
  | .node (.word "group") [inner] => (ofForm? g inner).map group
  | .node (.word "call") (.word name :: arguments) => do
    let d ← named? g name
    let es ← ofForms? g arguments
    some (.call d.name es)
  | .node (.word operator) [left, right] => do
    let l ← ofForm? g left
    let r ← ofForm? g right
    some (.binary l operator r)
  | .node first [last] =>
    match ahead? g first with
    | some operator => (ofForm? g last).map (unary operator)
    | none => do
      let operator ← word? last
      let operand ← ofForm? g first
      some (.suffixed operand operator)
  | .node _ _ => none

/-- The expressions of a list of forms. -/
def ofForms? (g : Grammar) : List Sexpr → Option (List Expr)
  | [] => some []
  | f :: fs => do
    let e ← ofForm? g f
    let es ← ofForms? g fs
    some (e :: es)

end

variable {g : Grammar} {e e' : Expr} {w : String}

/-- No number begins like a variable. -/
theorem numeral?_of_isVariable (h : IsVariable w) : numeral? w.toList = none := by
  rcases h with hnamed | ⟨c, hc, hw⟩
  · have key : ∀ w ∈ namedVariables, numeral? w.toList = none := by decide
    exact key w hnamed
  · rw [hw]
    exact numeral?_eq_none (startsWord_of_isUpper hc) []

theorem eq_of_isFormMark {c : Char} (h : isFormMark c = true) : c = ' ' ∨ c = '(' ∨ c = ')' := by
  simpa [isFormMark, or_assoc] using h

theorem isFormWord_of_isNumeral {kind : TokenKind} (h : Numeral.IsNumeral ⟨w.toList, kind⟩) :
    IsFormWord w := by
  constructor
  · intro hnil
    have hread : numeral? w.toList = some ⟨w.toList, kind⟩ := numeral?_eq_self h
    rw [hnil] at hread
    cases hread
  · intro c hc
    have hcontinues : Numeral.continues c = true := Numeral.continues_of_mem h c hc
    by_contra hmark
    rcases eq_of_isFormMark (Bool.not_eq_false _ ▸ hmark) with rfl | rfl | rfl <;>
      cases hcontinues

theorem isFormWord_of_isVariable (h : IsVariable w) : IsFormWord w := by
  rcases h with hnamed | ⟨c, hc, hw⟩
  · have key : ∀ w ∈ namedVariables, IsFormWord w := by decide
    exact key w hnamed
  · have hmark : isFormMark c = false := by
      by_contra hmark
      rcases eq_of_isFormMark (Bool.not_eq_false _ ▸ hmark) with rfl | rfl | rfl <;> cases hc
    simpa [IsFormWord, hw] using hmark

/-- A word without capitals that begins like no number is an operand only by its name. -/
theorem not_isOperandWord (hnumber : numeral? w.toList = none) (hnamed : w ∉ namedVariables)
    (hcapital : w.toList.any Char.isUpper = false) : ¬ IsOperandWord w := by
  rintro (⟨kind, hn⟩ | hvariable | ⟨c, hc, hw⟩)
  · have hread : numeral? w.toList = some ⟨w.toList, kind⟩ := numeral?_eq_self hn
    rw [hnumber] at hread
    cases hread
  · exact hnamed hvariable
  · simp [hw, hc] at hcapital

/-- The heads of groups and calls are no operands. -/
theorem not_isOperandWord_head : ¬ IsOperandWord "group" ∧ ¬ IsOperandWord "call" := by
  constructor <;> apply not_isOperandWord <;> decide

/-- A form that is a word is one of an operand. -/
theorem isOperandWord_of_form (h : e.IsOver g) (hw : e.form = .word w) : IsOperandWord w := by
  cases h with
  | integer hi => cases hw; exact .inl ⟨_, .inl ⟨rfl, hi⟩⟩
  | float hf => cases hw; exact .inl ⟨_, .inr ⟨rfl, hf⟩⟩
  | var hv => cases hw; exact .inr hv
  | binary | unary | suffixed | call | group => cases hw

theorem ofWord_of_isNumeral {kind : TokenKind} (h : Numeral.IsNumeral ⟨w.toList, kind⟩) :
    ofWord w = .literal (if kind = .integer then .integer else .float) w := by
  have hn : numeral? w.toList = some ⟨w.toList, kind⟩ := numeral?_eq_self h
  simp only [ofWord, hn]

theorem ofWord_of_isVariable (h : IsVariable w) : ofWord w = .var w := by
  simp only [ofWord, numeral?_of_isVariable h]

/-- No operand stands in front of another form. -/
theorem ahead?_form (hg : g.TellsForms) (h : e.IsOver g) : ahead? g e.form = none := by
  cases hf : e.form with
  | node first rest => rfl
  | word w =>
    have hw := isOperandWord_of_form h hf
    cases hd : g.operators.operator? w .prefixOp with
    | none => simp [ahead?, word?, hd]
    | some d =>
      obtain ⟨hmem, rfl, _⟩ := Table.of_operator? hd
      exact absurd hw (hg.symbols d hmem).2.2.2

theorem named?_withoutParen (hg : g.TellsForms) {d : FunctionEntry} (h : g.function? w = some d) :
    ∃ d', named? g (withoutParen w) = some d' ∧ d'.name = w := by
  obtain ⟨hd, rfl⟩ := Table.get?_eq_some_iff.mp h
  cases hn : named? g (withoutParen d.name) with
  | none => simpa using List.find?_eq_none.mp hn d hd
  | some d' =>
    have hname := List.find?_some hn
    exact ⟨d', rfl, hg.apart d' (List.mem_of_find?_eq_some hn) d hd (of_decide_eq_true hname)⟩

theorem ofForms?_forms {es : List Expr} (h : ∀ e ∈ es, ofForm? g e.form = some e) :
    ofForms? g (forms es) = some es := by
  induction es with
  | nil => rfl
  | cons e es ih =>
    obtain ⟨he, hes⟩ := List.forall_mem_cons.mp h
    simp [forms, ofForms?, he, ih hes]

/-- **A tree is read back from its form.** -/
theorem ofForm?_form (hg : g.TellsForms) (h : e.IsOver g) : ofForm? g e.form = some e := by
  induction h with
  | integer hi => simp [form, ofForm?, ofWord_of_isNumeral (.inl ⟨rfl, hi⟩)]
  | float hf => simp [form, ofForm?, ofWord_of_isNumeral (.inr ⟨rfl, hf⟩)]
  | var hv => simp [form, ofForm?, ofWord_of_isVariable hv]
  | @binary left right o d registered _ _ ihl ihr =>
    obtain ⟨hd, rfl, _⟩ := Table.of_operator? registered
    obtain ⟨_, hcall, _⟩ := hg.symbols d hd
    simp [form, ofForm?, hcall, ihl, ihr]
  | @unary operand o d registered _ ih =>
    obtain ⟨hd, rfl, _⟩ := Table.of_operator? registered
    obtain ⟨_, hcall, hgroup, _⟩ := hg.symbols d hd
    have hahead : ahead? g (.word d.symbol) = some d.symbol := by
      simp [ahead?, word?, registered]
    simp [form, ofForm?, hcall, hgroup, ih, hahead]
  | @suffixed operand o d registered hx ih =>
    have hahead := ahead?_form hg hx
    have hhead : operand.form ≠ .word "group" ∧ operand.form ≠ .word "call" :=
      ⟨fun h => not_isOperandWord_head.1 (isOperandWord_of_form hx h),
        fun h => not_isOperandWord_head.2 (isOperandWord_of_form hx h)⟩
    rw [form, ofForm?]
    · simp [hahead, ih, word?]
    · exact hhead.1
    · exact fun _ hcall => absurd hcall hhead.2
  | call registered _ _ ih =>
    obtain ⟨d', hd', hname⟩ := named?_withoutParen hg registered
    simp [form, ofForm?, hd', ofForms?_forms ih, hname]
  | group _ ih => simp [form, ofForm?, ih]

/-! ## Prefix forms -/

theorem isPlain_of_mem_forms {es : List Expr} (h : ∀ e ∈ es, e.form.IsPlain) :
    ∀ f ∈ forms es, f.IsPlain := by
  induction es with
  | nil => nofun
  | cons e es ih =>
    obtain ⟨he, hes⟩ := List.forall_mem_cons.mp h
    exact List.forall_mem_cons.mpr ⟨he, ih hes⟩

/-- All words of a form can be told from what stands around them. -/
theorem isPlain_form (hg : g.TellsForms) (h : e.IsOver g) : e.form.IsPlain := by
  have operator {o : String} {fixity : Fixity} {d : OperatorEntry}
      (hd : g.operators.operator? o fixity = some d) : (Sexpr.word o).IsPlain := by
    obtain ⟨hmem, rfl, _⟩ := Table.of_operator? hd
    exact .word (hg.symbols d hmem).1
  induction h with
  | integer hi => exact .word (isFormWord_of_isNumeral (.inl ⟨rfl, hi⟩))
  | float hf => exact .word (isFormWord_of_isNumeral (.inr ⟨rfl, hf⟩))
  | var hv => exact .word (isFormWord_of_isVariable hv)
  | binary registered _ _ ihl ihr =>
    exact .node (operator registered)
      (List.forall_mem_cons.mpr ⟨ihl, List.forall_mem_singleton.mpr ihr⟩)
  | unary registered _ ih => exact .node (operator registered) (List.forall_mem_singleton.mpr ih)
  | suffixed registered _ ih =>
    exact .node ih (List.forall_mem_singleton.mpr (operator registered))
  | @call function arguments d registered _ _ ih =>
    obtain ⟨hmem, rfl⟩ := Table.get?_eq_some_iff.mp registered
    exact .node (.word (by decide)) (List.forall_mem_cons.mpr
      ⟨.word (hg.names d hmem), isPlain_of_mem_forms ih⟩)
  | group _ ih => exact .node (.word (by decide)) (List.forall_mem_singleton.mpr ih)

/-- All parts of a tree are made of the words that it is made of. -/
theorem IsOver.of_mem_parts (h : e.IsOver g) : ∀ p ∈ e.parts, p.IsOver g := by
  refine forall_mem_parts (fun e he => ?_) h
  cases he with
  | integer | float | var => nofun
  | binary _ hl hr => exact List.forall_mem_cons.mpr ⟨hl, List.forall_mem_singleton.mpr hr⟩
  | unary _ hx | suffixed _ hx | group hx => exact List.forall_mem_singleton.mpr hx
  | call _ _ has => exact has

/-- **Trees of one prefix form are the same.** -/
theorem eq_of_sexpr (hg : g.TellsForms) (h : e.IsOver g) (h' : e'.IsOver g)
    (hsexpr : e.sexpr = e'.sexpr) : e = e' := by
  have htext : e.form.text = e'.form.text := by
    rw [← toList_sexpr, ← toList_sexpr, hsexpr]
  have hform : e.form = e'.form := Sexpr.text_inj (isPlain_form hg h) (isPlain_form hg h') htext
  have hread := ofForm?_form hg h
  rw [hform, ofForm?_form hg h'] at hread
  exact (Option.some.inj hread).symm

end Expr

/-- The calculator's words say what a node of a form is. -/
theorem Grammar.tellsForms_calculator : Grammar.calculator.TellsForms where
  symbols d hd := by
    have key : ∀ d ∈ calculatorOperators, (IsFormWord d.symbol ∧ d.symbol ≠ "call" ∧
        d.symbol ≠ "group") ∧ numeral? d.symbol.toList = none ∧ d.symbol ∉ namedVariables ∧
        d.symbol.toList.any Char.isUpper = false := by
      decide
    obtain ⟨⟨hword, hcall, hgroup⟩, hnumber, hnamed, hcapital⟩ := key d hd
    exact ⟨hword, hcall, hgroup, Expr.not_isOperandWord hnumber hnamed hcapital⟩
  names := by
    have key : ∀ d ∈ calculatorFunctions, IsFormWord (withoutParen d.name) := by decide
    exact key
  apart := by
    have key : ∀ d ∈ calculatorFunctions, ∀ d' ∈ calculatorFunctions,
        withoutParen d.name = withoutParen d'.name → d.name = d'.name := by
      decide
    exact key

end CalcSyntax
