import CalcSyntax.Reading.Statement

/-!
# Language — the statements of a grammar

`IsStatement` says which tokens make up a statement, without levels, trees
or an order of reading:

```text
statement  =  nothing | command | expr
command    =  keyword label | keyword "(" arguments close | keyword arguments
expr       =  operand (infix operand)*
operand    =  prefix* atom postfix*
atom       =  number | variable | "(" expr close | function arguments close
arguments  =  nothing | expr ("," expr)*
close      =  ")" | nothing, at the end of the statement
```

`Derives g p ts rest` reads: `ts` begins with a phrase `p`, and `rest` is
what follows it. What follows matters, because a closing parenthesis may
be missing only at the end. One symbol can be a postfix and an infix
operator. Behind an operand it is the postfix operator.

## What is proved

`derives_expr_iff` — an expression is a head and a trail. A head stops
right behind the first atom. The trail is everything else, its operators
in one row, so it can be cut anywhere between two of them. A reader that
goes by levels stops at such places.
-/

set_option autoImplicit false

namespace CalcSyntax

/-- A statement ends where no token is left, or an end marker comes next. -/
def Ends (ts : List Token) : Prop := ∀ t ∈ ts.head?, t.kind = .eof

/-- A parenthesis is closed, or left open at the end of the statement. -/
inductive Closes : List Token → List Token → Prop where
  | closed {t : Token} {rest : List Token} (kind : t.kind = .rightParen) : Closes (t :: rest) rest
  | leftOpen {rest : List Token} (ends : Ends rest) : Closes rest rest

namespace Grammar

/-- The token is an operator that the grammar registers in this position. -/
def IsOperator (g : Grammar) (fixity : Fixity) (t : Token) : Prop :=
  t.kind = .operator ∧ (g.operators.operator? t.lexeme fixity).isSome

/-- The token stands between two operands: it is registered there, and not
behind an operand. -/
def Joins (g : Grammar) (t : Token) : Prop :=
  g.IsOperator .infixOp t ∧ ¬ g.IsOperator .postfixOp t

instance (g : Grammar) (fixity : Fixity) (t : Token) : Decidable (g.IsOperator fixity t) :=
  inferInstanceAs (Decidable (_ ∧ _))

instance (g : Grammar) (t : Token) : Decidable (g.Joins t) :=
  inferInstanceAs (Decidable (_ ∧ _))

end Grammar

/-- The phrases of a statement. -/
inductive Phrase where
  | atom
  /-- The operators behind an atom. -/
  | postfixes
  | operand
  /-- The operators behind an operand, each with the operand it wants. -/
  | infixes
  | expr
  /-- So many expressions with commas between them, one at least. -/
  | list (count : Nat)
  /-- A list, or nothing. -/
  | arguments (count : Nat)

/-- `ts` begins with a phrase, and `rest` follows it. -/
inductive Derives (g : Grammar) : Phrase → List Token → List Token → Prop where
  | integer {t : Token} {rest : List Token} (kind : t.kind = .integer) :
    Derives g .atom (t :: rest) rest
  | float {t : Token} {rest : List Token} (kind : t.kind = .float) :
    Derives g .atom (t :: rest) rest
  | var {t : Token} {rest : List Token} (kind : t.kind = .var) : Derives g .atom (t :: rest) rest
  | group {t : Token} {ts mid rest : List Token} (kind : t.kind = .leftParen)
    (inner : Derives g .expr ts mid) (close : Closes mid rest) : Derives g .atom (t :: ts) rest
  | call {t : Token} {ts mid rest : List Token} {d : FunctionEntry} {count : Nat}
    (kind : t.kind = .function) (known : g.function? t.lexeme = some d)
    (arguments : Derives g (.arguments count) ts mid) (close : Closes mid rest)
    (accepts : d.args.accepts count) : Derives g .atom (t :: ts) rest
  | noPostfix {ts : List Token} : Derives g .postfixes ts ts
  | postfixed {t : Token} {ts rest : List Token} (op : g.IsOperator .postfixOp t)
    (more : Derives g .postfixes ts rest) : Derives g .postfixes (t :: ts) rest
  | prefixed {t : Token} {ts rest : List Token} (op : g.IsOperator .prefixOp t)
    (inner : Derives g .operand ts rest) : Derives g .operand (t :: ts) rest
  | operand {ts mid rest : List Token} (atom : Derives g .atom ts mid)
    (postfixes : Derives g .postfixes mid rest) : Derives g .operand ts rest
  | noInfix {ts : List Token} : Derives g .infixes ts ts
  | infixed {t : Token} {ts mid rest : List Token} (op : g.Joins t)
    (right : Derives g .operand ts mid) (more : Derives g .infixes mid rest) :
    Derives g .infixes (t :: ts) rest
  | expr {ts mid rest : List Token} (first : Derives g .operand ts mid)
    (more : Derives g .infixes mid rest) : Derives g .expr ts rest
  | last {ts rest : List Token} (e : Derives g .expr ts rest) : Derives g (.list 1) ts rest
  | comma {t : Token} {ts mid rest : List Token} {count : Nat} (e : Derives g .expr ts (t :: mid))
    (kind : t.kind = .comma) (more : Derives g (.list count) mid rest) :
    Derives g (.list (count + 1)) ts rest
  | noArgument {ts : List Token} : Derives g (.arguments 0) ts ts
  | arguments {ts rest : List Token} {count : Nat} (list : Derives g (.list count) ts rest) :
    Derives g (.arguments count) ts rest

/-- What follows the keyword of a command, up to the end. -/
inductive IsCommandBody (g : Grammar) (d : CommandEntry) : List Token → Prop where
  | label {t : Token} {rest : List Token} (takes : d.args = .label) (kind : t.kind = .label)
    (ends : Ends rest) : IsCommandBody g d (t :: rest)
  | parenthesized {ts mid rest : List Token} {count : Nat} (takes : d.args ≠ .label)
    (opens : opensParen d.keyword) (arguments : Derives g (.arguments count) ts mid)
    (close : Closes mid rest) (ends : Ends rest) (accepts : d.args.accepts count) :
    IsCommandBody g d ts
  | plain {ts rest : List Token} {count : Nat} (takes : d.args ≠ .label)
    (opens : ¬ opensParen d.keyword) (arguments : Derives g (.arguments count) ts rest)
    (ends : Ends rest) (accepts : d.args.accepts count) : IsCommandBody g d ts

/-- The tokens of a whole statement. -/
inductive IsStatement (g : Grammar) : List Token → Prop where
  | empty {ts : List Token} (ends : Ends ts) : IsStatement g ts
  | command {t : Token} {ts : List Token} {d : CommandEntry} (kind : t.kind = .command)
    (known : g.command? t.lexeme = some d) (body : IsCommandBody g d ts) : IsStatement g (t :: ts)
  | expression {ts rest : List Token} (noCommand : ∀ t ∈ ts.head?, t.kind ≠ .command)
    (e : Derives g .expr ts rest) (ends : Ends rest) : IsStatement g ts

/-- Without end markers, only the end of the tokens is the end. -/
theorem ends_iff_nil {ts : List Token} (h : ∀ t ∈ ts, t.kind ≠ .eof) : Ends ts ↔ ts = [] := by
  cases ts with
  | nil => exact iff_of_true nofun rfl
  | cons t ts =>
    exact iff_of_false (fun he => h t List.mem_cons_self (he t rfl)) (List.cons_ne_nil t ts)

/-! ## Heads and trails -/

/-- Prefix operators and an atom. -/
inductive Head (g : Grammar) : List Token → List Token → Prop where
  | atom {ts rest : List Token} (atom : Derives g .atom ts rest) : Head g ts rest
  | prefixed {t : Token} {ts rest : List Token} (op : g.IsOperator .prefixOp t)
    (inner : Head g ts rest) : Head g (t :: ts) rest

/-- What can stand behind an atom of an expression. -/
inductive Trail (g : Grammar) : List Token → List Token → Prop where
  | nil {ts : List Token} : Trail g ts ts
  | postfixed {t : Token} {ts rest : List Token} (op : g.IsOperator .postfixOp t)
    (more : Trail g ts rest) : Trail g (t :: ts) rest
  | infixed {t : Token} {ts mid rest : List Token} (op : g.Joins t) (right : Head g ts mid)
    (more : Trail g mid rest) : Trail g (t :: ts) rest

variable {g : Grammar} {ts mid rest : List Token}

theorem Trail.trans (h : Trail g ts mid) (h' : Trail g mid rest) : Trail g ts rest := by
  induction h with
  | nil => exact h'
  | postfixed op _ ih => exact .postfixed op (ih h')
  | infixed op right _ ih => exact .infixed op right (ih h')

theorem trail_of_postfixes (h : Derives g .postfixes ts mid) : Trail g ts mid := by
  generalize hp : Phrase.postfixes = p at h
  induction h with
  | noPostfix => exact .nil
  | postfixed op _ ih => exact .postfixed op (ih hp)
  | _ => cases hp

theorem head_of_operand (h : Derives g .operand ts rest) :
    ∃ mid, Head g ts mid ∧ Trail g mid rest := by
  generalize hp : Phrase.operand = p at h
  induction h with
  | prefixed op _ ih =>
    obtain ⟨mid, head, trail⟩ := ih hp
    exact ⟨mid, .prefixed op head, trail⟩
  | operand atom postfixes => exact ⟨_, .atom atom, trail_of_postfixes postfixes⟩
  | _ => cases hp

theorem trail_of_infixes (h : Derives g .infixes ts rest) : Trail g ts rest := by
  generalize hp : Phrase.infixes = p at h
  induction h with
  | noInfix => exact .nil
  | infixed op right _ _ ih =>
    obtain ⟨mid, head, trail⟩ := head_of_operand right
    exact .infixed op head (trail.trans (ih hp))
  | _ => cases hp

theorem operand_of_head (h : Head g ts mid) (postfixes : Derives g .postfixes mid rest) :
    Derives g .operand ts rest := by
  induction h with
  | atom atom => exact .operand atom postfixes
  | prefixed op _ ih => exact .prefixed op (ih postfixes)

/-- A trail begins with the operators that belong to the atom in front of it. -/
theorem infixes_of_trail (h : Trail g ts rest) :
    ∃ mid, Derives g .postfixes ts mid ∧ Derives g .infixes mid rest := by
  induction h with
  | nil => exact ⟨_, .noPostfix, .noInfix⟩
  | postfixed op _ ih =>
    obtain ⟨mid, postfixes, infixes⟩ := ih
    exact ⟨mid, .postfixed op postfixes, infixes⟩
  | infixed op right _ ih =>
    obtain ⟨mid, postfixes, infixes⟩ := ih
    exact ⟨_, .noPostfix, .infixed op (operand_of_head right postfixes) infixes⟩

/-- **An expression is a head and a trail.** -/
theorem derives_expr_iff :
    Derives g .expr ts rest ↔ ∃ mid, Head g ts mid ∧ Trail g mid rest := by
  constructor
  · intro h
    cases h with
    | expr first more =>
      obtain ⟨mid, head, trail⟩ := head_of_operand first
      exact ⟨mid, head, trail.trans (trail_of_infixes more)⟩
  · intro ⟨mid, head, trail⟩
    obtain ⟨mid', postfixes, infixes⟩ := infixes_of_trail trail
    exact .expr (operand_of_head head postfixes) infixes

theorem derives_expr_append (h : Derives g .expr ts mid) (more : Trail g mid rest) :
    Derives g .expr ts rest := by
  obtain ⟨mid', head, trail⟩ := derives_expr_iff.mp h
  exact derives_expr_iff.mpr ⟨mid', head, trail.trans more⟩

theorem derives_expr_prefixed {t : Token} (op : g.IsOperator .prefixOp t)
    (h : Derives g .expr ts rest) : Derives g .expr (t :: ts) rest := by
  obtain ⟨mid, head, trail⟩ := derives_expr_iff.mp h
  exact derives_expr_iff.mpr ⟨mid, .prefixed op head, trail⟩

theorem trail_infixed {t : Token} (op : g.Joins t) (right : Derives g .expr ts mid)
    (more : Trail g mid rest) : Trail g (t :: ts) rest := by
  obtain ⟨mid', head, trail⟩ := derives_expr_iff.mp right
  exact .infixed op head (trail.trans more)

/-- An atom is an expression. -/
theorem derives_expr_atom (h : Derives g .atom ts rest) : Derives g .expr ts rest :=
  .expr (.operand h .noPostfix) .noInfix

theorem isCommandBody_of_arguments {d : CommandEntry} {count : Nat} (takes : d.args ≠ .label)
    (arguments : Derives g (.arguments count) ts mid)
    (hclosed : if d.opensParen then Closes mid rest else rest = mid) (ends : Ends rest)
    (accepts : d.args.accepts count) : IsCommandBody g d ts := by
  cases hp : d.opensParen with
  | true =>
    rw [hp] at hclosed
    exact .parenthesized takes hp arguments hclosed ends accepts
  | false =>
    rw [hp] at hclosed
    obtain rfl := hclosed
    exact .plain takes (Bool.eq_false_iff.mp hp) arguments ends accepts

end CalcSyntax
