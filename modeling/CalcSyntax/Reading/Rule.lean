import CalcSyntax.Diagnostic.Cause
import CalcSyntax.Grammar.Basic

/-!
# Rule — reading a list of tokens from the front

A rule looks at the tokens that are left of a statement. It answers a
value or a fault, and in both cases the tokens it has not used. Rules
never give tokens back: `Rule.rest_suffix`, which every rule carries,
says that what is left is a suffix of what there was. The loops of the
grammar end because of it, and a fault is always met behind everything
that was read well.

The list does not hold the end of the statement. A rule that looks at the
end sees the closing token of its `Setting`, and finds it there however
often it looks.
-/

set_option autoImplicit false

namespace CalcSyntax

/-- What became of a rule, and the tokens it has left. -/
inductive Outcome (α : Type) where
  | ok (value : α) (rest : List Token)
  | fail (fault : Fault) (rest : List Token)
deriving DecidableEq

namespace Outcome

variable {α β : Type}

/-- The tokens that are left. -/
def rest : Outcome α → List Token
  | ok _ ts => ts
  | fail _ ts => ts

/-- Changes the value, if there is one. -/
def map (f : α → β) : Outcome α → Outcome β
  | ok a ts => ok (f a) ts
  | fail e ts => fail e ts

/-- The value or the fault, without the tokens. -/
def result : Outcome α → Except Fault α
  | ok a _ => .ok a
  | fail e _ => .error e

@[simp] theorem rest_ok (a : α) (ts : List Token) : (ok a ts).rest = ts := rfl

@[simp] theorem rest_fail (e : Fault) (ts : List Token) :
    (fail e ts : Outcome α).rest = ts := rfl

@[simp] theorem rest_map (f : α → β) (o : Outcome α) : (o.map f).rest = o.rest := by
  cases o <;> rfl

end Outcome

/-- A way to read tokens from the front. -/
structure Rule (α : Type) where
  run : List Token → Outcome α
  rest_suffix : ∀ ts, (run ts).rest <:+ ts

namespace Rule

variable {α β : Type}

/-- Reads nothing and answers a value. -/
protected def pure (a : α) : Rule α := ⟨fun ts => .ok a ts, fun _ => List.suffix_rfl⟩

/-- Reads with one rule, then with the rule its value leads to. -/
protected def bind (x : Rule α) (f : α → Rule β) : Rule β where
  run ts :=
    match x.run ts with
    | .ok a rest => (f a).run rest
    | .fail e rest => .fail e rest
  rest_suffix ts := by
    have hx := x.rest_suffix ts
    split
    · next a rest h => exact ((f a).rest_suffix rest).trans (by rwa [h] at hx)
    · next e rest h => rwa [h] at hx

instance : Monad Rule where
  pure := Rule.pure
  bind := Rule.bind

/-- Reads nothing and answers a fault. -/
def refuse (fault : Fault) : Rule α := ⟨fun ts => .fail fault ts, fun _ => List.suffix_rfl⟩

/-- Leaves out the next token. -/
def skip : Rule Unit := ⟨fun ts => .ok () ts.tail, fun ts => List.tail_suffix ts⟩

/-- A rule leaves no more tokens than there were. -/
theorem length_rest_le (x : Rule α) (ts : List Token) :
    (x.run ts).rest.length ≤ ts.length := (x.rest_suffix ts).length_le

@[simp] theorem run_pure (a : α) (ts : List Token) : (pure a : Rule α).run ts = .ok a ts := rfl

@[simp] theorem run_refuse (e : Fault) (ts : List Token) :
    (refuse e : Rule α).run ts = .fail e ts := rfl

@[simp] theorem run_skip (ts : List Token) : skip.run ts = .ok () ts.tail := rfl

@[simp] theorem run_bind (x : Rule α) (f : α → Rule β) (ts : List Token) :
    (x >>= f).run ts =
      match x.run ts with
      | .ok a rest => (f a).run rest
      | .fail e rest => .fail e rest := rfl

end Rule

/-- What the rules of a statement look things up in: the grammar, and the
place where the statement ends. -/
structure Setting where
  grammar : Grammar
  closing : Span

namespace Setting

variable (s : Setting)

/-- The token in front, or the closing one. -/
def front (ts : List Token) : Token := ts.headD (.closing s.closing)

/-- Looks at the token in front. -/
def peek : Rule Token := ⟨fun ts => .ok (s.front ts) ts, fun _ => List.suffix_rfl⟩

/-- Reads the token in front. The end stays where it is. -/
def take : Rule Token := do
  let t ← s.peek
  if t.kind = .eof then pure t
  else
    Rule.skip
    pure t

/-- Reads a token of one kind. -/
def expect (kind : TokenKind) (wanted : Wanted) : Rule Token := do
  let t ← s.peek
  if t.kind = kind then s.take else Rule.refuse (.unexpected wanted t)

/-- Reads nothing, and wants nothing to be left. -/
def expectEnd : Rule Unit := do
  let t ← s.peek
  if t.kind = .eof then pure () else Rule.refuse (.unexpected .endOfStatement t)

/-- Closes a parenthesis. At the end of a statement it may be left out. -/
def close (wanted : Wanted) : Rule Unit := do
  let t ← s.peek
  if t.kind = .rightParen then Rule.skip
  else if t.kind = .eof then pure ()
  else Rule.refuse (.unexpected wanted t)

@[simp] theorem run_peek (ts : List Token) : s.peek.run ts = .ok (s.front ts) ts := rfl

@[simp] theorem front_nil : s.front [] = .closing s.closing := rfl

@[simp] theorem front_cons (t : Token) (ts : List Token) : s.front (t :: ts) = t := rfl

end Setting

end CalcSyntax
