import CalcSyntax.Proofs.Reading.Conservation

/-!
# Balance — parentheses that were opened, closed and left open

Three kinds of token open a parenthesis: the parenthesis itself, the name of a
function, and in front of a statement the keyword of a command that opens its list.
One kind closes it. A tree is written down with every parenthesis closed, so its
tokens hold as many of one sort as of the other. What was read is what is written
but for the parentheses left open, and so these are the difference of the two counts.

## What is proved

- `Expr.opened_tokens` — a tree is written with every parenthesis closed.
- `closers_add_missing` — for the tokens of a statement, how many are left open.
- `tokens_of_mem_segments` — the tree of a segment keeps every token of it, once and
  in order, and adds only the parentheses that close it.
-/

set_option autoImplicit false

namespace CalcSyntax

/-- The kinds of token that open a parenthesis within an expression. -/
def TokenKind.opensParen : TokenKind → Bool
  | .leftParen | .function => true
  | _ => false

/-- How many parentheses are opened within expressions. -/
def opened (ts : List Token) : Nat := ts.countP fun t => t.kind.opensParen

/-- How many parentheses are closed. -/
def closers (ts : List Token) : Nat := ts.countP fun t => t.kind == .rightParen

/-- The keyword of a command that takes expressions and opens their list itself. -/
def Grammar.opensList (g : Grammar) (t : Token) : Bool :=
  t.kind == .command && (g.command? t.lexeme).any fun d => d.opensParen && !d.takesLabel

/-- How many parentheses a statement opens, the one of its keyword included. -/
def Grammar.openers (g : Grammar) (ts : List Token) : Nat :=
  (ts.take 1).countP g.opensList + opened ts

variable {g : Grammar} {ts cs : List Token}

@[simp] theorem opened_nil : opened [] = 0 := rfl

@[simp] theorem closers_nil : closers [] = 0 := rfl

@[simp] theorem opened_cons (t : Token) (ts : List Token) :
    opened (t :: ts) = opened ts + if t.kind.opensParen then 1 else 0 := List.countP_cons

@[simp] theorem closers_cons (t : Token) (ts : List Token) :
    closers (t :: ts) = closers ts + if t.kind = .rightParen then 1 else 0 := by
  simp [closers, List.countP_cons]

@[simp] theorem opened_append (ts cs : List Token) : opened (ts ++ cs) = opened ts + opened cs :=
  List.countP_append

@[simp] theorem closers_append (ts cs : List Token) :
    closers (ts ++ cs) = closers ts + closers cs := List.countP_append

@[simp] theorem closers_map_written (ts : List Token) :
    closers (ts.map Token.written) = closers ts := by
  simp [closers, List.countP_map, Function.comp_def]

theorem closers_of_forall (h : ∀ c ∈ cs, c.kind = .rightParen) : closers cs = cs.length :=
  List.countP_eq_length.mpr fun c hc => beq_of_eq (h c hc)

theorem forall_mem_replicate_closer (n : Nat) :
    ∀ c ∈ List.replicate n Token.closer, c.kind = .rightParen := by
  intro c hc
  rw [List.eq_of_mem_replicate hc]
  rfl

namespace Grammar

/-- Closing parentheses open nothing, behind a statement or in place of one. -/
theorem openers_append_closers (h : ∀ c ∈ cs, c.kind = .rightParen) :
    g.openers (ts ++ cs) = g.openers ts := by
  have hinner : opened cs = 0 := by
    refine List.countP_eq_zero.mpr fun c hc => ?_
    rw [h c hc]
    decide
  have hfront : ((ts ++ cs).take 1).countP g.opensList = (ts.take 1).countP g.opensList := by
    cases ts with
    | cons t ts => rfl
    | nil =>
      refine List.countP_eq_zero.mpr fun c hc => ?_
      simp [opensList, h c (List.mem_of_mem_take hc)]
  rw [openers, openers, hfront, opened_append, hinner, Nat.add_zero]

theorem opensList_of_kind {t : Token} (h : t.kind ≠ .command) : g.opensList t = false := by
  rw [opensList, beq_false_of_ne h, Bool.false_and]

@[simp] theorem opensList_written (t : Token) : g.opensList t.written = g.opensList t := by
  cases hp : t.kind.punctuates with
  | false => rw [t.written_of_not_punctuates hp]; rfl
  | true =>
    have hk : t.kind ≠ .command := by
      intro hk
      rw [hk] at hp
      cases hp
    rw [opensList_of_kind hk, opensList_of_kind (by rwa [Token.kind_written])]

@[simp] theorem openers_map_written (ts : List Token) :
    g.openers (ts.map Token.written) = g.openers ts := by
  simp [openers, opened, ← List.map_take, List.countP_map, Function.comp_def]

/-- An expression begins with no keyword. -/
theorem openers_of_begins {t : Token} (h : Setting.beginsOperand t.kind = true) :
    g.openers (t :: ts) = opened (t :: ts) := by
  have hfront : g.opensList t = false := opensList_of_kind (Setting.kind_ne_of_beginsOperand h rfl)
  simp [openers, hfront]

end Grammar

/-! ## Trees -/

namespace Expr

theorem opened_moreTokens {es : List Expr} (h : ∀ e ∈ es, opened e.tokens = closers e.tokens) :
    opened (moreTokens es) = closers (moreTokens es) := by
  induction es with
  | nil => rfl
  | cons e es ih =>
    obtain ⟨he, hes⟩ := List.forall_mem_cons.mp h
    simp [moreTokens, TokenKind.opensParen, he, ih hes]

theorem opened_listTokens {es : List Expr} (h : ∀ e ∈ es, opened e.tokens = closers e.tokens) :
    opened (listTokens es) = closers (listTokens es) := by
  cases es with
  | nil => rfl
  | cons e es =>
    obtain ⟨he, hes⟩ := List.forall_mem_cons.mp h
    simp [listTokens, he, opened_moreTokens hes]

/-- **A tree is written with every parenthesis closed.** -/
theorem opened_tokens (e : Expr) : opened e.tokens = closers e.tokens := by
  induction e using Expr.induction with
  | literal kind lexeme => cases kind <;> rfl
  | var name => rfl
  | binary left operator right ihl ihr =>
    simp [tokens, TokenKind.opensParen, ihl, ihr]
  | unary operator operand ih => simp [tokens, TokenKind.opensParen, ih]
  | suffixed operand operator ih => simp [tokens, TokenKind.opensParen, ih]
  | call function arguments ih =>
    simp [tokens, TokenKind.opensParen, opened_listTokens ih]
  | group inner ih => simp [tokens, TokenKind.opensParen, ih]

theorem openers_tokens (e : Expr) : g.openers e.tokens = closers e.tokens := by
  obtain ⟨t, rest, htokens, ht⟩ := e.begins_tokens []
  rw [List.append_nil] at htokens
  rw [← e.opened_tokens, htokens, Grammar.openers_of_begins ht]

end Expr

/-! ## Statements -/

namespace Setting

variable (s : Setting) {levels : Nat}

theorem openers_of_readsCommand {t : Token} {d : CommandEntry} {c : Command}
    (known : s.grammar.command? t.lexeme = some d) (h : s.ReadsCommand levels t d ts c) :
    s.grammar.openers c.tokens = closers c.tokens := by
  have hopens : s.grammar.opensList (.bare .command t.lexeme) =
      (d.opensParen && !d.takesLabel) := by
    simp [Grammar.opensList, show (Token.bare .command t.lexeme).lexeme = t.lexeme from rfl, known]
  cases h with
  | @label label _ takes _ _ =>
    have htakes : d.takesLabel = true := beq_of_eq takes
    simp [Command.tokens, Command.withLabel, Grammar.openers, TokenKind.opensParen, hopens, htakes]
  | @arguments _ _ es takes _ _ _ =>
    have hname : d.keyword = t.lexeme := (Table.get?_eq_some_iff.mp known).2
    have htakes : d.takesLabel = false := beq_false_of_ne takes
    rw [htakes, CommandEntry.opensParen, hname] at hopens
    have hlist : opened (Expr.listTokens es) = closers (Expr.listTokens es) :=
      Expr.opened_listTokens fun e _ => e.opened_tokens
    cases hp : opensParen t.lexeme with
    | false =>
      simp [Command.tokens, Command.withArguments, Grammar.openers, TokenKind.opensParen, hopens,
        hp, hlist]
    | true =>
      simp [Command.tokens, Command.withArguments, Grammar.openers, TokenKind.opensParen, hopens,
        hp, hlist, Nat.add_comm]

/-- **A statement is written with every parenthesis closed.** -/
theorem openers_of_readsStatement {k : StatementKind} (h : s.ReadsStatement levels ts k) :
    s.grammar.openers k.tokens = closers k.tokens := by
  cases h with
  | empty => rfl
  | command kind known hc => exact s.openers_of_readsCommand known hc
  | expression noCommand hrun ends => exact Expr.openers_tokens _

end Setting

/-- Of the tokens of a statement, as many parentheses are left open as its tree adds. -/
theorem closers_add_missing {tokens : List Token} {closing : Span} {k : StatementKind}
    {missing : Nat} (h : readStatement g tokens closing = .ok k)
    (htokens : k.tokens = tokens.map Token.written ++ List.replicate missing .closer) :
    closers tokens + missing = g.openers tokens := by
  have hbalance := Setting.openers_of_readsStatement _ (readsStatement_of_readStatement h)
  have hclosers := forall_mem_replicate_closer missing
  rw [htokens, closers_append, closers_of_forall hclosers, List.length_replicate,
    Grammar.openers_append_closers hclosers, closers_map_written,
    Grammar.openers_map_written] at hbalance
  exact hbalance.symm

/-- **A statement of a source keeps every token of its segment**, once and in order, and adds
a parenthesis for each that was opened and not closed. -/
theorem tokens_of_mem_segments {source : String} {s : Segment} {k : StatementKind}
    (hs : s ∈ segments source g) (h : readStatement g s.tokens s.stop = .ok k) :
    ∃ missing, closers s.tokens + missing = g.openers s.tokens ∧
      k.tokens = s.tokens.map (Token.relocate nowhere) ++ List.replicate missing .closer := by
  obtain ⟨missing, htokens⟩ := written_of_readStatement (kind_ne_eof_of_mem_segments hs) h
  refine ⟨missing, closers_add_missing h htokens, ?_⟩
  rw [htokens, map_written_of_mem_segments hs]

/-- `For(I,max(1,2),3+(4`: one parenthesis is closed, and two are left open. -/
def openLoop : StatementKind :=
  .command (.withArguments "For(" [.var "I",
    .call "max(" [.literal .integer "1", .literal .integer "2"],
    .binary (.literal .integer "3") "+" (.group (.literal .integer "4"))])

theorem tokens_of_mem_segments_openLoop :
    (segments "For(I,max(1,2),3+(4" .calculator).length = 1 ∧
      ∀ s ∈ segments "For(I,max(1,2),3+(4" .calculator,
        readStatement .calculator s.tokens s.stop = .ok openLoop ∧
          openLoop.tokens =
            s.tokens.map (Token.relocate nowhere) ++ [Token.closer, Token.closer] := by
  refine ⟨by decide +kernel, fun s hs => ?_⟩
  have hsome : ∀ s ∈ segments "For(I,max(1,2),3+(4" .calculator,
      (readStatement .calculator s.tokens s.stop).toOption = some openLoop ∧
        closers s.tokens = 1 ∧ Grammar.calculator.openers s.tokens = 3 := by decide +kernel
  obtain ⟨hsome, hclosers, hopeners⟩ := hsome s hs
  have hread := eq_ok_of_toOption hsome
  obtain ⟨missing, hmissing, htokens⟩ := tokens_of_mem_segments hs hread
  obtain rfl : missing = 2 := by omega
  exact ⟨hread, htokens⟩

end CalcSyntax
