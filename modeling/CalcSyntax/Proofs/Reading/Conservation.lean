import CalcSyntax.Proofs.Reading.Reread
import CalcSyntax.Proofs.Segment.Spelled
import CalcSyntax.Proofs.Token.Reads

/-!
# Conservation — a statement holds the tokens it was read from

Reading loses no token, adds none and changes no order: the tokens of a tree, as
`Expr.tokens` writes them down, are those that were used up. One thing is made up
for. Parentheses that are still open at the end of a statement need not be closed,
and a tree is written down with all of them closed. So the tokens of a tree are
the ones that were used, and behind them a parenthesis for each that was left open.

`Spends ts rest written` says this of a reading that began at `ts` and ended at
`rest`. A reading that left something open stands at the end, and there nothing
more is used, so readings can be put behind each other (`Spends.trans`).

A rule knows punctuation by its kind and never asks how it is spelled, and a tree
writes it in one spelling. `Token.written` is what a tree keeps of a token. In a
source every parenthesis and every comma has that spelling anyway (`Punctuated`).

## What is proved

- `Setting.spends_expression` — an expression, at any level.
- `Setting.spends_of_readsStatement` — a statement: a keyword and what it takes, or
  an expression.
- `written_of_readStatement` — any tokens that are read as a statement.
- `exists_tokens_of_mem_kinds` — the expressions of a source.
-/

set_option autoImplicit false

namespace CalcSyntax

/-- The token that a closed parenthesis is written down with. -/
def Token.closer : Token := .bare .rightParen ")"

/-- Punctuation has one spelling for each kind. -/
structure Token.IsPunctuated (t : Token) : Prop where
  leftParen : t.kind = .leftParen → t.lexeme = "("
  rightParen : t.kind = .rightParen → t.lexeme = ")"
  comma : t.kind = .comma → t.lexeme = ","

/-- All punctuation is spelled as its kind is. -/
def Punctuated (ts : List Token) : Prop := ∀ t ∈ ts, t.IsPunctuated

/-- Whether a kind of token is punctuation. -/
def TokenKind.punctuates : TokenKind → Bool
  | .leftParen | .rightParen | .comma => true
  | _ => false

/-- Punctuation is read as a word of the lexicon, and registering words adds none. -/
theorem mem_punctuation_of_read {g : Grammar} {awaits : Bool} {cs : List Char} {w : Word}
    (h : g.lexicon.read awaits cs = .ok w) (hk : w.kind.punctuates = true) :
    w ∈ g.lexicon.words ∧ w ∈ punctuation := by
  have hw : w ∈ g.lexicon.words := by
    cases Lexicon.finds_of_read h with
    | registered hw => exact hw
    | numeral hw =>
      rcases isNumeral_of_numeral? hw with ⟨hkind, _⟩ | ⟨hkind, _⟩ <;> rw [hkind] at hk <;> cases hk
    | _ => cases hk
  refine ⟨hw, ?_⟩
  rcases Grammar.mem_spellings_iff.mp (Word.mem_enterAll hw) with
    ⟨d, _, rfl⟩ | ⟨d, _, rfl⟩ | ⟨d, _, rfl⟩ | ⟨name, _, rfl⟩ | hp
  · cases hk
  · cases hk
  · cases hk
  · cases hk
  · exact hp

/-- The tokens of a statement are punctuated. -/
theorem punctuated_of_mem_segments {g : Grammar} {source : String} {s : Segment}
    (hs : s ∈ segments source g) : Punctuated s.tokens := by
  intro t ht
  obtain ⟨awaits, behind, hread⟩ :=
    (Lexer.ofSource source g).exists_read_of_mem_items rfl (mem_scan_of_mem_segments hs ht)
  have hspelling {kind : TokenKind} {spelling : String} (hk : kind.punctuates = true)
      (hp : ∀ w ∈ punctuation, w.kind = kind → w.spelling = spelling.toList)
      (ht : t.kind = kind) : t.lexeme = spelling := by
    have hw := (mem_punctuation_of_read hread (by rw [ht]; exact hk)).2
    exact String.toList_inj.mp (hp _ hw ht)
  exact ⟨hspelling rfl (by decide), hspelling rfl (by decide), hspelling rfl (by decide)⟩

/-- What a tree keeps of a token: its kind and its lexeme. Punctuation has one spelling. -/
def Token.written (t : Token) : Token :=
  match t.kind with
  | .leftParen => .bare .leftParen "("
  | .rightParen => .closer
  | .comma => .bare .comma ","
  | kind => .bare kind t.lexeme

@[simp] theorem Token.kind_written (t : Token) : t.written.kind = t.kind := by
  obtain ⟨kind, lexeme, span⟩ := t
  cases kind <;> rfl

theorem Token.written_of_not_punctuates {t : Token} (h : t.kind.punctuates = false) :
    t.written = .bare t.kind t.lexeme := by
  obtain ⟨kind, lexeme, span⟩ := t
  cases kind with
  | leftParen | rightParen | comma => cases h
  | _ => rfl

/-- Punctuation that is spelled as its kind is stays as it is. -/
theorem Token.IsPunctuated.written {t : Token} (h : t.IsPunctuated) :
    t.written = t.relocate nowhere := by
  cases hp : t.kind.punctuates with
  | false => exact t.written_of_not_punctuates hp
  | true =>
    obtain ⟨kind, lexeme, span⟩ := t
    cases kind with
    | leftParen => rw [show lexeme = _ from h.leftParen rfl]; rfl
    | rightParen => rw [show lexeme = _ from h.rightParen rfl]; rfl
    | comma => rw [show lexeme = _ from h.comma rfl]; rfl
    | _ => cases hp

/-- The tokens from `ts` up to `rest` are the written ones, but for closing parentheses at
their end. These were left out at the end of the statement, where nothing is used. -/
def Spends (ts rest written : List Token) : Prop :=
  ∃ used missing, ts = used ++ rest ∧
    written = used.map Token.written ++ List.replicate missing .closer ∧
    (missing ≠ 0 → Ends rest) ∧ (Ends ts → used = [])

section

variable {ts mid rest p q : List Token}

theorem spends_nil (ts : List Token) : Spends ts ts [] :=
  ⟨[], 0, rfl, rfl, nofun, fun _ => rfl⟩

theorem spends_token {t : Token} (ht : t.kind ≠ .eof) (ts : List Token) :
    Spends (t :: ts) ts [t.written] :=
  ⟨[t], 0, rfl, rfl, nofun, fun hend => absurd (hend t rfl) ht⟩

/-- A word that is no punctuation is written as it stands. -/
theorem spends_word {t : Token} {kind : TokenKind} (ht : t.kind = kind) (hkind : kind ≠ .eof)
    (hplain : kind.punctuates = false) (ts : List Token) :
    Spends (t :: ts) ts [.bare kind t.lexeme] := by
  subst ht
  rw [← t.written_of_not_punctuates hplain]
  exact spends_token hkind ts

/-- A reading goes on where another one ended. -/
theorem Spends.trans (h : Spends ts mid p) (h' : Spends mid rest q) : Spends ts rest (p ++ q) := by
  obtain ⟨used, m, rfl, rfl, hopen, hnone⟩ := h
  obtain ⟨used', m', rfl, rfl, hopen', hnone'⟩ := h'
  cases m with
  | zero =>
    refine ⟨used ++ used', m', (List.append_assoc ..).symm, ?_, hopen', ?_⟩
    · rw [List.replicate_zero, List.append_nil, List.map_append, List.append_assoc]
    · intro hend
      obtain rfl := hnone hend
      rw [hnone' hend, List.append_nil]
  | succ m =>
    -- something was left open, so the second reading began at the end
    obtain rfl : used' = [] := hnone' (hopen (Nat.succ_ne_zero m))
    refine ⟨used, m + 1 + m', rfl, ?_, fun _ => hopen (Nat.succ_ne_zero m), hnone⟩
    rw [List.map_nil, List.nil_append, List.append_assoc, List.replicate_append_replicate]

/-- A parenthesis is closed by its token, or left open. -/
theorem spends_of_closes (h : Closes ts rest) : Spends ts rest [.closer] := by
  cases h with
  | @closed t _ kind =>
    have hwritten : t.written = .closer := by rw [Token.written, kind]
    rw [← hwritten]
    exact spends_token (by rw [kind]; decide) rest
  | leftOpen ends => exact ⟨[], 1, rfl, rfl, fun _ => ends, fun _ => rfl⟩

end

namespace Setting

variable (s : Setting) {nested : Nat → Rule Expr} {levels min : Nat} {ts rest start : List Token}
  {e : Expr}

/-- The rule answers trees that hold the tokens they were read from. -/
def SpendsAll (item : Rule Expr) : Prop :=
  ∀ ts e rest, item.run ts = .ok e rest → Spends ts rest e.tokens

/-! ## The loops -/

/-- Along a chain. What was used so far is that of the tree on the left. -/
theorem spends_chainFrom (hn : ∀ min, SpendsAll (nested min)) {left : Expr}
    (h : Spends start ts left.tokens) (hrun : s.chainFrom nested min left ts = .ok e rest) :
    Spends start rest e.tokens := by
  fun_induction chainFrom s nested min left ts with
  | case1 => cases hrun; exact h
  | case2 => cases hrun; exact h
  | case3 left t ts hc ih =>
    obtain ⟨d, hk, _⟩ := s.exists_of_suffix hc
    exact ih (h.trans (spends_word hk (by decide) rfl ts)) hrun
  | case4 => cases hrun
  | case5 left t ts least hc right behind hright ih =>
    obtain ⟨d, hk, _⟩ := s.exists_of_operand hc
    have hr := hn least ts right behind hright
    exact ih (h.trans ((spends_word hk (by decide) rfl ts).trans hr)) hrun

theorem ne_nil_of_listFrom {item : Rule Expr} {es : List Expr}
    (h : listFrom item ts = .ok es rest) : es ≠ [] := by
  rw [listFrom] at h
  split at h
  · cases h
  · cases h
    exact List.cons_ne_nil _ _
  · split at h
    · next e t mid _ _ =>
      cases hm : listFrom item mid with
      | fail fault behind => rw [hm] at h; cases h
      | ok es' behind =>
        rw [hm] at h
        cases h
        exact List.cons_ne_nil _ _
    · cases h
      exact List.cons_ne_nil _ _

theorem moreTokens_of_ne_nil {es : List Expr} (h : es ≠ []) :
    Expr.moreTokens es = .bare .comma "," :: Expr.listTokens es := by
  cases es with
  | nil => exact absurd rfl h
  | cons e es => rw [Expr.moreTokens, Expr.listTokens]

/-- Along a list, with its commas. -/
theorem spends_listFrom {item : Rule Expr} (hi : SpendsAll item) {es : List Expr}
    (h : listFrom item ts = .ok es rest) : Spends ts rest (Expr.listTokens es) := by
  fun_induction listFrom item ts generalizing es with
  | case1 => cases h
  | case2 ts e he =>
    cases h
    rw [Expr.listTokens, Expr.moreTokens, List.append_nil]
    exact hi ts e [] he
  | case3 ts e t mid he ht ih =>
    cases hm : listFrom item mid with
    | fail fault behind => rw [hm] at h; cases h
    | ok es' behind =>
      rw [hm] at h
      cases h
      have hcomma := spends_token (t := t) (by rw [ht]; decide) mid
      rw [Token.written, ht] at hcomma
      rw [Expr.listTokens, moreTokens_of_ne_nil (ne_nil_of_listFrom hm)]
      exact (hi ts e (t :: mid) he).trans (hcomma.trans (ih hm))
  | case4 ts e t mid he =>
    cases h
    rw [Expr.listTokens, Expr.moreTokens, List.append_nil]
    exact hi ts e _ he

/-- Arguments, and in parentheses the one that closes them. -/
theorem spends_arguments {item : Rule Expr} (hi : SpendsAll item) {parenthesized : Bool}
    {es : List Expr} (h : (s.arguments item parenthesized).run ts = .ok es rest) :
    Spends ts rest (Expr.listTokens es ++ if parenthesized then [.closer] else []) := by
  obtain ⟨mid, hlist, hclosed⟩ := s.exists_of_run_arguments h
  have hused : Spends ts mid (Expr.listTokens es) := by
    rcases hlist with ⟨rfl, rfl⟩ | hlist
    · exact spends_nil mid
    · exact spends_listFrom hi hlist
  cases parenthesized with
  | false =>
    obtain rfl : rest = mid := hclosed
    exact hused.trans (spends_nil rest)
  | true => exact hused.trans (spends_of_closes hclosed)

/-! ## Expressions -/

theorem spends_of_readsOperand (hn : ∀ min, SpendsAll (nested min))
    (h : s.ReadsOperand nested ts e rest) : Spends ts rest e.tokens := by
  cases h with
  | integer kind => exact spends_word kind (by decide) rfl rest
  | float kind => exact spends_word kind (by decide) rfl rest
  | var kind => exact spends_word kind (by decide) rfl rest
  | @group t ts mid _ inner kind hi close =>
    have hopen := spends_token (t := t) (by rw [kind]; decide) ts
    rw [Token.written, kind] at hopen
    exact hopen.trans ((hn _ ts inner mid hi).trans (spends_of_closes close))
  | @call t ts _ es d kind _ ha _ =>
    exact (spends_word kind (by decide) rfl ts).trans (s.spends_arguments (hn _) ha)
  | @unary t ts _ operand d kind _ hi =>
    exact (spends_word kind (by decide) rfl ts).trans (hn _ ts operand _ hi)

/-- **An expression holds the tokens it was read from.** By induction on the levels that are
left. -/
theorem spends_expression (levels min : Nat) : SpendsAll (s.expression levels min) := by
  induction levels generalizing min with
  | zero =>
    intro ts e rest h
    rw [run_expression_zero] at h
    cases h
  | succ levels ih =>
    intro ts e rest h
    rw [run_expression_succ] at h
    cases ho : (s.operand (s.expression levels)).run ts with
    | fail fault behind => rw [ho] at h; cases h
    | ok left behind =>
      rw [ho] at h
      exact s.spends_chainFrom ih (s.spends_of_readsOperand ih (s.readsOperand_of_run ho)) h

/-! ## Statements -/

theorem spends_of_readsCommand {t : Token} {d : CommandEntry} {c : Command}
    (kind : t.kind = .command) (known : s.grammar.command? t.lexeme = some d)
    (h : s.ReadsCommand levels t d ts c) : ∃ rest, Spends (t :: ts) rest c.tokens ∧ Ends rest := by
  have hkeyword := spends_word kind (by decide) rfl ts
  cases h with
  | @label label rest takes hlabel ends =>
    exact ⟨rest, hkeyword.trans (spends_word hlabel (by decide) rfl rest), ends⟩
  | @arguments _ rest es takes ha ends accepts =>
    have hname : d.keyword = t.lexeme := (Table.get?_eq_some_iff.mp known).2
    have hused := s.spends_arguments (s.spends_expression levels _) ha
    rw [CommandEntry.opensParen, hname] at hused
    exact ⟨rest, hkeyword.trans hused, ends⟩

/-- **A statement holds the tokens it was read from**, up to its end. -/
theorem spends_of_readsStatement {k : StatementKind} (h : s.ReadsStatement levels ts k) :
    ∃ rest, Spends ts rest k.tokens ∧ Ends rest := by
  cases h with
  | empty ends => exact ⟨ts, spends_nil ts, ends⟩
  | command kind known hc => exact s.spends_of_readsCommand kind known hc
  | @expression _ rest e _ hrun ends =>
    exact ⟨rest, s.spends_expression levels _ ts e rest hrun, ends⟩

end Setting

/-- **A statement holds all of its tokens**, and behind them a parenthesis for each that was
left open. -/
theorem written_of_readStatement {g : Grammar} {tokens : List Token} {closing : Span}
    {k : StatementKind} (hinner : ∀ t ∈ tokens, t.kind ≠ .eof)
    (h : readStatement g tokens closing = .ok k) :
    ∃ missing, k.tokens = tokens.map Token.written ++ List.replicate missing .closer := by
  obtain ⟨rest, ⟨used, missing, hused, hwritten, _⟩, ends⟩ :=
    Setting.spends_of_readsStatement _ (readsStatement_of_readStatement h)
  have hrest : rest = [] :=
    (ends_iff_nil fun t ht => hinner t (hused ▸ List.mem_append_right _ ht)).mp ends
  rw [hrest, List.append_nil] at hused
  exact ⟨missing, hused ▸ hwritten⟩

/-- The tokens of a source are written as they stand. -/
theorem map_written_of_mem_segments {g : Grammar} {source : String} {s : Segment}
    (hs : s ∈ segments source g) :
    s.tokens.map Token.written = s.tokens.map (Token.relocate nowhere) :=
  List.map_congr_left fun t ht => (punctuated_of_mem_segments hs t ht).written

theorem kind_ne_eof_of_mem_segments {g : Grammar} {source : String} {s : Segment}
    (hs : s ∈ segments source g) : ∀ t ∈ s.tokens, t.kind ≠ .eof := by
  intro t ht heof
  have hinner := inner_of_mem_segments hs ht
  rw [heof] at hinner
  cases hinner

/-- **An expression of a source holds the tokens of a segment**, and behind them a parenthesis
for each that was left open. -/
theorem exists_tokens_of_mem_kinds {g : Grammar} {source : String} {e : Expr}
    (h : .expression e ∈ (analyze source g).program.kinds) :
    ∃ s ∈ segments source g, s.stray? = none ∧ ∃ missing, e.tokens =
      s.tokens.map (Token.relocate nowhere) ++ List.replicate missing .closer := by
  obtain ⟨st, hst, hkind⟩ := List.mem_map.mp h
  obtain ⟨s, hs, rfl⟩ := exists_segment_of_mem hst
  have hverdict : s.verdict g = .ok (.expression e) := by
    rw [Judged.stmt, Judged.ofSegment] at hkind
    cases hv : s.verdict g with
    | ok k => rw [hv] at hkind; exact congrArg _ hkind
    | error d => rw [hv] at hkind; cases hkind
  have hstray : s.stray? = none := by
    cases hs : s.stray? with
    | none => rfl
    | some c => rw [Segment.verdict, hs] at hverdict; cases hverdict
  refine ⟨s, hs, hstray, ?_⟩
  rw [← map_written_of_mem_segments hs]
  exact written_of_readStatement (kind_ne_eof_of_mem_segments hs)
    (readStatement_of_verdict hverdict)

end CalcSyntax
