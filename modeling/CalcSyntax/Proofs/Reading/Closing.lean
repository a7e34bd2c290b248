import CalcSyntax.Proofs.Reading.Balance

/-!
# Closing — parentheses may be left out at the end of a statement, and only there

Put one more closing parenthesis behind some tokens and read again. Where the rule had
stopped before the end, it stops there again and the parenthesis is left with the rest.
Where it had reached the end, either something was still open, and the parenthesis
closes it, or nothing was, and the parenthesis is left over. The value is the same each
time, and a rule that failed fails again. `Outcome.Beside` lists these ways, and
`Rule.Tolerates` says of a rule that there are no others. It is closed under `bind`.

Which of the two ways it is at the end is a matter of counting: the tokens of the tree
are those that were used and the parentheses that were left open (`Spends`).

## What is proved

- `Setting.tolerates_expression` — expressions, by induction on the levels.
- `Setting.readsStatement_of_append` — a statement stays the same without a
  parenthesis at its end.
- `Setting.readsStatement_append_or` — with one more it stays the same too, or all of
  its own were closed.
- `readStatement_closers` — any number of them.
-/

set_option autoImplicit false

namespace CalcSyntax

variable {α β : Type} {c : Token}

/-- What a rule answers to some tokens, and with the token `c` behind them. -/
inductive Outcome.Beside (c : Token) : Outcome α → Outcome α → Prop where
  /-- The token is left over. -/
  | left {a : α} {rest : List Token} : Beside c (.ok a rest) (.ok a (rest ++ [c]))
  /-- The token closes what had been left open at the end. -/
  | used {a : α} : Beside c (.ok a []) (.ok a [])
  | fail {f f' : Fault} {rest rest' : List Token} : Beside c (.fail f rest) (.fail f' rest')

theorem Outcome.beside_left (c : Token) (a : α) (rest : List Token) :
    (ok a rest).Beside c (ok a (rest ++ [c])) := .left

/-- What ends with the token behind ends without it. -/
theorem Outcome.Beside.exists_ends {o : Outcome α} {a : α} {rest : List Token}
    (h : o.Beside c (.ok a rest)) (ends : Ends rest) : ∃ rest', o = .ok a rest' ∧ Ends rest' := by
  cases h with
  | used => exact ⟨[], rfl, ends⟩
  | @left _ rest =>
    refine ⟨rest, rfl, ?_⟩
    cases rest with
    | nil => exact nofun
    | cons t rest => exact ends

/-- What ends takes the token, or leaves it. -/
theorem Outcome.Beside.of_end {o : Outcome α} {a : α} (h : (Outcome.ok a []).Beside c o) :
    o = .ok a [] ∨ o = .ok a [c] := by
  cases h with
  | left => exact .inr rfl
  | used => exact .inl rfl

namespace Rule

/-- The rule answers the same with the token `c` behind its tokens. -/
def Tolerates (c : Token) (x : Rule α) : Prop := ∀ ts, (x.run ts).Beside c (x.run (ts ++ [c]))

theorem tolerates_pure (a : α) : Tolerates c (pure a) := fun _ => .left

theorem tolerates_refuse (e : Fault) : Tolerates c (refuse e : Rule α) := fun _ => .fail

theorem tolerates_skip : Tolerates c skip := by
  intro ts
  cases ts with
  | nil => exact .used
  | cons t ts => exact .left

/-- At the end nothing more is used. -/
theorem beside_end (x : Rule α) : (x.run []).Beside c (x.run []) := by
  have hsuffix := x.rest_suffix []
  cases hrun : x.run [] with
  | ok a rest =>
    rw [hrun] at hsuffix
    obtain rfl := List.suffix_nil.mp hsuffix
    exact .used
  | fail e rest => exact .fail

/-- Rules in sequence tolerate what each of them tolerates. -/
theorem tolerates_bind {x : Rule α} {k : α → Rule β} (hx : Tolerates c x)
    (hk : ∀ a, Tolerates c (k a)) : Tolerates c (x >>= k) := by
  intro ts
  have h := hx ts
  rw [run_bind, run_bind]
  generalize x.run ts = o at h
  generalize x.run (ts ++ [c]) = o' at h
  cases h with
  | @left a rest => exact hk a rest
  | @used a => exact (k a).beside_end
  | fail => exact .fail

theorem tolerates_ite {p : Prop} [Decidable p] {x y : Rule α} (hx : Tolerates c x)
    (hy : Tolerates c y) : Tolerates c (if p then x else y) := by
  split
  · exact hx
  · exact hy

end Rule

namespace Setting

open Rule

variable (s : Setting) {nested : Nat → Rule Expr} {levels : Nat} {ts : List Token}

/-- A rule that looks at the token in front sees the parenthesis in place of the end. -/
theorem tolerates_peek_bind {k : Token → Rule α} (hk : ∀ t, Tolerates c (k t))
    (hend : ((s.peek >>= k).run []).Beside c ((s.peek >>= k).run [c])) :
    Tolerates c (s.peek >>= k) := by
  intro ts
  cases ts with
  | nil => exact hend
  | cons t ts => exact hk t (t :: ts)

section

variable (hc : c.kind = .rightParen)

include hc

theorem tolerates_close (wanted : Wanted) : Tolerates c (s.close wanted) := by
  refine s.tolerates_peek_bind (fun t => ?_) ?_
  · exact tolerates_ite tolerates_skip (tolerates_ite (tolerates_pure ()) (tolerates_refuse _))
  · show ((s.close wanted).run []).Beside c ((s.close wanted).run [c])
    have hfront : (s.front [c]).kind = .rightParen := hc
    rw [s.run_close_end wanted rfl, s.run_close wanted hfront]
    exact .used

/-- The loop along a chain stops in front of a parenthesis. -/
theorem tolerates_chain (hn : ∀ min, Tolerates c (nested min)) (min : Nat) (left : Expr) :
    Tolerates c (s.chain nested min left) := by
  intro ts
  show (s.chainFrom nested min left ts).Beside c (s.chainFrom nested min left (ts ++ [c]))
  fun_induction chainFrom s nested min left ts with
  | case1 left =>
    rw [List.nil_append, s.chainFrom_stop (s.continuation_of_kind (by rw [hc]; decide))]
    exact Outcome.beside_left c left []
  | case2 left t rest hstop =>
    rw [List.cons_append, s.chainFrom_stop hstop]
    exact Outcome.beside_left c left (t :: rest)
  | case3 left t rest hsuffix ih =>
    rw [List.cons_append, s.chainFrom_suffix hsuffix]
    exact ih
  | case4 left t rest least hop fault behind hfail =>
    have hr := hn least rest
    rw [hfail] at hr
    generalize hrun : (nested least).run (rest ++ [c]) = o at hr
    cases hr with
    | fail =>
      rw [List.cons_append, s.chainFrom_operand_fail hop hrun]
      exact .fail
  | case5 left t rest least hop right behind hok ih =>
    have hr := hn least rest
    rw [hok] at hr
    generalize hrun : (nested least).run (rest ++ [c]) = o at hr
    cases hr with
    | left =>
      rw [List.cons_append, s.chainFrom_operand hop hrun]
      exact ih
    | used =>
      rw [List.cons_append, s.chainFrom_operand hop hrun, s.chainFrom_nil]
      exact .used

/-- A parenthesis is no comma, so the loop along a list ends in front of it. -/
theorem tolerates_listOf {item : Rule Expr} (hi : Tolerates c item) :
    Tolerates c (listOf item) := by
  intro ts
  show (listFrom item ts).Beside c (listFrom item (ts ++ [c]))
  have hcomma : c.kind ≠ .comma := by rw [hc]; decide
  fun_induction listFrom item ts with
  | case1 ts fault rest hfail =>
    have h := hi ts
    rw [hfail] at h
    generalize hrun : item.run (ts ++ [c]) = o at h
    cases h with
    | fail =>
      rw [listFrom_fail hrun]
      exact .fail
  | case2 ts e hend =>
    have h := hi ts
    rw [hend] at h
    generalize hrun : item.run (ts ++ [c]) = o at h
    cases h with
    | left =>
      rw [listFrom_last hrun (by rintro u ⟨⟩; exact hcomma)]
      exact Outcome.beside_left c [e] []
    | used =>
      rw [listFrom_end hrun]
      exact .used
  | case3 ts e t rest hitem ht ih =>
    have h := hi ts
    rw [hitem] at h
    generalize hrun : item.run (ts ++ [c]) = o at h
    cases h with
    | left =>
      rw [listFrom_comma hrun ht]
      generalize listFrom item rest = o at ih
      generalize listFrom item (rest ++ [c]) = o' at ih
      cases ih with
      | left => exact .left
      | used => exact .used
      | fail => exact .fail
  | case4 ts e t rest hitem ht =>
    have h := hi ts
    rw [hitem] at h
    generalize hrun : item.run (ts ++ [c]) = o at h
    cases h with
    | left =>
      rw [listFrom_last hrun (by rintro u ⟨⟩; exact ht)]
      exact Outcome.beside_left c [e] (t :: rest)

/-- Arguments, in parentheses or not. A list without parentheses that is left out has nothing
to close, and no expression begins with a parenthesis that closes. -/
theorem beside_arguments {item : Rule Expr} (hi : Tolerates c item) {parenthesized : Bool}
    (h : parenthesized = true ∨ ts ≠ []) :
    ((s.arguments item parenthesized).run ts).Beside c
      ((s.arguments item parenthesized).run (ts ++ [c])) := by
  have closed (es : List Expr) : Tolerates c (s.closed parenthesized es) :=
    tolerates_ite (tolerates_bind (s.tolerates_close hc _) fun _ => tolerates_pure es)
      (tolerates_pure es)
  cases ts with
  | nil =>
    obtain rfl : parenthesized = true := h.resolve_right (· rfl)
    have hfront : (s.front [c]).kind = .rightParen := hc
    rw [List.nil_append, s.run_arguments_none (.inl rfl),
      s.run_arguments_none (.inr ⟨rfl, hfront⟩)]
    exact closed [] []
  | cons t ts =>
    exact tolerates_ite (tolerates_bind (tolerates_pure []) closed)
      (tolerates_bind (tolerates_listOf hc hi) closed) (t :: ts)

/-- Nothing can be read at the end, nor in front of a parenthesis. -/
theorem tolerates_group (hn : ∀ min, Tolerates c (nested min))
    (hnil : ∀ min, ∃ fault, (nested min).run [] = .fail fault []) :
    Tolerates c (s.group nested) := by
  refine s.tolerates_peek_bind (fun t => ?_) ?_
  · refine tolerates_ite (tolerates_refuse _) (tolerates_bind (hn _) fun inner => ?_)
    exact tolerates_bind (s.tolerates_close hc _) fun _ => tolerates_pure (Expr.group inner)
  · show ((s.group nested).run []).Beside c ((s.group nested).run [c])
    have hfront : (s.front [c]).kind = .rightParen := hc
    have hends : (s.front []).kind ≠ .rightParen := TokenKind.noConfusion
    obtain ⟨fault, hfail⟩ := hnil Level.lowest.rank
    rw [s.run_group hends, hfail, s.run_group_empty hfront]
    exact .fail

theorem tolerates_call (hn : ∀ min, Tolerates c (nested min)) (name : Token) :
    Tolerates c (s.call nested name) := by
  unfold call
  cases s.grammar.function? name.lexeme with
  | none => exact tolerates_refuse _
  | some d =>
    have arguments : Tolerates c (s.arguments (nested Level.lowest.rank) true) :=
      fun _ => s.beside_arguments hc (hn _) (.inl rfl)
    exact tolerates_bind arguments fun es => tolerates_ite (tolerates_pure _) (tolerates_refuse _)

theorem tolerates_operand (hn : ∀ min, Tolerates c (nested min))
    (hnil : ∀ min, ∃ fault, (nested min).run [] = .fail fault []) :
    Tolerates c (s.operand nested) := by
  have leaf (e : Expr) : Tolerates c (skip >>= fun _ => pure e) :=
    tolerates_bind tolerates_skip fun _ => tolerates_pure e
  refine s.tolerates_peek_bind (fun t => ?_) ?_
  · cases t.kind with
    | integer => exact leaf _
    | float => exact leaf _
    | var => exact leaf _
    | leftParen => exact tolerates_bind tolerates_skip fun _ => s.tolerates_group hc hn hnil
    | function => exact tolerates_bind tolerates_skip fun _ => s.tolerates_call hc hn t
    | operator =>
      dsimp only
      cases s.grammar.operators.operator? t.lexeme .prefixOp with
      | none => exact tolerates_refuse _
      | some d =>
        exact tolerates_bind tolerates_skip fun _ =>
          tolerates_bind (hn _) fun inner => tolerates_pure _
    | _ => exact tolerates_refuse _
  · show ((s.operand nested).run []).Beside c ((s.operand nested).run [c])
    have hbegins : beginsOperand (s.front [c]).kind = false := by
      rw [front_cons, hc]
      rfl
    rw [s.run_operand_fail rfl, s.run_operand_fail hbegins]
    exact .fail

end

/-- No expression is read where none begins. -/
theorem run_expression_fail (levels min : Nat) (h : beginsOperand (s.front ts).kind = false) :
    ∃ fault, (s.expression levels min).run ts = .fail fault ts := by
  cases levels with
  | zero => exact ⟨_, s.run_expression_zero⟩
  | succ levels =>
    refine ⟨.unexpected .expression (s.front ts), ?_⟩
    rw [run_expression_succ, s.run_operand_fail h]

/-- **An expression stays what it is with a parenthesis behind it**, by induction on the levels
that are left. -/
theorem tolerates_expression (hc : c.kind = .rightParen) (levels min : Nat) :
    Tolerates c (s.expression levels min) := by
  induction levels generalizing min with
  | zero => exact s.tolerates_peek_bind (fun t => tolerates_refuse _) .fail
  | succ levels ih =>
    exact tolerates_bind (s.tolerates_operand hc ih fun min => s.run_expression_fail levels min rfl)
      fun left => s.tolerates_chain hc ih min left

/-! ## Statements -/

section

variable (hc : c.kind = .rightParen) {k : StatementKind}

include hc

theorem readsCommand_of_append {t : Token} {d : CommandEntry} {command : Command}
    (h : s.ReadsCommand levels t d (ts ++ [c]) command) :
    s.ReadsCommand levels t d ts command := by
  generalize hmore : ts ++ [c] = more at h
  cases h with
  | @label label rest takes kind ends =>
    cases ts with
    | nil =>
      cases hmore
      rw [hc] at kind
      cases kind
    | cons u ts =>
      cases hmore
      obtain ⟨rest', hrest, ends'⟩ := (Outcome.beside_left c () ts).exists_ends ends
      cases hrest
      exact .label takes kind ends'
  | @arguments _ rest es takes ha ends accepts =>
    subst hmore
    by_cases h : d.opensParen = true ∨ ts ≠ []
    · have hbeside := s.beside_arguments hc (s.tolerates_expression hc levels Level.lowest.rank) h
      rw [ha] at hbeside
      obtain ⟨rest', hrun, ends'⟩ := hbeside.exists_ends ends
      exact .arguments takes hrun ends' accepts
    · -- the parenthesis would have to begin the list
      obtain ⟨hplain, hnil⟩ := not_or.mp h
      obtain rfl := not_not.mp hnil
      have hfront : (s.front [c]).kind = .rightParen := hc
      obtain ⟨fault, hfail⟩ :
          ∃ fault, (s.expression levels Level.lowest.rank).run [c] = .fail fault [c] :=
        s.run_expression_fail levels Level.lowest.rank (by rw [hfront]; rfl)
      rw [List.nil_append, s.run_arguments_some (by rw [hfront]; simp [hplain]),
        listFrom_fail hfail] at ha
      cases ha

/-- **A statement stays the same without a parenthesis at its end.** -/
theorem readsStatement_of_append (h : s.ReadsStatement levels (ts ++ [c]) k) :
    s.ReadsStatement levels ts k := by
  generalize hmore : ts ++ [c] = more at h
  cases h with
  | empty ends =>
    subst hmore
    obtain ⟨rest, hrest, ends'⟩ := (Outcome.beside_left c () ts).exists_ends ends
    cases hrest
    exact .empty ends'
  | @command t rest d command kind known h =>
    cases ts with
    | nil =>
      cases hmore
      rw [hc] at kind
      cases kind
    | cons u ts =>
      cases hmore
      exact .command kind known (s.readsCommand_of_append hc h)
  | @expression _ rest e noCommand hrun ends =>
    subst hmore
    have hbeside := s.tolerates_expression hc levels Level.lowest.rank ts
    rw [hrun] at hbeside
    obtain ⟨rest', hrun', ends'⟩ := hbeside.exists_ends ends
    refine .expression ?_ hrun' ends'
    exact kind_ne_of_beginsOperand (s.begins_of_run hrun') rfl

theorem readsCommand_append_or {t : Token} {d : CommandEntry} {command : Command}
    (hts : ∀ u ∈ ts, u.kind ≠ .eof) (kind : t.kind = .command)
    (known : s.grammar.command? t.lexeme = some d)
    (h : s.ReadsCommand levels t d ts command) :
    s.ReadsCommand levels t d (ts ++ [c]) command ∨
      Spends (t :: (ts ++ [c])) [c] command.tokens := by
  have hkeyword := spends_word kind (by decide) rfl (ts ++ [c])
  have hname : d.keyword = t.lexeme := (Table.get?_eq_some_iff.mp known).2
  cases h with
  | @label label rest takes hlabel ends =>
    obtain rfl := (ends_iff_nil fun u hu => hts u (List.mem_cons_of_mem _ hu)).mp ends
    exact .inr (hkeyword.trans (spends_word hlabel (by decide) rfl [c]))
  | @arguments _ rest es takes ha ends accepts =>
    have hsuffix := (s.arguments (s.expression levels Level.lowest.rank) d.opensParen).rest_suffix ts
    rw [ha] at hsuffix
    obtain rfl := (ends_iff_nil fun u hu => hts u (hsuffix.subset hu)).mp ends
    by_cases h : d.opensParen = true ∨ ts ≠ []
    · have hbeside := s.beside_arguments hc (s.tolerates_expression hc levels Level.lowest.rank) h
      rw [ha] at hbeside
      rcases hbeside.of_end with hrun | hrun
      · exact .inl (.arguments takes hrun nofun accepts)
      · have hused := s.spends_arguments (s.spends_expression levels _) hrun
        rw [CommandEntry.opensParen, hname] at hused
        exact .inr (hkeyword.trans hused)
    · -- nothing was read, and nothing was open
      obtain ⟨hplain, hnil⟩ := not_or.mp h
      obtain rfl := not_not.mp hnil
      rw [Bool.eq_false_iff.mpr hplain, s.run_arguments_none (.inl rfl), run_closed_false] at ha
      cases ha
      rw [CommandEntry.opensParen, hname] at hplain
      have htokens : (Command.withArguments t.lexeme []).tokens = [.bare .command t.lexeme] := by
        simp [Command.tokens, Command.withArguments, Expr.listTokens, hplain]
      rw [htokens]
      exact .inr hkeyword

/-- **With a further parenthesis a statement stays the same**, or all that it opened was closed. -/
theorem readsStatement_append_or (hts : ∀ t ∈ ts, t.kind ≠ .eof)
    (h : s.ReadsStatement levels ts k) :
    s.ReadsStatement levels (ts ++ [c]) k ∨ Spends (ts ++ [c]) [c] k.tokens := by
  cases h with
  | empty ends =>
    obtain rfl := (ends_iff_nil hts).mp ends
    exact .inr (spends_nil [c])
  | @command t ts d command kind known h =>
    have htail : ∀ u ∈ ts, u.kind ≠ .eof := fun u hu => hts u (List.mem_cons_of_mem _ hu)
    exact (s.readsCommand_append_or hc htail kind known h).imp_left (.command kind known)
  | @expression _ rest e noCommand hrun ends =>
    have hsuffix := (s.expression levels Level.lowest.rank).rest_suffix ts
    rw [hrun] at hsuffix
    obtain rfl := (ends_iff_nil fun u hu => hts u (hsuffix.subset hu)).mp ends
    have hbeside := s.tolerates_expression hc levels Level.lowest.rank ts
    rw [hrun] at hbeside
    rcases hbeside.of_end with hrun' | hrun'
    · exact .inl (.expression (kind_ne_of_beginsOperand (s.begins_of_run hrun') rfl) hrun' nofun)
    · exact .inr (s.spends_expression levels _ _ e _ hrun')

end

end Setting

variable {g : Grammar} {tokens cs : List Token} {closing : Span} {k : StatementKind}

/-- Without parentheses at its end a statement stays the same. -/
theorem readStatement_of_append_closers (hcs : ∀ c ∈ cs, c.kind = .rightParen)
    (h : readStatement g (tokens ++ cs) closing = .ok k) :
    readStatement g tokens closing = .ok k := by
  induction cs generalizing tokens with
  | nil => rwa [List.append_nil] at h
  | cons c cs ih =>
    obtain ⟨hc, hcs⟩ := List.forall_mem_cons.mp hcs
    rw [List.append_cons] at h
    exact readStatement_eq_ok_iff.mpr
      (Setting.readsStatement_of_append _ hc (readStatement_eq_ok_iff.mp (ih hcs h)))

theorem closers_le_openers (hinner : ∀ t ∈ tokens, t.kind ≠ .eof)
    (h : readStatement g tokens closing = .ok k) : closers tokens ≤ g.openers tokens := by
  obtain ⟨missing, htokens⟩ := written_of_readStatement hinner h
  exact Nat.le.intro (closers_add_missing h htokens)

/-- While something is open, one more parenthesis closes it. -/
theorem readStatement_append_closer {c : Token} (hinner : ∀ t ∈ tokens, t.kind ≠ .eof)
    (hc : c.kind = .rightParen) (hopen : closers tokens < g.openers tokens)
    (h : readStatement g tokens closing = .ok k) :
    readStatement g (tokens ++ [c]) closing = .ok k := by
  rcases Setting.readsStatement_append_or _ hc hinner (readStatement_eq_ok_iff.mp h) with
    hread | ⟨used, missing, hused, hwritten, hopen', _⟩
  · exact readStatement_eq_ok_iff.mpr hread
  · -- the parenthesis is left over, so nothing was left open in front of it
    have hmissing : missing = 0 := by
      refine not_not.mp fun hne => ?_
      have heof := hopen' hne c rfl
      rw [hc] at heof
      cases heof
    rw [← List.append_cancel_right hused] at hwritten
    have hbalance := closers_add_missing h hwritten
    omega

theorem readStatement_append_closers (hinner : ∀ t ∈ tokens, t.kind ≠ .eof)
    (hcs : ∀ c ∈ cs, c.kind = .rightParen)
    (hopen : closers tokens + cs.length ≤ g.openers tokens)
    (h : readStatement g tokens closing = .ok k) :
    readStatement g (tokens ++ cs) closing = .ok k := by
  induction cs generalizing tokens with
  | nil => rwa [List.append_nil]
  | cons c cs ih =>
    obtain ⟨hc, hcs⟩ := List.forall_mem_cons.mp hcs
    rw [List.length_cons] at hopen
    have hone : ∀ c' ∈ [c], c'.kind = .rightParen := List.forall_mem_singleton.mpr hc
    have hinner' : ∀ t ∈ tokens ++ [c], t.kind ≠ .eof := by
      refine List.forall_mem_append.mpr ⟨hinner, List.forall_mem_singleton.mpr ?_⟩
      rw [hc]
      decide
    rw [List.append_cons]
    refine ih hinner' hcs ?_ (readStatement_append_closer hinner hc (by omega) h)
    rw [Grammar.openers_append_closers hone, closers_append, closers_of_forall hone]
    show closers tokens + 1 + cs.length ≤ _
    omega

/-- **Closing parentheses are optional exactly at the end.** Any of those at the end of a
statement may be left out. As many as are open may be added, and no more. -/
theorem readStatement_closers (hinner : ∀ t ∈ tokens, t.kind ≠ .eof)
    (h : readStatement g tokens closing = .ok k) :
    (∀ read cs, tokens = read ++ cs → (∀ c ∈ cs, c.kind = .rightParen) →
        readStatement g read closing = .ok k) ∧
      ∃ m, closers tokens + m = g.openers tokens ∧
        ∀ cs : List Token, (∀ c ∈ cs, c.kind = .rightParen) →
          (cs.length ≤ m → readStatement g (tokens ++ cs) closing = .ok k) ∧
          (m < cs.length → ∃ fault, readStatement g (tokens ++ cs) closing = .error fault) := by
  constructor
  · rintro read cs rfl hcs
    exact readStatement_of_append_closers hcs h
  · obtain ⟨m, hm⟩ := Nat.le.dest (closers_le_openers hinner h)
    refine ⟨m, hm, fun cs hcs => ⟨fun hle => ?_, fun hlt => ?_⟩⟩
    · exact readStatement_append_closers hinner hcs (by omega) h
    · cases hread : readStatement g (tokens ++ cs) closing with
      | error fault => exact ⟨fault, rfl⟩
      | ok k' =>
        have hinner' : ∀ t ∈ tokens ++ cs, t.kind ≠ .eof := by
          refine List.forall_mem_append.mpr ⟨hinner, fun c hc => ?_⟩
          rw [hcs c hc]
          decide
        have hle := closers_le_openers hinner' hread
        rw [Grammar.openers_append_closers hcs, closers_append, closers_of_forall hcs] at hle
        omega

/-- The tokens of `For(A,1,(2)`. -/
def groupedLoop : List Token :=
  [.bare .command "For(", .bare .var "A", .bare .comma ",", .bare .integer "1", .bare .comma ",",
    .bare .leftParen "(", .bare .integer "2", .closer]

/-- The group may be left open, the loop may be closed, and nothing else. -/
theorem readStatement_closers_loop :
    ∃ k, readStatement .calculator groupedLoop .origin = .ok k ∧
      readStatement .calculator groupedLoop.dropLast .origin = .ok k ∧
      readStatement .calculator (groupedLoop ++ [.closer]) .origin = .ok k ∧
      ∃ fault, readStatement .calculator (groupedLoop ++ [.closer, .closer]) .origin =
        .error fault := by
  have hinner : ∀ t ∈ groupedLoop, t.kind ≠ .eof := by decide
  have hread := eq_ok_of_toOption (o := readStatement .calculator groupedLoop .origin)
    (a := .command (.withArguments "For(" [.var "A", .literal .integer "1",
      .group (.literal .integer "2")])) (by decide +kernel)
  obtain ⟨hless, m, hm, hmore⟩ := readStatement_closers hinner hread
  have hcounts : closers groupedLoop = 1 ∧ Grammar.calculator.openers groupedLoop = 2 := by
    decide +kernel
  obtain rfl : m = 1 := by omega
  exact ⟨_, hread, hless _ [.closer] rfl (by decide), (hmore [.closer] (by decide)).1 (by decide),
    (hmore [.closer, .closer] (by decide)).2 (by decide)⟩

end CalcSyntax
