import CalcSyntax.Program.Source
import CalcSyntax.Proofs.Expr.Printed

/-!
# Printed — the words of a statement's text

A command that takes a label makes the next word a label, and only a blank
stands between the two. A keyword that opens its list needs no blank behind
it, since no word goes on where it ends. Every other keyword has a blank in
front of its first argument, or stands alone.

## What is proved

- `reads_statement` — the words of the text are the tokens of the
  statement.
- `analyze_statement_source` — the text alone is read as that statement.
-/

set_option autoImplicit false

namespace CalcSyntax

/-- The keywords of the calculator are words and announce a label only if they take
one. No word goes on behind a keyword that opens its list. -/
theorem command_facts {name : String} {d : CommandEntry}
    (known : Grammar.calculator.command? name = some d) :
    Word.ofString .command name ∈ Grammar.calculator.spellings ∧
      calcLexicon.announcesLabel ⟨name.toList, .command⟩ = d.takesLabel ∧
      (opensParen name = true → IsClosedWord .command name) := by
  obtain ⟨hm, rfl⟩ := Table.get?_eq_some_iff.mp known
  have key : ∀ d ∈ calculatorCommands,
      calcLexicon.announcesLabel ⟨d.keyword.toList, .command⟩ = d.takesLabel := by decide
  have mem := Grammar.mem_spellings_iff.mpr (.inl ⟨d, hm, rfl⟩)
  refine ⟨mem, key d hm, ?_⟩
  intro hopen
  refine isClosedWord_of_mem_spellings mem ?_
  rw [opensParen] at hopen
  rw [endsWord, hopen]
  rfl

/-! ## Labels -/

theorem labelName_eq_self {label : String} (h : IsLabel label) :
    labelName label.toList = label.toList := by
  obtain ⟨_, hlength, hchars⟩ := h
  have htake : (label.toList ++ []).takeWhile isLabelChar = label.toList ++ [] :=
    List.takeWhile_append_of_pos hchars
  rw [List.append_nil] at htake
  rw [labelName, List.take_of_length_le hlength, htake]

theorem not_blank_of_isLabelChar {c : Char} (h : isLabelChar c = true) :
    isBlank c = false ∧ c ≠ '\n' ∧ c ≠ ':' := not_blank_of_class (by decide) h

/-- Where a label is awaited, it is read. -/
theorem reads_label {label : String} (h : IsLabel label) :
    Reads calcLexicon true label.toList [.bare .label label] false [] := by
  have hname := labelName_eq_self h
  obtain ⟨hne, _, hchars⟩ := h
  obtain ⟨c, cs, hcs⟩ : ∃ c cs, label.toList = c :: cs :=
    List.exists_cons_of_ne_nil fun he => hne (String.toList_eq_nil_iff.mp he)
  have hc : isLabelChar c = true := hchars c (by rw [hcs]; exact List.mem_cons_self)
  obtain ⟨hblank, hn, hcolon⟩ := not_blank_of_isLabelChar hc
  have hread : calcLexicon.read true (label.toList ++ []) = .ok ⟨label.toList, .label⟩ := by
    rw [hcs] at hname
    rw [List.append_nil, hcs]
    simp only [Lexicon.read, terminator?_eq_none hblank hn hcolon, hc, Bool.and_self, ↓reduceIte,
      hname]
  have hfront : leadingBlanks (label.toList ++ []) = [] := by
    rw [hcs]
    exact leadingBlanks_of_not_blank hblank _
  have := Reads.single hfront hread rfl hne
  rwa [List.append_nil] at this

/-! ## Commands -/

section Commands

variable {name : String} {es : List Expr} {d : CommandEntry}

/-- Arguments are read in front of a separator. -/
theorem reads_arguments {r : List Char} (h : ∀ e ∈ es, e.IsReadable .calculator)
    (hr : Separated r) :
    Reads calcLexicon false ((",".intercalate (Expr.sources es)).toList ++ r) (Expr.listTokens es)
      false r :=
  Expr.reads_sources (fun e he _ hr => Expr.reads_source (h e he).words hr) hr

theorem reads_withLabel {label : String} (known : Grammar.calculator.command? name = some d)
    (takes : d.args = .label) (spelled : IsLabel label) :
    Reads calcLexicon false (Command.withLabel name label).source.toList
      (Command.withLabel name label).tokens false [] := by
  obtain ⟨mem, announces, _⟩ := command_facts known
  have hname := reads_separated_word mem (separated_cons (c := ' ') (r := label.toList) rfl)
  rw [announces, CommandEntry.takesLabel, takes, beq_self_eq_true] at hname
  show Reads calcLexicon false (name ++ " " ++ label).toList _ false []
  rw [String.toList_append, String.toList_append, List.append_assoc]
  exact hname.trans ((reads_label spelled).space (List.cons_ne_nil _ _))

theorem reads_withArguments (known : Grammar.calculator.command? name = some d)
    (takes : d.args ≠ .label) (h : ∀ e ∈ es, e.IsReadable .calculator) :
    Reads calcLexicon false (Command.withArguments name es).source.toList
      (Command.withArguments name es).tokens false [] := by
  obtain ⟨mem, announces, closed⟩ := command_facts known
  rw [CommandEntry.takesLabel, beq_false_of_ne takes] at announces
  have htokens : (Command.withArguments name es).tokens = .bare .command name ::
      (Expr.listTokens es ++ if opensParen name then [.bare .rightParen ")"] else []) := rfl
  by_cases hopen : opensParen name = true
  · have hsource : (Command.withArguments name es).source =
        name ++ ",".intercalate (Expr.sources es) ++ ")" := if_pos hopen
    have hname := reads_closed_word (closed hopen)
    rw [announces] at hname
    have hlist := reads_arguments h (separated_cons (c := ')') (r := []) rfl)
    have hparen := reads_closed_word isClosedWord_rightParen []
    rw [htokens, if_pos hopen, hsource, String.toList_append, String.toList_append,
      List.append_assoc]
    exact (hname _).trans (hlist.trans hparen)
  rw [htokens, if_neg hopen, List.append_nil]
  cases es with
  | nil =>
    have hsource : (Command.withArguments name []).source = name := if_neg hopen
    have hname := reads_separated_word mem (r := []) nofun
    rw [announces, List.append_nil] at hname
    rw [hsource]
    exact hname
  | cons e es =>
    have hsource : (Command.withArguments name (e :: es)).source =
        name ++ " " ++ ",".intercalate (Expr.sources (e :: es)) := if_neg hopen
    have hname := reads_separated_word mem (separated_cons (c := ' ')
      (r := (",".intercalate (Expr.sources (e :: es))).toList ++ []) rfl)
    rw [announces] at hname
    have hlist := reads_arguments h (r := []) nofun
    have hne : Expr.listTokens (e :: es) ≠ [] := by
      intro hnil
      exact e.tokens_ne_nil (List.append_eq_nil_iff.mp hnil).1
    have hboth := hname.trans (hlist.space hne)
    rw [List.append_nil] at hboth
    rw [hsource, String.toList_append, String.toList_append, List.append_assoc]
    exact hboth

end Commands

/-! ## Statements -/

variable {k : StatementKind}

/-- **The words of a statement's text are its tokens.** -/
theorem reads_statement (h : k.IsReadable .calculator) :
    Reads calcLexicon false k.source.toList k.tokens false [] := by
  cases h with
  | empty => exact .done
  | expression h =>
    have := Expr.reads_source h.words (r := []) nofun
    rwa [List.append_nil] at this
  | label known takes spelled => exact reads_withLabel known takes spelled
  | arguments known takes _ h => exact reads_withArguments known takes h

theorem StatementKind.tokens_ne_nil (h : k.IsReadable .calculator) (hk : k ≠ .empty) :
    k.tokens ≠ [] := by
  cases h with
  | empty => exact absurd rfl hk
  | @expression e _ => exact e.tokens_ne_nil
  | label _ _ _ => exact List.cons_ne_nil _ _
  | arguments _ _ _ _ => exact List.cons_ne_nil _ _

/-- The text of a statement is read as that statement. -/
theorem analyze_statement_source (h : k.IsReadable .calculator) (hk : k ≠ .empty) :
    (analyze k.source .calculator).program.kinds = [k] ∧
      (analyze k.source .calculator).diagnostics = [] := by
  have hread := analyze_of_reads (reads_statement h) (StatementKind.tokens_ne_nil h hk)
  exact hread.1 k (readStatement_tokens h)

end CalcSyntax
