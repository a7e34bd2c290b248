import CalcSyntax.Program.Sexpr
import CalcSyntax.Proofs.Analysis.Diagnostics
import CalcSyntax.Proofs.Expr.Loose
import CalcSyntax.Proofs.Reading.Fault
import CalcSyntax.Proofs.Token.Listed
import CalcSyntax.Proofs.Token.Progress

/-!
# Known — no word is read that its table does not list

Two of the faults say that a word is unknown. They stand in the rules for the sake
of tables that do not match the tokens, and no source leads to them: the words of its
tokens are listed, and a fault says what is so. What is read of the words is checked
against their entries, so a program has them with what they take.

## What is proved

- `not_isUnknown_of_verdict_error` — the message about one statement.
- `analyze_known` — the tokens of a source, its diagnostics and its program.
-/

set_option autoImplicit false

namespace CalcSyntax

variable {g : Grammar} {source : String}

/-! ## Messages -/

/-- The message says that a word is unknown. -/
def Diagnostic.IsUnknown (d : Diagnostic) : Prop := "unknown ".toList <+: d.message.toList

theorem Stray.not_isUnknown_report (s : Stray) : ¬ s.report.IsUnknown := by
  have hmessage : s.report.message = s!"unrecognized character '{s.char}'" := s.message_eq
  simp [Diagnostic.IsUnknown, hmessage, toString]

/-- Only the two faults about unknown words say so. -/
theorem Fault.eq_of_isUnknown {f : Fault} (h : f.report.IsUnknown) :
    f = .unknownCommand f.token ∨ f = .unknownFunction f.token := by
  cases f with
  | unknownCommand t => exact .inl rfl
  | unknownFunction t => exact .inr rfl
  | unexpected | noLeftOperand | emptyGroup | wrongCount | tooDeep =>
    simp [Diagnostic.IsUnknown, report, Diagnostic.unexpected, Diagnostic.ofKind,
      Diagnostic.withHint, toString] at h

/-- What is due of a listed token is not that its word is unknown. -/
theorem Fault.IsDue.not_isUnknown {f : Fault} (h : f.IsDue g) (hlisted : f.token.IsListed g) :
    ¬ f.report.IsUnknown := by
  intro hunknown
  rcases eq_of_isUnknown hunknown with hf | hf <;> rw [hf] at h <;>
    obtain ⟨hkind, hnone⟩ := h <;> rw [Token.IsListed, hkind] at hlisted <;>
    obtain ⟨d, hd⟩ := hlisted <;> rw [hd] at hnone <;> cases hnone

/-- **The message about a statement** does not say that a word is unknown. -/
theorem not_isUnknown_of_verdict_error {s : Segment} (hs : s ∈ segments source g)
    {d : Diagnostic} (h : s.verdict g = .error d) : ¬ d.IsUnknown := by
  rcases Segment.stray_or_fault_of_verdict_error h with ⟨stray, _, rfl⟩ | ⟨fault, hread, rfl⟩
  · exact stray.not_isUnknown_report
  · obtain ⟨hdue, htoken⟩ := due_of_readStatement hread
    refine hdue.not_isUnknown ?_
    rcases htoken with hend | htoken
    · rw [hend]
      trivial
    · exact listed_of_mem_segments hs _ htoken

/-! ## Programs -/

/-- The grammar lists the command, with a label if it has one and no arguments then, and
otherwise with as many arguments as it has. -/
def Command.Suits (g : Grammar) (c : Command) : Prop :=
  ∃ d, g.command? c.name = some d ∧
    if d.args = .label then c.label.isSome ∧ c.arguments = []
    else c.label = none ∧ d.args.accepts c.arguments.length = true

/-- The grammar lists the function of a call with as many arguments as it has. -/
def Expr.Suits (g : Grammar) : Expr → Prop
  | call function arguments =>
    ∃ d, g.function? function = some d ∧ d.args.accepts arguments.length = true
  | _ => True

theorem Expr.Fits.suits {e : Expr} (h : e.Fits g) : e.Suits g := by
  cases h with
  | call registered accepts _ => exact ⟨_, registered, accepts⟩
  | _ => trivial

theorem StatementKind.IsReadable.command_suits {c : Command}
    (h : (StatementKind.command c).IsReadable g) : c.Suits g := by
  cases h with
  | label known takes _ => exact ⟨_, known, by rw [if_pos takes]; exact ⟨rfl, rfl⟩⟩
  | arguments known takes accepts _ => exact ⟨_, known, by rw [if_neg takes]; exact ⟨rfl, accepts⟩⟩

/-- A command of a program suits the grammar. -/
theorem command_suits_of_mem_program {st : Statement}
    (hst : st ∈ (analyze source g).program.statements) {c : Command} (hc : st.kind = .command c) :
    c.Suits g := by
  rcases readable_or_invalid hst with hreadable | hinvalid
  · rw [hc] at hreadable
    exact hreadable.command_suits
  · rw [hc] at hinvalid
    cases hinvalid

/-- **No word of a source is unknown.** The tokens that a lexer reads of it, in whatever
order, and those of its statements are listed in the tables that their kinds name. No
diagnostic says otherwise. The commands of the program and all its calls have what their
words take. -/
theorem analyze_known (source : String) (g : Grammar) :
    (∀ (steps : List Step) (t : Token),
      ((Walk.ofSource source g).run steps).lexer.read.1 = .ok t → t.IsListed g) ∧
    (∀ s ∈ segments source g, ∀ t ∈ s.tokens, t.IsListed g) ∧
    (∀ d ∈ (analyze source g).diagnostics, ¬ d.IsUnknown) ∧
    ∀ st ∈ (analyze source g).program.statements,
      (∀ c, st.kind = .command c → c.Suits g) ∧
        ∀ e ∈ st.kind.exprs, ∀ p ∈ e.parts, p.Suits g := by
  refine ⟨fun steps t ht => ?_, fun s hs => listed_of_mem_segments hs, fun d hd => ?_,
    fun st hst => ⟨fun c hc => command_suits_of_mem_program hst hc, fun e he p hp => ?_⟩⟩
  · have hwalk := Walk.countsBytes_run source g steps _ List.mem_cons_self
    exact Lexer.isListed_of_read hwalk.words ht
  · obtain ⟨j, hj, hdiagnostic⟩ := List.mem_filterMap.mp hd
    obtain ⟨s, hs, rfl⟩ := List.mem_map.mp hj
    obtain ⟨e, hverdict, rfl⟩ := Judged.diagnostic?_eq_some hdiagnostic
    have hmessage : ¬ e.IsUnknown := not_isUnknown_of_verdict_error hs hverdict
    exact hmessage
  · exact ((readable_of_mem_program hst e he).fits.of_mem_parts p hp).suits

/-- A grammar with spellings that stand in two tables: a command that is a function as well,
a function that is an operator as well, and an operator that is a function. -/
def collidingGrammar : Grammar :=
  ((Grammar.calculator.registerFunction ⟨"Disp", .exactly 1⟩).registerFunction
    ⟨"-", .nothing⟩).registerOperator (.usual "max(" .postfixOp .exponentiation)

/-- The first table of a spelling gives it its kind: `Disp` is a command, `max(` and the
minus are functions. What they take is counted there. -/
theorem analyze_known_colliding :
    (∀ s ∈ segments "Disp 1,-:A-1:max(1,-:Lbl θ:2max(" collidingGrammar,
      ∀ t ∈ s.tokens, t.IsListed collidingGrammar) ∧
    (∀ d ∈ (analyze "Disp 1,-:A-1:max(1,-:Lbl θ:2max(" collidingGrammar).diagnostics,
      ¬ d.IsUnknown) ∧
    (analyze "Disp 1,-:A-1:max(1,-:Lbl θ:2max(" collidingGrammar).diagnostics.map
        Diagnostic.message =
      ["expected end of statement, found function '-'",
        "expected end of statement, found function 'max('"] ∧
    (analyze "Disp 1,-:A-1:max(1,-:Lbl θ:2max(" collidingGrammar).program.kinds.map
        StatementKind.sexpr =
      ["(Disp 1 (call -))", "<invalid>", "(call max 1 (call -))", "(Lbl θ)", "<invalid>"] := by
  obtain ⟨-, htokens, hmessages, -⟩ :=
    analyze_known "Disp 1,-:A-1:max(1,-:Lbl θ:2max(" collidingGrammar
  refine ⟨htokens, hmessages, ?_, ?_⟩
  · decide +kernel
  · decide +kernel

end CalcSyntax
