import CalcSyntax.Proofs.Reading.Agreement
import CalcSyntax.Proofs.Segment.Spelled
import CalcSyntax.Proofs.Token.Agreement

/-!
# Agreement — what a text does not mention does not matter

From the first character to the last diagnostic, a grammar is asked about nothing
but parts of the text: the scanner looks for spellings in it, and the rules look up
the lexemes that were found. So two grammars that give the same answers about every
part of a source make the same of it (`readAlike_of_agreesAt`).

## What is proved

- `registrations_settle` — of a history of registrations only what it leaves counts:
  the order in which entries came, and the entries that were replaced, are forgotten.
- `register_conservative` — an entry whose spelling does not occur in a source may be
  added or replaced without any trace in what is made of the source.
-/

set_option autoImplicit false

namespace CalcSyntax

variable {g h : Grammar} {source : String}

/-- Two grammars make the same of a source. A lexer that is driven through it by any steps
meets the same items, a segmenter comes to an end with the same segments, and the source is
analyzed into the same program with the same diagnostics. -/
structure ReadAlike (source : String) (g h : Grammar) : Prop where
  met : ∀ steps : List Step,
    ((Walk.ofSource source g).run steps).met = ((Walk.ofSource source h).run steps).met
  items : ∀ resync : Bool,
    (Lexer.ofSource source g).items resync = (Lexer.ofSource source h).items resync
  yields : ∀ ss : List Segment, (Segmenter.mk (.ofSource source g) false).Yields ss ↔
    (Segmenter.mk (.ofSource source h) false).Yields ss
  analysis : analyze source g = analyze source h

/-! ## The tokens of a source are parts of it -/

theorem Lexer.isInfix_of_mem_items {text : List Char} (lx : Lexer) {resync : Bool} {item : Item}
    (hlx : lx.CountsBytes text g) (h : item ∈ lx.items resync) : item.chars <:+: text := by
  have answers (lx : Lexer) (hlx : lx.CountsBytes text g) : lx.read.1.chars <:+: text := by
    have hrest := lx.readsItem_read.passes.front_rest
    exact (hrest ▸ List.prefix_append _ _).isInfix.trans hlx.front_suffix.isInfix
  have hall : ∀ i ∈ lx.items resync, i.chars <:+: text :=
    forall_mem_items answers (fun _ hlx => hlx.read) (fun _ hlx => hlx.skip) hlx
  exact hall item h

/-- The lexemes of a statement are parts of the source. -/
theorem isInfix_of_mem_segments {s : Segment} (hs : s ∈ segments source g) {t : Token}
    (ht : t ∈ s.tokens) : t.lexeme.toList <:+: source.toList :=
  Lexer.isInfix_of_mem_items _ (Lexer.countsBytes_ofSource source g)
    (mem_scan_of_mem_segments hs ht)

/-! ## One source, two grammars -/

/-- What a segment says depends on the answers about its tokens. -/
theorem Segment.verdict_eq {s : Segment} (htokens : ∀ t ∈ s.tokens, g.AgreesAt h t.lexeme)
    (hend : g.AgreesAt h "") : s.verdict g = s.verdict h := by
  rw [verdict, verdict, readStatement_eq htokens hend]

/-- **Grammars that give the same answers about every part of a source make the same of it.** -/
theorem readAlike_of_agreesAt (hs : ∀ s : String, s.toList <:+: source.toList → g.AgreesAt h s) :
    ReadAlike source g h := by
  have hagree := Grammar.agreesOn_lexicon hs
  have hcounts := Lexer.countsBytes_ofSource source g
  refine ⟨Walk.met_eq hagree, fun resync => (Lexer.reword_items hagree resync hcounts).symm,
    Segmenter.yields_iff_yields hagree, ?_⟩
  have hjudge : judge source g = judge source h := by
    rw [judge, judge, ← segments_eq_of_agreesOn hagree]
    refine List.map_congr_left fun s hmem => ?_
    have hverdict : s.verdict g = s.verdict h :=
      Segment.verdict_eq (fun t ht => hs _ (isInfix_of_mem_segments hmem ht))
        (hs "" List.nil_infix)
    rw [Judged.ofSegment, Judged.ofSegment, hverdict]
  rw [analyze, analyze, hjudge]

/-! ## Registering -/

/-- **Of a history of registrations only what it leaves counts.** A key finds the last entry
that was registered for it, and two histories that leave the same entries, whatever they began
with and in whatever order the entries came, have one lexicon and make the same of every
source. -/
theorem registrations_settle (g h : Grammar) (rs qs : List Registration) :
    (∀ k, (g.registerAll rs).lookup? k =
        (rs.reverse.find? fun r => decide (r.key = k)).or (g.lookup? k)) ∧
      ((g.registerAll rs).SameEntries (h.registerAll qs) →
        (g.registerAll rs).lexicon.words = (h.registerAll qs).lexicon.words ∧
          ∀ source, ReadAlike source (g.registerAll rs) (h.registerAll qs)) := by
  refine ⟨g.lookup?_registerAll rs, fun hsame => ?_⟩
  exact ⟨Grammar.words_eq hsame.agreesAt, fun source =>
    readAlike_of_agreesAt fun s _ => hsame.agreesAt s⟩

/-- A factorial that is registered first or last, and a keyword that is registered twice. The
word is a command and an operator at once, and the command goes first in either grammar. -/
theorem registrations_settle_factorial :
    let factorial : OperatorEntry := .usual "!" .postfixOp .suffix
    let first : Grammar := Grammar.empty.registerAll
      [.operator factorial, .command ⟨"!", .label⟩, .function ⟨"f(", .exactly 1⟩]
    let last : Grammar := Grammar.empty.registerAll
      [.command ⟨"!", .nothing⟩, .function ⟨"f(", .exactly 1⟩, .command ⟨"!", .label⟩,
        .operator factorial]
    first.SameEntries last ∧ first.lexicon.words = last.lexicon.words ∧
      (∀ source, ReadAlike source first last) ∧
      last.lookup? (.command "!") = some (.command ⟨"!", .label⟩) := by
  intro factorial first last
  have hsame : first.SameEntries last := by decide +kernel
  obtain ⟨hwords, halike⟩ := (registrations_settle .empty .empty _ _).2 hsame
  refine ⟨hsame, hwords, halike, ?_⟩
  rw [(registrations_settle .empty .empty _ []).1]
  decide +kernel

/-- **An entry whose spelling does not occur in a source changes nothing there**, whether it is
added or takes the place of another one. -/
theorem register_conservative (g : Grammar) (r : Registration) (source : String)
    (hfree : ¬ r.spelling.toList <:+: source.toList) : ReadAlike source g (g.register r) := by
  refine readAlike_of_agreesAt fun s hs => g.agreesAt_register ?_
  rintro rfl
  exact hfree hs

/-- An arrow of the calculator changes its level. A source that has its two characters apart
stays what it was. -/
theorem register_conservative_arrow :
    let r : Registration := .operator (.usual "->" .infixOp .comparison)
    ¬ r.spelling.toList <:+: "5-2>A".toList ∧
      ReadAlike "5-2>A" .calculator (Grammar.calculator.register r) := by
  intro r
  have hfree : ¬ r.spelling.toList <:+: "5-2>A".toList := by decide +kernel
  exact ⟨hfree, register_conservative .calculator r "5-2>A" hfree⟩

end CalcSyntax
