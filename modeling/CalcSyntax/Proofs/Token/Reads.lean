import CalcSyntax.Proofs.Segment.Piece

/-!
# Reads — the words at the front of a text

`Reads` follows the scanner word by word and forgets the places. It starts
with a label awaited or not, and ends the same way in front of the rest of
the text, so runs can be put behind each other (`Reads.trans`). What
stands behind a word counts: the scanner looks ahead for longer words.

## What is proved

- `Lexer.items_of_reads` — the items of a text begin with the words that
  are read off it.
- `Lexer.reads_of_items` — the items of a text without terminators are read off
  it as words, if none is stray.
- `segments_of_reads` — a text that is read to its end is one segment.
- `analyze_of_reads` — what is said about such a text is what the rules say
  about its words.
-/

set_option autoImplicit false

namespace CalcSyntax

/-- From a text the words are read up to a rest. The flags say whether a label is
awaited in front of the text and in front of the rest. -/
inductive Reads (lx : Lexicon) : Bool → List Char → List Token → Bool → List Char → Prop where
  | done {awaits : Bool} {cs : List Char} : Reads lx awaits cs [] awaits cs
  | word {awaits awaits' : Bool} {kind : TokenKind} {lexeme : String} {cs behind rest : List Char}
    {ts : List Token}
    (front : cs.drop (leadingBlanks cs).length = lexeme.toList ++ behind)
    (read : lx.read awaits (lexeme.toList ++ behind) = .ok ⟨lexeme.toList, kind⟩)
    (inner : kind.closes = false) (nonempty : lexeme ≠ "")
    (more : Reads lx (lx.announcesLabel ⟨lexeme.toList, kind⟩) behind ts awaits' rest) :
    Reads lx awaits cs (.bare kind lexeme :: ts) awaits' rest

namespace Reads

variable {lx : Lexicon} {a b c : Bool} {cs mid rest : List Char} {ts us : List Token}

theorem trans (h : Reads lx a cs ts b mid) (h' : Reads lx b mid us c rest) :
    Reads lx a cs (ts ++ us) c rest := by
  induction h with
  | done => exact h'
  | word front read inner nonempty _ ih => exact .word front read inner nonempty (ih h')

/-- A blank in front of words makes no difference. -/
theorem space (h : Reads lx a cs ts b rest) (hne : ts ≠ []) : Reads lx a (' ' :: cs) ts b rest := by
  cases h with
  | done => exact absurd rfl hne
  | word front read inner nonempty more =>
    have hspace : ∀ rest, ' ' = '\r' → cs = '\n' :: rest → False :=
      fun _ he _ => absurd he (by decide)
    have hblank : leadingBlanks (' ' :: cs) = ' ' :: leadingBlanks cs := by
      rw [leadingBlanks.eq_2 ' ' cs hspace, if_pos (by decide)]
    refine .word ?_ read inner nonempty more
    rw [hblank]
    exact front

/-- A word right at the front. -/
theorem single {kind : TokenKind} {lexeme : String} {behind : List Char}
    (hblank : leadingBlanks (lexeme.toList ++ behind) = [])
    (read : lx.read a (lexeme.toList ++ behind) = .ok ⟨lexeme.toList, kind⟩)
    (inner : kind.closes = false) (nonempty : lexeme ≠ "") :
    Reads lx a (lexeme.toList ++ behind) [.bare kind lexeme]
      (lx.announcesLabel ⟨lexeme.toList, kind⟩) behind :=
  .word (by rw [hblank]; rfl) read inner nonempty .done

/-! ## The characters of the text -/

/-- Words are not made of blanks alone. -/
theorem not_blank (h : Reads lx a cs ts b rest) (hne : ts ≠ []) : cs.all isBlank = false := by
  cases h with
  | done => exact absurd rfl hne
  | word front read inner nonempty more =>
    refine Bool.eq_false_iff.mpr ?_
    intro hall
    apply nonempty
    rw [leadingBlanks_of_blank (List.all_eq_true.mp hall), List.drop_length] at front
    exact String.toList_eq_nil_iff.mp (List.append_eq_nil_iff.mp front.symm).1

/-- A text that is read to its end holds no terminator, and does not end with half
of one. -/
theorem clear (hk : lx.KeepsLines) (h : Reads lx a cs ts b []) :
    (∀ c ∈ cs, c ≠ '\n' ∧ c ≠ ':') ∧ cs.getLast? ≠ some '\r' := by
  generalize hrest : [] = rest at h
  induction h with
  | done =>
    subst hrest
    exact ⟨nofun, nofun⟩
  | @word awaits awaits' kind lexeme cs behind rest ts front read inner nonempty _ ih =>
    obtain ⟨hclear, hlast⟩ := ih hrest
    have hunbroken := Lexicon.unbroken_of_read hk read inner
    have hcs : leadingBlanks cs ++ (lexeme.toList ++ behind) = cs := by
      rw [← front]
      exact List.prefix_iff_eq_append.mp (leadingBlanks_isPrefixOf cs)
    rw [← hcs]
    constructor
    · refine List.forall_mem_append.mpr ⟨?_, List.forall_mem_append.mpr ⟨?_, hclear⟩⟩
      · intro c hc
        have hblank := isBlank_of_mem_leadingBlanks hc
        constructor <;> rintro rfl <;> cases hblank
      · intro c hc
        have hbreak := hunbroken c hc
        constructor <;> rintro rfl <;> cases hbreak
    · -- the last character is that of what follows the word, or of the word itself
      rw [List.getLast?_append, List.getLast?_append]
      cases hl : behind.getLast? with
      | some c => rwa [hl] at hlast
      | none =>
        cases hd : lexeme.toList.getLast? with
        | none =>
          exact absurd (String.toList_eq_nil_iff.mp (List.getLast?_eq_none_iff.mp hd)) nonempty
        | some d =>
          intro he
          obtain rfl : d = '\r' := Option.some.inj he
          have := hunbroken _ (List.mem_of_getLast? hd)
          cases this

end Reads

/-- Nowhere. -/
abbrev nowhere : Span → Span := fun _ => .origin

/-- The items of a text begin with the words that are read off it. -/
theorem Lexer.items_of_reads (lx : Lexer) {ts : List Token} {a : Bool} {rest : List Char}
    (h : Reads lx.lexicon lx.awaitsLabel lx.cursor.rest ts a rest) :
    ∃ (us : List Token) (cursor : Cursor), cursor.rest = rest ∧
      us.map (Token.relocate nowhere) = ts ∧ (∀ u ∈ us, u.kind.closes = false) ∧
      lx.items true = us.map .ok ++
        ({ lx with cursor := cursor, awaitsLabel := a } : Lexer).items true := by
  generalize hlexicon : lx.lexicon = lexicon at h
  generalize ha : lx.awaitsLabel = awaits at h
  generalize hcs : lx.cursor.rest = cs at h
  induction h generalizing lx with
  | done =>
    subst hlexicon ha
    exact ⟨[], lx.cursor, hcs, rfl, nofun, rfl⟩
  | @word awaits awaits' kind lexeme cs behind rest ts front read inner nonempty _ ih =>
    subst hlexicon ha hcs
    let start := lx.cursor.pass (leadingBlanks lx.cursor.rest)
    have hstart : start.rest = lexeme.toList ++ behind := front
    let next : Lexer :=
      { lx with
        cursor := start.pass lexeme.toList
        awaitsLabel := lx.lexicon.announcesLabel ⟨lexeme.toList, kind⟩ }
    have hread : lx.read = (.ok ⟨kind, lexeme, start.spanOf lexeme.toList⟩, next) := by
      have hword : lx.lexicon.read lx.awaitsLabel start.rest = .ok ⟨lexeme.toList, kind⟩ := by
        rw [hstart, read]
      have := Lexer.read_ok rfl hword inner
      rwa [String.ofList_toList] at this
    have hnext : next.cursor.rest = behind := by
      show start.rest.drop lexeme.toList.length = behind
      rw [hstart, List.drop_left]
    obtain ⟨us, cursor, hrest, hus, hinner, hitems⟩ := @ih next rfl rfl hnext
    refine ⟨⟨kind, lexeme, start.spanOf lexeme.toList⟩ :: us, cursor, hrest, ?_, ?_, ?_⟩
    · rw [List.map_cons, hus]
      rfl
    · exact List.forall_mem_cons.mpr ⟨inner, hinner⟩
    · rw [Lexer.items_of_read_ok hread nonempty, hitems]
      rfl

/-- Of a text without terminators the words are read up to the blanks at its end, unless there
is a stray character. The induction is on the length of the text: each step takes some of it. -/
theorem Lexer.reads_of_items (lx : Lexer) (hk : lx.lexicon.KeepsLines)
    (hclear : ∀ c ∈ lx.cursor.rest, c ≠ '\n' ∧ c ≠ ':') :
    ∃ (body : List Item) (p : Span), lx.items true = body ++ [.ok (.closing p)] ∧
      (∀ i ∈ body, i.closes = false) ∧
      ((∀ i ∈ body, i.stray? = none) → ∃ (a : Bool) (rest : List Char),
        Reads lx.lexicon lx.awaitsLabel lx.cursor.rest
          ((body.filterMap Item.token?).map (Token.relocate nowhere)) a rest ∧
        ∀ c ∈ rest, isBlank c = true) := by
  rcases blank_or_split lx.cursor.rest with hb | ⟨b, c, q, hrest, hb, hc⟩
  · have hend : (lx.cursor.pass lx.cursor.rest).rest = [] := List.drop_length
    refine ⟨[], _, items_end lx true (leadingBlanks_of_blank hb) hend, nofun, fun _ => ?_⟩
    exact ⟨lx.awaitsLabel, lx.cursor.rest, .done, hb⟩
  · obtain ⟨item, behind, step, _⟩ :=
      read_within (r := []) hk hclear nofun hrest hb hc ⟨0, 0, 0⟩
    obtain ⟨hlexicon, hsuffix, hshorter, _⟩ := step.leaves
    have hbehind : ∀ c ∈ behind.cursor.rest, c ≠ '\n' ∧ c ≠ ':' :=
      fun c hc => hclear c (hsuffix.subset hc)
    cases item with
    | error s =>
      refine ⟨[.error s], behind.stop, ?_, List.forall_mem_singleton.mpr rfl, fun hstray => ?_⟩
      · rw [items_of_read_error step.reads, if_pos rfl, items_skip (seals_end hbehind)]
        rfl
      · cases hstray _ List.mem_cons_self
    | ok t =>
      obtain ⟨body, p, hitems, hinner, hreads⟩ :=
        reads_of_items behind (hlexicon ▸ hk) hbehind
      refine ⟨.ok t :: body, p, ?_, List.forall_mem_cons.mpr ⟨step.inner, hinner⟩, fun hstray => ?_⟩
      · rw [items_of_read_ok step.reads (step.nonempty t rfl), hitems, List.cons_append]
      · obtain ⟨a, rest, hbody, hblank⟩ := hreads (List.forall_mem_cons.mp hstray).2
        have hitem := readsItem_of_read step.reads
        have hfront := hitem.passes.front_rest
        refine ⟨a, rest, ?_, hblank⟩
        have hword : lx.lexicon.read lx.awaitsLabel (t.lexeme.toList ++ behind.cursor.rest) =
              .ok ⟨t.lexeme.toList, t.kind⟩ ∧
            behind.awaitsLabel = lx.lexicon.announcesLabel ⟨t.lexeme.toList, t.kind⟩ := by
          cases hitem with
          | token hw =>
            rw [hfront] at hw
            refine ⟨hw.trans ?_, ?_⟩ <;> rw [String.toList_ofList]
        refine .word hfront hword.1 step.inner (step.nonempty t rfl) ?_
        rw [← hword.2, ← hlexicon]
        exact hbody
termination_by lx.cursor.rest.length

/-- **A text that is read to its end is one segment**, and holds the words that were
read. -/
theorem segments_of_reads {g : Grammar} {source : String} {ts : List Token} {a : Bool}
    (h : Reads g.lexicon false source.toList ts a []) (hne : ts ≠ []) :
    ∃ s, segments source g = [s] ∧ s.stray? = none ∧
      s.tokens.map (Token.relocate nowhere) = ts := by
  obtain ⟨us, cursor, hrest, hus, hinner, hitems⟩ :=
    Lexer.items_of_reads (.ofSource source g) h
  have hblank : leadingBlanks cursor.rest = [] := by rw [hrest]; rfl
  have hend := Lexer.items_end
    { Lexer.ofSource source g with cursor := cursor, awaitsLabel := a } true (b := []) hblank
    (by rw [Cursor.pass_nil]; exact hrest)
  have hclosed : ∀ i ∈ us.map (Except.ok (ε := Stray)), Item.closes i = false := by
    intro i hi
    obtain ⟨u, hu, rfl⟩ := List.mem_map.mp hi
    exact hinner u hu
  let s : Segment := ⟨us.map .ok, .closing ((cursor.pass []).spanOf [])⟩
  have hfilter : s.isBlank = false := by
    refine List.isEmpty_eq_false_iff.mpr ?_
    intro he
    apply hne
    rw [← hus, List.map_eq_nil_iff.mp he, List.map_nil]
  refine ⟨s, ?_, ?_, ?_⟩
  · rw [segments, scan, hitems, hend, Segment.ofItems, Segment.split_end hclosed rfl,
      List.filter_cons_of_pos (by rw [hfilter]; rfl), List.filter_nil]
  · rw [Segment.stray?, List.findSome?_map]
    exact List.findSome?_eq_none_iff.mpr fun _ _ => rfl
  · rw [← hus, Segment.tokens, List.filterMap_map]
    exact congrArg (List.map _) (List.filterMap_some (l := us))

/-- **A text without terminators is one segment at most**, and unless something in it is stray,
the tokens of the segment are read off the text. -/
theorem reads_of_mem_segments {g : Grammar} (hk : g.KeepsLines) {source : String}
    (hclear : ∀ c ∈ source.toList, c ≠ '\n' ∧ c ≠ ':') {s : Segment}
    (hs : s ∈ segments source g) (hstray : s.stray? = none) :
    ∃ (a : Bool) (rest : List Char), Reads g.lexicon false source.toList
      (s.tokens.map (Token.relocate nowhere)) a rest ∧ ∀ c ∈ rest, isBlank c = true := by
  obtain ⟨body, p, hitems, hinner, hreads⟩ :=
    (Lexer.ofSource source g).reads_of_items (Grammar.keepsLines_lexicon hk) hclear
  have hsplit : s ∈ Segment.split (body ++ [.ok (.closing p)]) :=
    hitems ▸ (List.mem_filter.mp hs).1
  rw [Segment.split_end hinner rfl] at hsplit
  obtain rfl := List.mem_singleton.mp hsplit
  exact hreads (List.findSome?_eq_none_iff.mp hstray)

/-- **What is said about a text that is read to its end is what the rules say about
its words.** -/
theorem analyze_of_reads {g : Grammar} {source : String} {ts : List Token} {a : Bool}
    (h : Reads g.lexicon false source.toList ts a []) (hne : ts ≠ []) :
    (∀ k, readStatement g ts .origin = .ok k →
        (analyze source g).program.kinds = [k] ∧ (analyze source g).diagnostics = []) ∧
      ∀ fault, readStatement g ts .origin = .error fault →
        ∃ text d, (analyze source g).program.kinds = [.invalid text] ∧
          (analyze source g).diagnostics = [d] ∧ d.wording = fault.report.wording := by
  obtain ⟨s, hs, hstray, htokens⟩ := segments_of_reads h hne
  have hread := readStatement_relocate nowhere g s.tokens s.stop
  rw [htokens] at hread
  have hanalyze : analyze source g = .ofJudged source [Judged.ofSegment g s] := by
    rw [analyze, judge, hs, List.map_singleton]
  have hverdict : s.verdict g = (readStatement g s.tokens s.stop).mapError Fault.report := by
    rw [Segment.verdict, hstray]
    cases readStatement g s.tokens s.stop <;> rfl
  rw [hanalyze]
  cases hr : readStatement g s.tokens s.stop with
  | ok k' =>
    rw [hr] at hread hverdict
    constructor
    · intro k hk
      obtain rfl : k = k' := Except.ok.inj (hk.symm.trans hread)
      simp only [Analysis.ofJudged, Program.kinds, List.map_cons, List.map_nil, Judged.stmt,
        Judged.ofSegment, hverdict, List.filterMap_cons, Judged.diagnostic?]
      exact ⟨rfl, rfl⟩
    · intro fault hf
      cases hf.symm.trans hread
  | error fault' =>
    rw [hr] at hread hverdict
    constructor
    · intro k hk
      cases hk.symm.trans hread
    · intro fault hf
      have hfault : fault = fault'.relocate nowhere := Except.error.inj (hf.symm.trans hread)
      simp only [Analysis.ofJudged, Program.kinds, List.map_cons, List.map_nil, Judged.stmt,
        Judged.ofSegment, hverdict, List.filterMap_cons, Judged.diagnostic?]
      refine ⟨_, _, rfl, rfl, ?_⟩
      rw [hfault, Fault.relocate_report, Diagnostic.wording_relocate]
      rfl

end CalcSyntax
