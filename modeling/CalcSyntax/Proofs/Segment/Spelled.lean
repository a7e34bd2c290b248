import CalcSyntax.Analysis
import CalcSyntax.Proofs.Reading.Image
import CalcSyntax.Proofs.Token.Place

/-!
# Spelled — the tokens that a text can have

What the scanner reads is spelled as its kind is: a number is a word of its
form, a label has one or two characters of labels, and a variable is a
capital letter or one of the named ones. No registered spelling can change
that, since registered words make other kinds of tokens.

## What is proved

- `Lexicon.isSpelled_of_read` — one word, for every grammar.
- `Lexer.exists_read_of_mem_items` — a token was read as the word that it is.
- `spelled_of_mem_segments` — the tokens of a statement.
- `readable_or_invalid` — a statement is readable or invalid.
- `readable_of_isClean` — where nothing is wrong, all statements are
  readable.
-/

set_option autoImplicit false

namespace CalcSyntax

variable {g : Grammar}

/-- A word is spelled as its kind is. -/
def Word.IsSpelled (w : Word) : Prop :=
  ∀ span, (⟨w.kind, String.ofList w.spelling, span⟩ : Token).IsSpelled

/-! ## One word -/

theorem isSpelled_of_isNumeral {w : Word} (h : Numeral.IsNumeral w) : w.IsSpelled := by
  intro span
  have hlist := String.toList_ofList (l := w.spelling)
  rcases h with ⟨hk, hi⟩ | ⟨hk, hf⟩
  · rwa [Token.IsSpelled, hk, hlist]
  · rwa [Token.IsSpelled, hk, hlist]

/-- A registered spelling makes a variable only if it is a named one, and never a
number or a label. -/
theorem isSpelled_of_mem_words {w : Word} (h : w ∈ g.lexicon.words) : w.IsSpelled := by
  intro span
  rcases Grammar.mem_spellings_iff.mp (Word.mem_enterAll h) with
    ⟨d, _, rfl⟩ | ⟨d, _, rfl⟩ | ⟨d, _, rfl⟩ | ⟨name, hname, rfl⟩ | hp
  · trivial
  · trivial
  · trivial
  · refine .inl ?_
    rwa [Word.ofString, String.ofList_toList]
  · simp only [punctuation, List.mem_cons, List.not_mem_nil, or_false] at hp
    rcases hp with rfl | rfl | rfl <;> trivial

theorem isLabel_labelName {c : Char} (h : isLabelChar c = true) (cs : List Char) :
    IsLabel (String.ofList (labelName (c :: cs))) := by
  have hlist := String.toList_ofList (l := labelName (c :: cs))
  refine ⟨?_, ?_, ?_⟩
  · intro he
    exact labelName_ne_nil h cs (String.ofList_eq_empty_iff.mp he)
  · rw [hlist]
    exact Nat.le_trans (List.takeWhile_prefix _).length_le (List.length_take_le 2 _)
  · rw [hlist]
    exact List.all_eq_true.mp List.all_takeWhile

/-- **What is read is spelled as its kind is.** -/
theorem Lexicon.isSpelled_of_read {awaits : Bool} {cs : List Char} {w : Word}
    (h : g.lexicon.read awaits cs = .ok w) : w.IsSpelled := by
  cases Lexicon.finds_of_read h with
  | eof => exact fun _ => trivial
  | terminator _ => exact fun _ => trivial
  | @label c cs hl => exact fun _ => isLabel_labelName hl cs
  | numeral hw => exact isSpelled_of_isNumeral (isNumeral_of_numeral? hw)
  | registered hw => exact isSpelled_of_mem_words hw
  | @capital c _ hupper => exact fun _ => .inr ⟨c, hupper, String.toList_ofList⟩

/-! ## The tokens of a statement -/

/-- A token was read as the word that it is, wherever that was. -/
def Item.WasRead (g : Grammar) (i : Item) : Prop :=
  ∀ t, i = .ok t → ∃ awaits behind,
    g.lexicon.read awaits (t.lexeme.toList ++ behind) = .ok ⟨t.lexeme.toList, t.kind⟩

theorem Lexer.ReadsItem.wasRead {lx behind : Lexer} {item : Item} (h : lx.ReadsItem item behind)
    (hl : lx.lexicon = g.lexicon) : item.WasRead g := by
  rintro t rfl
  have hrest : lx.front.rest = t.lexeme.toList ++ behind.cursor.rest := h.passes.front_rest
  cases h with
  | @token w hw =>
    rw [hl, hrest] at hw
    refine ⟨lx.awaitsLabel, _, hw.trans ?_⟩
    rw [String.toList_ofList]

theorem Lexer.exists_read_of_mem_items (lx : Lexer) {resync : Bool} {t : Token}
    (hl : lx.lexicon = g.lexicon) (h : .ok t ∈ lx.items resync) :
    ∃ awaits behind, g.lexicon.read awaits (t.lexeme.toList ++ behind) =
      .ok ⟨t.lexeme.toList, t.kind⟩ := by
  have hall : ∀ i ∈ lx.items resync, i.WasRead g :=
    forall_mem_items (fun lx hl => lx.readsItem_read.wasRead hl)
      (fun lx hl => lx.readsItem_read.passes.lexicon.trans hl) (fun _ hl => hl) hl
  exact hall _ h t rfl

theorem isSpelled_of_mem_items (lx : Lexer) {resync : Bool} {t : Token}
    (hl : lx.lexicon = g.lexicon) (h : .ok t ∈ lx.items resync) : t.IsSpelled := by
  obtain ⟨_, _, hread⟩ := lx.exists_read_of_mem_items hl h
  have hspelled := Lexicon.isSpelled_of_read hread t.span
  rwa [String.ofList_toList] at hspelled

theorem Segment.forall_mem_putFront {P : Item → Prop} {item : Item} {ss : List Segment}
    (hitem : P item) (h : ∀ s ∈ ss, ∀ i ∈ s.items, P i) :
    ∀ s ∈ putFront item ss, ∀ i ∈ s.items, P i := by
  cases ss with
  | nil => nofun
  | cons first more =>
    obtain ⟨hfirst, hmore⟩ := List.forall_mem_cons.mp h
    exact List.forall_mem_cons.mpr ⟨List.forall_mem_cons.mpr ⟨hitem, hfirst⟩, hmore⟩

/-- Cutting items adds none. -/
theorem Segment.mem_of_mem_split (items : List Item) :
    ∀ s ∈ split items, ∀ i ∈ s.items, i ∈ items := by
  have behind {item : Item} {rest : List Item} {ss : List Segment}
      (h : ∀ s ∈ ss, ∀ i ∈ s.items, i ∈ rest) : ∀ s ∈ ss, ∀ i ∈ s.items, i ∈ item :: rest :=
    fun s hs i hi => List.mem_cons_of_mem _ (h s hs i hi)
  fun_induction split items with
  | case1 => nofun
  | case2 t rest _ ih => exact List.forall_mem_cons.mpr ⟨nofun, behind ih⟩
  | case3 t rest => exact List.forall_mem_singleton.mpr nofun
  | case4 t rest _ _ ih => exact forall_mem_putFront List.mem_cons_self (behind ih)
  | case5 c rest ih => exact forall_mem_putFront List.mem_cons_self (behind ih)

/-- What ends a statement is not among its items. -/
theorem Segment.inner_of_mem_split (items : List Item) :
    ∀ s ∈ split items, ∀ i ∈ s.items, i.closes = false := by
  fun_induction split items with
  | case1 => nofun
  | case2 t rest _ ih => exact List.forall_mem_cons.mpr ⟨nofun, ih⟩
  | case3 t rest => exact List.forall_mem_singleton.mpr nofun
  | case4 t rest hterminator heof ih =>
    refine forall_mem_putFront ?_ ih
    show t.kind.closes = false
    cases hkind : t.kind with
    | terminator => exact absurd hkind hterminator
    | eof => exact absurd hkind heof
    | _ => rfl
  | case5 c rest ih => exact forall_mem_putFront rfl ih

theorem Segment.mem_items_of_mem_tokens {s : Segment} {t : Token} (ht : t ∈ s.tokens) :
    .ok t ∈ s.items := by
  obtain ⟨i, hi, hit⟩ := List.mem_filterMap.mp ht
  cases i with
  | error c => cases hit
  | ok u =>
    obtain rfl : u = t := Option.some.inj hit
    exact hi

/-- The tokens of a statement are among the items of the source. -/
theorem mem_scan_of_mem_segments {source : String} {s : Segment} (h : s ∈ segments source g)
    {t : Token} (ht : t ∈ s.tokens) : .ok t ∈ scan source g :=
  Segment.mem_of_mem_split _ s (List.mem_filter.mp h).1 _ (Segment.mem_items_of_mem_tokens ht)

/-- No token of a statement ends it. -/
theorem inner_of_mem_segments {source : String} {s : Segment} (h : s ∈ segments source g)
    {t : Token} (ht : t ∈ s.tokens) : t.kind.closes = false :=
  Segment.inner_of_mem_split _ s (List.mem_filter.mp h).1 _ (Segment.mem_items_of_mem_tokens ht)

/-- The tokens of a statement are spelled as their kinds are. -/
theorem spelled_of_mem_segments {source : String} {s : Segment} (h : s ∈ segments source g) :
    Spelled s.tokens :=
  fun _ ht => isSpelled_of_mem_items (.ofSource source g) rfl (mem_scan_of_mem_segments h ht)

/-! ## Statements -/

theorem readStatement_of_verdict {s : Segment} {k : StatementKind} (h : s.verdict g = .ok k) :
    readStatement g s.tokens s.stop = .ok k := by
  unfold Segment.verdict at h
  cases hs : s.stray? with
  | some c => rw [hs] at h; cases h
  | none =>
    rw [hs] at h
    cases hr : readStatement g s.tokens s.stop with
    | ok k' => simp only [hr] at h; cases h; rfl
    | error fault => simp only [hr] at h; cases h

/-- A statement of a source stands for one of its segments. -/
theorem exists_segment_of_mem {source : String} {st : Statement}
    (h : st ∈ (analyze source g).program.statements) :
    ∃ s ∈ segments source g, st = (Judged.ofSegment g s).stmt source.toList := by
  simp only [analyze, Analysis.ofJudged, judge, List.map_map, List.mem_map] at h
  obtain ⟨s, hs, rfl⟩ := h
  exact ⟨s, hs, rfl⟩

/-- The kind of a statement is what its segment says, unless that is none. -/
theorem readStatement_or_invalid (g : Grammar) (text : List Char) (s : Segment) :
    readStatement g s.tokens s.stop = .ok ((Judged.ofSegment g s).stmt text).kind ∨
      ((Judged.ofSegment g s).diagnostic?.isSome = true ∧
        ((Judged.ofSegment g s).stmt text).kind = .invalid (s.rawText text)) := by
  simp only [Judged.stmt, Judged.diagnostic?, Judged.ofSegment]
  cases hv : s.verdict g with
  | ok k => exact .inl (readStatement_of_verdict hv)
  | error d => exact .inr ⟨rfl, rfl⟩

/-- **Every statement is readable**, unless it is invalid. -/
theorem readable_or_invalid {source : String} {st : Statement}
    (h : st ∈ (analyze source g).program.statements) :
    st.kind.IsReadable g ∨ st.kind.isInvalid = true := by
  obtain ⟨s, hs, rfl⟩ := exists_segment_of_mem h
  rcases readStatement_or_invalid g source.toList s with hread | ⟨_, hinvalid⟩
  · exact .inl (readable_of_readStatement (spelled_of_mem_segments hs) hread)
  · rw [hinvalid]
    exact .inr rfl

/-- The expressions at the top of a readable statement are readable. -/
theorem StatementKind.IsReadable.exprs {k : StatementKind} (h : k.IsReadable g) :
    ∀ e ∈ k.exprs, e.IsReadable g := by
  cases h with
  | empty => nofun
  | expression he => exact List.forall_mem_singleton.mpr he
  | label _ _ _ => nofun
  | arguments _ _ _ hes => exact hes

/-- The expressions of a program are readable. -/
theorem readable_of_mem_program {source : String} {st : Statement}
    (h : st ∈ (analyze source g).program.statements) : ∀ e ∈ st.kind.exprs, e.IsReadable g := by
  rcases readable_or_invalid h with hr | hi
  · exact hr.exprs
  · cases hk : st.kind with
    | invalid text => nofun
    | _ => rw [hk] at hi; cases hi

/-- Where nothing is wrong, every statement is read from the tokens of a segment. -/
theorem exists_segment_of_isClean {source : String} (h : (analyze source g).isClean = true)
    {k : StatementKind} (hk : k ∈ (analyze source g).program.kinds) :
    ∃ s ∈ segments source g, readStatement g s.tokens s.stop = .ok k := by
  obtain ⟨st, hst, rfl⟩ := List.mem_map.mp hk
  obtain ⟨s, hs, rfl⟩ := exists_segment_of_mem hst
  refine ⟨s, hs, (readStatement_or_invalid g source.toList s).resolve_right ?_⟩
  intro ⟨hsome, _⟩
  have hnil : (judge source g).filterMap Judged.diagnostic? = [] := List.isEmpty_iff.mp h
  have hnone := List.filterMap_eq_nil_iff.mp hnil _ (List.mem_map_of_mem hs)
  rw [hnone] at hsome
  cases hsome

/-- **Where nothing is wrong, all statements are readable.** -/
theorem readable_of_isClean {source : String} (h : (analyze source g).isClean = true)
    {k : StatementKind} (hk : k ∈ (analyze source g).program.kinds) : k.IsReadable g := by
  obtain ⟨s, hs, hread⟩ := exists_segment_of_isClean h hk
  exact readable_of_readStatement (spelled_of_mem_segments hs) hread

end CalcSyntax
