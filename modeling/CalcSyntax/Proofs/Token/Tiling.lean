import CalcSyntax.Proofs.Token.Place

/-!
# Tiling — items and the gaps between them

Asked again and again, with the rest of a statement skipped behind each stray
character, a lexer delivers the items of its text up to the end. The items do
not overlap, and what lies between two of them is a gap: blanks, or what was
skipped. Laid side by side, gaps and items are the text again (`Tiles`).

Three readers of the text have to agree on what a terminator is: the one that
reads it, the one that skips up to it, and the one that skips blanks, for which
a carriage return is a blank only if no line feed follows.

## What is proved

- `Lexer.ReadsItem.taken_or_end` — where no spelling is empty, a reading takes
  a character at least, or is the end.
- `Lexer.Delivers.tiles` — whatever a lexer delivers tiles what is left of its
  text.
- `delivers_tiles` — a source: all that a fresh lexer delivers is its scan, and
  the scan tiles the source.
-/

set_option autoImplicit false

namespace CalcSyntax

/-! ## Gaps -/

/-- No carriage return of the gap makes a terminator with a line feed, also not with
one right behind the gap. -/
def KeepsReturns (gap behind : List Char) : Prop :=
  ∀ front back, gap ++ behind = front ++ '\r' :: '\n' :: back → gap.length ≤ front.length

/-- What may stand in front of an item: blanks, or, behind a stray character, text
that ends no statement. -/
structure IsGap (broken : Bool) (gap behind : List Char) : Prop where
  blank : broken = false → ∀ c ∈ gap, c ∈ [' ', '\t', '\x0c', '\r']
  skipped : broken = true → ∀ c ∈ gap, c ≠ '\n' ∧ c ≠ ':'
  returns : KeepsReturns gap behind

theorem keepsReturns_cons {c : Char} {gap behind : List Char}
    (hc : ∀ back, c = '\r' → gap ++ behind ≠ '\n' :: back) (h : KeepsReturns gap behind) :
    KeepsReturns (c :: gap) behind := by
  rintro (_ | ⟨d, front⟩) back he
  · obtain ⟨rfl, hback⟩ := List.cons.inj he
    exact absurd hback (hc back rfl)
  · exact Nat.succ_le_succ (h front back (List.cons.inj he).2)

/-- A carriage return is a blank only if no line feed follows. -/
theorem keepsReturns_leadingBlanks (cs : List Char) :
    KeepsReturns (leadingBlanks cs) (cs.drop (leadingBlanks cs).length) := by
  fun_induction leadingBlanks cs with
  | case1 => exact fun _ _ _ => Nat.zero_le _
  | case2 c cs hbreak hc ih =>
    refine keepsReturns_cons ?_ ih
    rintro back rfl hback
    exact hbreak back rfl ((leadingBlanks_append_drop cs).symm.trans hback)
  | case3 => exact fun _ _ _ => Nat.zero_le _
  | case4 => exact fun _ _ _ => Nat.zero_le _

/-- Skipping stops at a carriage return if a line feed follows. -/
theorem keepsReturns_untilTerminator (cs : List Char) :
    KeepsReturns (untilTerminator cs) (cs.drop (untilTerminator cs).length) := by
  fun_induction untilTerminator cs with
  | case1 => exact fun _ _ _ => Nat.zero_le _
  | case2 => exact fun _ _ _ => Nat.zero_le _
  | case3 c cs h ih =>
    refine keepsReturns_cons ?_ ih
    rintro back rfl hback
    rw [(untilTerminator_append_drop cs).symm.trans hback] at h
    exact h rfl

theorem isGap_leadingBlanks (cs : List Char) :
    IsGap false (leadingBlanks cs) (cs.drop (leadingBlanks cs).length) where
  blank _ c hc := by
    have hblank := isBlank_of_mem_leadingBlanks hc
    simp only [isBlank, Bool.or_eq_true, beq_iff_eq] at hblank
    rcases hblank with ((rfl | rfl) | rfl) | rfl <;> decide
  skipped := nofun
  returns := keepsReturns_leadingBlanks cs

theorem isGap_untilTerminator (cs : List Char) :
    IsGap true (untilTerminator cs) (cs.drop (untilTerminator cs).length) where
  blank := nofun
  skipped _ _ hc := ne_of_mem_untilTerminator hc
  returns := keepsReturns_untilTerminator cs

/-! ## Tilings -/

/-- An item that is a stray character breaks its statement. -/
def Item.breaks (i : Item) : Bool := i.stray?.isSome

/-- From an offset on, gaps and items in turn make up a text, and each span says where
its item stands; `broken` says whether a stray character is in front. Every item in
front of the last has characters. The last is the end, where the text ends. -/
inductive Tiles : Bool → Nat → List Char → List Item → Prop where
  | last {broken : Bool} {offset : Nat} {gap : List Char} {p : Span}
    (hgap : IsGap broken gap [])
    (start : p.start = offset + byteLength gap)
    (stop : p.stop = p.start) :
    Tiles broken offset gap [.ok (.closing p)]
  | cons {broken : Bool} {offset : Nat} {gap rest : List Char} {item : Item} {items : List Item}
    (hgap : IsGap broken gap (item.chars ++ rest))
    (closes : broken = true → item.closes = true)
    (start : item.span.start = offset + byteLength gap)
    (stop : item.span.stop = item.span.start + byteLength item.chars)
    (nonempty : item.chars ≠ [])
    (behind : Tiles item.breaks item.span.stop rest items) :
    Tiles broken offset (gap ++ (item.chars ++ rest)) (item :: items)

namespace Tiles

variable {broken : Bool} {offset : Nat} {text : List Char} {items : List Item}

theorem le_start (h : Tiles broken offset text items) :
    ∀ i ∈ items, offset ≤ i.span.start := by
  induction h with
  | last _ start _ =>
    rintro i (_ | ⟨_, ⟨⟩⟩)
    exact start ▸ Nat.le_add_right _ _
  | cons _ _ start stop _ _ ih =>
    refine List.forall_mem_cons.mpr ⟨by omega, ?_⟩
    intro i hi
    have := ih i hi
    omega

/-- Items stand one behind the other. -/
theorem pairwise (h : Tiles broken offset text items) :
    items.Pairwise fun a b => a.span.stop ≤ b.span.start := by
  induction h with
  | last => exact List.pairwise_singleton _ _
  | cons _ _ _ _ _ hbehind ih => exact List.pairwise_cons.mpr ⟨hbehind.le_start, ih⟩

/-- Only the end takes nothing. -/
theorem nonempty_or_closing (h : Tiles broken offset text items) :
    ∀ i ∈ items, i.chars ≠ [] ∨ ∃ p, i = .ok (.closing p) := by
  induction h with
  | last => exact List.forall_mem_singleton.mpr (.inr ⟨_, rfl⟩)
  | cons _ _ _ _ nonempty _ ih => exact List.forall_mem_cons.mpr ⟨.inl nonempty, ih⟩

/-- The last item is the end of the text. -/
theorem last_eq (h : Tiles broken offset text items) :
    ∃ front p, items = front ++ [.ok (.closing p)] ∧ p.start = offset + byteLength text ∧
      p.stop = p.start := by
  induction h with
  | last _ start stop => exact ⟨[], _, rfl, start, stop⟩
  | @cons _ _ gap rest item _ _ _ start stop _ _ ih =>
    obtain ⟨front, p, rfl, hstart, hstop⟩ := ih
    refine ⟨item :: front, p, rfl, ?_, hstop⟩
    rw [byteLength_append, byteLength_append]
    omega

end Tiles

/-- The span of an item covers the characters that it was read from. -/
def Item.Covers (text : List Char) (i : Item) : Prop :=
  ∃ before after, text = before ++ i.chars ++ after ∧ i.span.start = byteLength before ∧
    i.span.stop = byteLength before + byteLength i.chars

theorem Item.Covers.slice? {text : List Char} {i : Item} (h : i.Covers text) :
    i.span.slice? text = some i.chars := by
  obtain ⟨before, after, rfl, hstart, hstop⟩ := h
  rw [Span.slice?, hstart, hstop]
  exact slice?_append before i.chars after

theorem Item.Covers.isBoundary {text : List Char} {i : Item} (h : i.Covers text) :
    IsBoundary text i.span.start := by
  obtain ⟨before, after, rfl, hstart, _⟩ := h
  rw [hstart, List.append_assoc]
  exact isBoundary_append _ _

theorem Item.Covers.le {text : List Char} {i : Item} (h : i.Covers text) :
    i.span.start ≤ i.span.stop := by
  obtain ⟨before, _, _, hstart, hstop⟩ := h
  omega

/-- An item with characters takes a byte at least. -/
theorem Item.Covers.lt {text : List Char} {i : Item} (h : i.Covers text) (hne : i.chars ≠ []) :
    i.span.start < i.span.stop := by
  obtain ⟨before, _, _, hstart, hstop⟩ := h
  have hbytes : byteLength i.chars ≠ 0 := fun hzero => hne (eq_nil_of_byteLength hzero)
  omega

/-- An item with characters begins in front of the end of its text. -/
theorem Item.Covers.start_lt {text : List Char} {i : Item} (h : i.Covers text)
    (hne : i.chars ≠ []) : i.span.start < byteLength text := by
  obtain ⟨before, after, rfl, hstart, _⟩ := h
  have hbytes : byteLength i.chars ≠ 0 := fun hzero => hne (eq_nil_of_byteLength hzero)
  rw [byteLength_append, byteLength_append]
  omega

theorem Tiles.covers {broken : Bool} {offset : Nat} {text : List Char} {items : List Item}
    (h : Tiles broken offset text items) {before : List Char} (hoffset : offset = byteLength before) :
    ∀ i ∈ items, i.Covers (before ++ text) := by
  induction h generalizing before with
  | @last _ _ gap p _ start stop =>
    refine List.forall_mem_singleton.mpr ⟨before ++ gap, [], ?_, ?_, ?_⟩
    · show _ = _ ++ [] ++ []
      rw [List.append_nil, List.append_nil]
    · rw [byteLength_append, ← hoffset]
      exact start
    · rw [byteLength_append, ← hoffset]
      exact stop.trans start
  | @cons _ _ gap rest item _ _ _ start stop _ _ ih =>
    have hstop : item.span.stop = byteLength (before ++ gap ++ item.chars) := by
      rw [stop, start, byteLength_append, byteLength_append, hoffset]
    have htext : before ++ (gap ++ (item.chars ++ rest)) =
        before ++ gap ++ item.chars ++ rest := by
      simp only [List.append_assoc]
    rw [htext]
    refine List.forall_mem_cons.mpr ⟨⟨before ++ gap, rest, rfl, ?_, ?_⟩, ih hstop⟩
    · rw [start, byteLength_append, hoffset]
    · rw [hstop, byteLength_append]

/-! ## Reading where no spelling is empty -/

namespace Lexer

variable {g : Grammar} {lx behind : Lexer} {item : Item}

/-- Where no spelling is empty, a reading takes a character at least, or is the end. -/
theorem ReadsItem.taken_or_end (hg : g.NoEmptyWord) (hl : lx.lexicon = g.lexicon)
    (h : lx.ReadsItem item behind) :
    (item.chars ≠ [] ∧ isEnd item = false) ∨
      (lx.front.rest = [] ∧ item = .ok (.closing (lx.front.spanOf [])) ∧
        behind.awaitsLabel = false) := by
  cases h with
  | @token w hw =>
    have hchars : (String.ofList w.spelling).toList = w.spelling := String.toList_ofList
    have hwords : ∀ w ∈ lx.lexicon.words, w.spelling ≠ [] ∧ w.kind.closes = false := by
      rw [hl]
      exact fun w hw => ⟨Grammar.ne_nil_of_mem_words hg hw, Grammar.inner_of_mem_words hw⟩
    simp only [Item.chars, hchars, isEnd]
    rcases Lexicon.end_or_terminator_or_inner hwords hw with
      ⟨hrest, rfl⟩ | ⟨hkind, ht⟩ | ⟨hne, hinner⟩
    · exact .inr ⟨hrest, rfl, rfl⟩
    · refine .inl ⟨(isPrefixOf_of_terminator? ht).2, ?_⟩
      rw [hkind]
      rfl
    · refine .inl ⟨hne, beq_eq_false_iff_ne.mpr ?_⟩
      intro hkind
      rw [hkind] at hinner
      cases hinner
  | stray _ => exact .inl ⟨List.cons_ne_nil _ _, rfl⟩

/-- At the end of a statement, what is read ends it. -/
theorem ReadsItem.closes (hends : lx.front.rest = [] ∨ (terminator? lx.front.rest).isSome)
    (h : lx.ReadsItem item behind) : item.closes = true := by
  have hread : ∃ w, w.kind.closes = true ∧
      lx.lexicon.read lx.awaitsLabel lx.front.rest = .ok w := by
    rcases hends with hnil | hsome
    · exact ⟨⟨[], .eof⟩, rfl, by rw [hnil, Lexicon.read]⟩
    · obtain ⟨t, ht⟩ := Option.isSome_iff_exists.mp hsome
      exact ⟨⟨t, .terminator⟩, rfl, Lexicon.read_of_terminator? ht⟩
  obtain ⟨v, hv, hok⟩ := hread
  cases h with
  | token hw =>
    rw [hw] at hok
    cases hok
    exact hv
  | stray hc => rw [hc] at hok; cases hok

/-- Where something is taken, less of the text is left. -/
theorem Passes.length_lt (h : lx.Passes item behind) (hne : item.chars ≠ []) :
    behind.cursor.rest.length < lx.cursor.rest.length := by
  have hpos := List.length_pos_iff.mpr hne
  rw [h.rest, List.length_append, List.length_append]
  omega

/-! ## Delivery -/

/-- What a lexer delivers, call after call. Behind a stray character the rest of its
statement is skipped, and behind the end nothing comes. -/
inductive Delivers : Lexer → List Item → Prop where
  | nothing {lx behind : Lexer} (h : lx.next? = (none, behind)) : Delivers lx []
  | token {lx behind : Lexer} {t : Token} {items : List Item}
    (h : lx.next? = (some (.ok t), behind)) (rest : Delivers behind items) :
    Delivers lx (.ok t :: items)
  | stray {lx behind : Lexer} {s : Stray} {items : List Item}
    (h : lx.next? = (some (.error s), behind)) (rest : Delivers behind.skipToTerminator items) :
    Delivers lx (.error s :: items)

/-- A call that answers has read an item. -/
theorem readsItem_of_next? (h : lx.next? = (some item, behind)) :
    ∃ b, lx.ReadsItem item b ∧ behind = { b with ended := isEnd item } := by
  cases hended : lx.ended with
  | true => rw [next?_of_ended hended] at h; cases h
  | false =>
    rw [next?_of_not_ended hended] at h
    cases h
    exact ⟨lx.read.2, lx.readsItem_read, rfl⟩

theorem Delivers.eq_nil {items : List Item} (h : lx.Delivers items) (hended : lx.ended = true) :
    items = [] := by
  cases h with
  | nothing => rfl
  | token h _ => rw [next?_of_ended hended] at h; cases h
  | stray h _ => rw [next?_of_ended hended] at h; cases h

/-- A lexer delivers one list. -/
theorem Delivers.unique {items others : List Item} (h : lx.Delivers items)
    (ho : lx.Delivers others) : items = others := by
  induction h generalizing others with
  | nothing h =>
    cases ho with
    | nothing => rfl
    | token ho _ => rw [h] at ho; cases ho
    | stray ho _ => rw [h] at ho; cases ho
  | token h _ ih =>
    cases ho with
    | nothing ho => rw [h] at ho; cases ho
    | token ho rest =>
      rw [h] at ho
      cases ho
      rw [ih rest]
    | stray ho _ => rw [h] at ho; cases ho
  | stray h _ ih =>
    cases ho with
    | nothing ho => rw [h] at ho; cases ho
    | token ho _ => rw [h] at ho; cases ho
    | stray ho rest =>
      rw [h] at ho
      cases ho
      rw [ih rest]

/-- Only a call of `next?` hands out the end. -/
theorem ended_read (lx : Lexer) : lx.read.2.ended = lx.ended := by
  fun_cases read lx <;> rfl

/-- **A lexer delivers its stream.** Each call that does not answer the end leaves less
of the text. -/
theorem delivers_items (hg : g.NoEmptyWord) (lx : Lexer) (hl : lx.lexicon = g.lexicon)
    (hended : lx.ended = false) : lx.Delivers (lx.items true) := by
  rcases hr : lx.read with ⟨item, behind⟩
  have hread := readsItem_of_read hr
  have hnext : lx.next? = (some item, { behind with ended := isEnd item }) := by
    rw [next?_of_not_ended hended, hr]
  have hstill : behind.ended = false := by
    rw [← hended, ← ended_read lx, hr]
  have hpasses := hread.passes
  have hlexicon := hpasses.lexicon.trans hl
  rcases hread.taken_or_end hg hl with ⟨hne, hend⟩ | ⟨_, rfl, hawaits⟩
  · rw [hend] at hnext
    have hshorter := hpasses.length_lt hne
    have hbehind : { behind with ended := false } = behind := by rw [← hstill]
    rw [hbehind] at hnext
    cases item with
    | ok t =>
      have hlexeme : t.lexeme ≠ "" := fun he => hne (String.toList_eq_nil_iff.mpr he)
      rw [items_of_read_ok hr hlexeme]
      exact .token hnext (delivers_items hg behind hlexicon hstill)
    | error s =>
      have hskip := length_rest_skipToTerminator behind
      rw [items_of_read_error hr, if_pos rfl]
      exact .stray hnext (delivers_items hg behind.skipToTerminator hlexicon hstill)
  · rw [items_of_read_end hr rfl hawaits]
    exact .token hnext (.nothing (next?_of_ended rfl))
termination_by lx.cursor.rest.length

/-- A gap reaches from an offset up to a lexer, and goes on with the blanks there. -/
structure Resumes (lx : Lexer) (broken : Bool) (offset : Nat) (gap : List Char) : Prop where
  offset : lx.cursor.offset = offset + byteLength gap
  isGap : IsGap broken (gap ++ leadingBlanks lx.cursor.rest) lx.front.rest
  ends : broken = true → lx.front.rest = [] ∨ (terminator? lx.front.rest).isSome

theorem resumes_here (lx : Lexer) : lx.Resumes false lx.cursor.offset [] :=
  ⟨rfl, isGap_leadingBlanks lx.cursor.rest, nofun⟩

/-- Skipping stops where a statement ends, and there are no blanks in between. -/
theorem resumes_skipToTerminator (lx : Lexer) :
    lx.skipToTerminator.Resumes true lx.cursor.offset (untilTerminator lx.cursor.rest) := by
  have hends := terminator?_behind lx.cursor.rest
  have hblanks : leadingBlanks lx.skipToTerminator.cursor.rest = [] := leadingBlanks_eq_nil hends
  have hfront : lx.skipToTerminator.front = lx.skipToTerminator.cursor := by
    rw [front, hblanks, Cursor.pass_nil]
  refine ⟨rfl, ?_, ?_⟩
  · rw [hblanks, List.append_nil, hfront]
    exact isGap_untilTerminator lx.cursor.rest
  · rw [hfront]
    exact fun _ => hends

/-- **One item.** The gap in front of it and the item itself are taken off the text. -/
theorem Resumes.tiles {broken : Bool} {offset : Nat} {gap : List Char}
    {items : List Item} (h : lx.Resumes broken offset gap) (hread : lx.ReadsItem item behind)
    (hne : item.chars ≠ [])
    (hbehind : Tiles item.breaks item.span.stop behind.cursor.rest items) :
    Tiles broken offset (gap ++ lx.cursor.rest) (item :: items) := by
  have hpasses := hread.passes
  have hgap := h.isGap
  rw [hpasses.front_rest] at hgap
  rw [hpasses.rest, ← List.append_assoc]
  refine .cons hgap (fun hb => hread.closes (h.ends hb)) ?_ ?_ hne hbehind
  · rw [hpasses.span, byteLength_append, ← Nat.add_assoc, ← h.offset]
    rfl
  · rw [hpasses.span]
    rfl

/-- **Whatever a lexer delivers tiles its text.** The induction is on the delivery; what
is carried along is the gap that was left in front of the lexer. -/
theorem Delivers.tiles (hg : g.NoEmptyWord) {items : List Item} (hd : lx.Delivers items)
    (hl : lx.lexicon = g.lexicon) (hended : lx.ended = false) {broken : Bool} {offset : Nat}
    {gap : List Char} (h : lx.Resumes broken offset gap) :
    Tiles broken offset (gap ++ lx.cursor.rest) items := by
  induction hd generalizing broken offset gap with
  | nothing hnext =>
    rw [next?_of_not_ended hended] at hnext
    cases hnext
  | @token lx _ t items hnext hrest ih =>
    obtain ⟨behind, hread, rfl⟩ := readsItem_of_next? hnext
    have hpasses := hread.passes
    rcases hread.taken_or_end hg hl with ⟨hne, hend⟩ | ⟨hnil, hclosing, _⟩
    · have hbehind := ih (hpasses.lexicon.trans hl) hend (resumes_here _)
      rw [List.nil_append, show ({ behind with ended := _ } : Lexer).cursor = behind.cursor from rfl,
        hpasses.offset] at hbehind
      exact h.tiles hread hne hbehind
    · cases hclosing
      rw [hrest.eq_nil rfl]
      have hblanks := lx.rest_front
      have hgap := h.isGap
      rw [hnil] at hblanks hgap
      rw [List.append_nil] at hblanks
      rw [hblanks] at hgap
      refine .last hgap ?_ rfl
      show lx.cursor.offset + byteLength (leadingBlanks lx.cursor.rest) = _
      rw [hblanks, byteLength_append, h.offset, Nat.add_assoc]
  | @stray lx _ s items hnext hrest ih =>
    obtain ⟨behind, hread, rfl⟩ := readsItem_of_next? hnext
    have hpasses := hread.passes
    have hbehind := ih (hpasses.lexicon.trans hl) rfl (resumes_skipToTerminator _)
    refine h.tiles hread (List.cons_ne_nil _ _) ?_
    rw [← hpasses.offset, behind.rest_skipToTerminator]
    exact hbehind

end Lexer

/-- The scan of a source tiles it. -/
theorem tiles_scan (source : String) {g : Grammar} (hg : g.NoEmptyWord) :
    Tiles false 0 source.toList (scan source g) :=
  (Lexer.delivers_items hg (.ofSource source g) rfl rfl).tiles hg rfl rfl (Lexer.resumes_here _)

/-- **A source is tiled by its items.** What a fresh lexer delivers is the scan of the
source. Its items stand one behind the other, each covers what it was read from, gaps
and items are the source, and the last item is the end, where the source ends. -/
theorem delivers_tiles (source : String) (g : Grammar) (hg : g.NoEmptyWord) :
    (∀ items, (Lexer.ofSource source g).Delivers items ↔ items = scan source g) ∧
      Tiles false 0 source.toList (scan source g) ∧
      ((scan source g).Pairwise fun a b => a.span.stop ≤ b.span.start) ∧
      (∀ i ∈ scan source g, i.span.slice? source.toList = some i.chars) ∧
      ∃ front p, scan source g = front ++ [.ok (.closing p)] ∧
        p.start = byteLength source.toList ∧ p.stop = byteLength source.toList := by
  have hdelivers : (Lexer.ofSource source g).Delivers (scan source g) :=
    Lexer.delivers_items hg _ rfl rfl
  have htiles := tiles_scan source hg
  have hzero : 0 = byteLength [] := rfl
  obtain ⟨front, p, hlast, hstart, hstop⟩ := htiles.last_eq
  have hend : p.start = byteLength source.toList := hstart.trans (Nat.zero_add _)
  refine ⟨fun items => ⟨fun h => h.unique hdelivers, fun h => h ▸ hdelivers⟩, htiles,
    htiles.pairwise, ?_, front, p, hlast, hend, hstop.trans hend⟩
  exact fun i hi => (htiles.covers hzero i hi).slice?

/-- A skipped gap in front of a colon, an empty one in front of a line break, and
carriage returns on both sides of being a blank. -/
theorem delivers_tiles_returns :
    Grammar.calculator.NoEmptyWord ∧
      (∀ items, (Lexer.ofSource "1 $ 2:\r\n\tθ\r" .calculator).Delivers items ↔
        items = scan "1 $ 2:\r\n\tθ\r" .calculator) ∧
      Tiles false 0 "1 $ 2:\r\n\tθ\r".toList (scan "1 $ 2:\r\n\tθ\r" .calculator) ∧
      (scan "1 $ 2:\r\n\tθ\r" .calculator).map Item.span =
        [⟨0, 1, 1, 0⟩, ⟨2, 3, 1, 2⟩, ⟨5, 6, 1, 5⟩, ⟨6, 8, 1, 6⟩, ⟨9, 11, 2, 1⟩, ⟨12, 12, 2, 3⟩] := by
  have hwords : Grammar.calculator.NoEmptyWord := by decide +kernel
  obtain ⟨hdelivers, htiles, _⟩ := delivers_tiles "1 $ 2:\r\n\tθ\r" .calculator hwords
  refine ⟨hwords, hdelivers, htiles, ?_⟩
  decide +kernel

end CalcSyntax
