import CalcSyntax.Proofs.Segment.Order
import CalcSyntax.Proofs.Segment.Spelled
import CalcSyntax.Proofs.Segment.Yield
import Mathlib.Data.List.Chain

/-!
# Concord — three readers of one lexer

A listing, a segmenter and a tokenizer each ask a lexer for items, and each has its own way
with stray characters and terminators. The listing skips the rest of the statement and goes
on; the segmenter does so too, keeps the first stray character of a statement and drops the
terminators, and drops the end if it is alone; the tokenizer stops.

They agree because of two things about the items. Behind a stray character comes a terminator
or the end, so no statement has a second one. And only the last item is the end, so cutting
at the terminators loses none.

The text of a listing is told from the segments alone. Statement by statement it has a line
for each token, one for the stray character behind them and one for the terminator; then comes
the line of the end and the line of the total.

## What is proved

- `Tiles.isChain`, `Lexer.Delivers.end_last` — the two things.
- `Segment.flatMap_marks_split_eq` — the segments put together are the items.
- `Lexer.Delivers.collects`, `Lexer.tokens?_items` — the tokenizer.
- `listing_eq` — the text of the listing.
- `readers_agree` — the listing, the segments and the tokens of a source.
-/

set_option autoImplicit false

namespace CalcSyntax

/-! ## What a lexer delivers -/

variable {items : List Item}

/-- Behind a stray character the statement ends. -/
theorem Tiles.isChain {broken : Bool} {offset : Nat} {text : List Char}
    (h : Tiles broken offset text items) :
    (broken = true → ∀ i ∈ items.head?, i.closes = true) ∧
      items.IsChain (fun a b => a.breaks = true → b.closes = true) := by
  induction h with
  | last => exact ⟨fun _ _ hi => Option.some.inj hi ▸ rfl, .singleton _⟩
  | cons _ closes _ _ _ _ ih =>
    obtain ⟨hhead, hchain⟩ := ih
    exact ⟨fun hb _ hi => Option.some.inj hi ▸ closes hb,
      List.isChain_cons.mpr ⟨fun b hb ha => hhead ha b hb, hchain⟩⟩

/-- Only the last item is the end of the text. -/
theorem Lexer.Delivers.end_last {lx : Lexer} (h : lx.Delivers items)
    (hc : Segmenter.Complete items) : ∃ front p, items = front ++ [.ok (.closing p)] ∧
      ∀ i ∈ front, isEnd i = false := by
  induction h with
  | nothing =>
    obtain ⟨_, hlast⟩ := hc
    cases hlast
  | @token lx behind t items hnext rest ih =>
    by_cases hend : isEnd (.ok t) = true
    · have hended : behind.ended = true := by
        obtain ⟨_, _, rfl⟩ := readsItem_of_next? hnext
        exact hend
      obtain rfl := rest.eq_nil hended
      obtain ⟨p, hlast⟩ := hc
      exact ⟨[], p, congrArg ([·]) (Option.some.inj hlast), nofun⟩
    · have hinner := Bool.eq_false_iff.mpr hend
      obtain ⟨front, p, rfl, hfront⟩ := ih (hc.tail hinner)
      exact ⟨.ok t :: front, p, rfl, List.forall_mem_cons.mpr ⟨hinner, hfront⟩⟩
  | @stray lx behind s items hnext rest ih =>
    obtain ⟨front, p, rfl, hfront⟩ := ih (hc.tail rfl)
    exact ⟨.error s :: front, p, rfl, List.forall_mem_cons.mpr ⟨rfl, hfront⟩⟩

/-! ## Segments -/

theorem TokenKind.closes_iff {kind : TokenKind} :
    kind.closes = true ↔ kind = .terminator ∨ kind = .eof := by
  cases kind <;> decide

theorem TokenKind.ne_eof_of_inner {kind : TokenKind} (h : kind.closes = false) : kind ≠ .eof := by
  rintro rfl
  cases h

theorem Item.isEnd_of_inner {i : Item} (h : i.closes = false) : Lexer.isEnd i = false := by
  cases i with
  | ok t => exact beq_eq_false_iff_ne.mpr (TokenKind.ne_eof_of_inner h)
  | error c => rfl

/-- Where every stray character comes last, the items are tokens and perhaps one of these. -/
theorem items_eq_of_isChain (hinner : ∀ i ∈ items, i.closes = false)
    (hchain : items.IsChain fun a b => a.breaks = true → b.closes = true) :
    items = (items.filterMap Item.token?).map .ok ++
      (items.findSome? Item.stray?).toList.map .error := by
  induction items with
  | nil => rfl
  | cons item items ih =>
    obtain ⟨hhead, hrest⟩ := List.isChain_cons.mp hchain
    have hitems := (List.forall_mem_cons.mp hinner).2
    cases item with
    | ok t => exact congrArg (Except.ok t :: ·) (ih hitems hrest)
    | error c =>
      cases items with
      | nil => rfl
      | cons next items =>
        have hnext := hitems next List.mem_cons_self
        rw [hhead next rfl rfl] at hnext
        cases hnext

namespace Segment

variable {s : Segment}

theorem flatMap_marks_putFront_eq (item : Item) {ss : List Segment} (h : ss ≠ []) :
    (putFront item ss).flatMap marks = item :: ss.flatMap marks := by
  cases ss with
  | nil => exact absurd rfl h
  | cons s ss => rfl

/-- **Cutting loses no item** in front of the end. -/
theorem flatMap_marks_split_eq {front : List Item} (p : Span)
    (h : ∀ i ∈ front, Lexer.isEnd i = false) :
    (split (front ++ [.ok (.closing p)])).flatMap marks = front ++ [.ok (.closing p)] := by
  induction front with
  | nil => rfl
  | cons item front ih =>
    obtain ⟨hitem, hfront⟩ := List.forall_mem_cons.mp h
    have ih := ih hfront
    have hne : split (front ++ [.ok (.closing p)]) ≠ [] := by
      intro hnil
      rw [hnil] at ih
      exact List.append_ne_nil_of_right_ne_nil _ (List.cons_ne_nil _ _) ih.symm
    cases item with
    | error c => rw [List.cons_append, split, flatMap_marks_putFront_eq _ hne, ih]
    | ok t =>
      have hend : t.kind ≠ .eof := beq_eq_false_iff_ne.mp hitem
      rw [List.cons_append, split, if_neg hend]
      split
      · rw [List.flatMap_cons, ih]
        rfl
      · rw [flatMap_marks_putFront_eq _ hne, ih]

theorem closes_putFront {item : Item} {ss : List Segment}
    (h : ∀ s ∈ ss, s.closer.kind.closes = true) :
    ∀ s ∈ putFront item ss, s.closer.kind.closes = true := by
  cases ss with
  | nil => exact h
  | cons s ss => exact List.forall_mem_cons.mpr (List.forall_mem_cons.mp h)

/-- Whatever the items, behind each segment stands a token that ends a statement. -/
theorem closes_of_mem_split (items : List Item) :
    ∀ s ∈ split items, s.closer.kind.closes = true := by
  fun_induction split items with
  | case1 => exact List.forall_mem_nil _
  | case2 t rest hkind ih => exact List.forall_mem_cons.mpr ⟨by rw [hkind]; rfl, ih⟩
  | case3 t rest _ hkind => exact List.forall_mem_singleton.mpr (by rw [hkind]; rfl)
  | case4 t rest _ _ ih => exact closes_putFront ih
  | case5 c rest ih => exact closes_putFront ih

/-- A segment that is dropped gives nothing. -/
theorem flatMap_ofItems {α : Type} (f : Segment → List α) (items : List Item)
    (hf : ∀ s : Segment, s.isTerminated = false → s.isBlank = true → f s = []) :
    (ofItems items).flatMap f = (split items).flatMap f := by
  rw [ofItems]
  induction split items with
  | nil => rfl
  | cons s ss ih =>
    rw [List.filter_cons, List.flatMap_cons]
    split
    · rw [List.flatMap_cons, ih]
    · next hdropped =>
      obtain ⟨hopen, hblank⟩ := Bool.or_eq_false_iff.mp (Bool.eq_false_iff.mpr hdropped)
      rw [ih, hf s hopen (by simpa using hblank), List.nil_append]

/-- What is a statement of a source: no item of it ends a statement, the token behind it
does, and behind a stray character there is no other item. -/
structure Closed (s : Segment) : Prop where
  inner : ∀ i ∈ s.items, i.closes = false
  closer : s.closer.kind.closes = true
  broken : s.items.IsChain fun a b => a.breaks = true → b.closes = true

/-- The tokens of a statement, and the terminator behind it. -/
def terminated (s : Segment) : List Token :=
  s.tokens ++ if s.isTerminated then [s.closer] else []

theorem filterMap_token?_marks (s : Segment) :
    s.marks.filterMap Item.token? = s.tokens ++ [s.closer] := List.filterMap_append

theorem Closed.inner_tokens (h : s.Closed) : ∀ t ∈ s.tokens, t.kind.closes = false :=
  fun _ ht => h.inner _ (mem_items_of_mem_tokens ht)

/-- Without what ends a statement, its tokens are left. -/
theorem Closed.filter_closes (h : s.Closed) :
    (s.marks.filterMap Item.token?).filter (fun t => !t.kind.closes) = s.tokens := by
  have htokens : s.tokens.filter (fun t => !t.kind.closes) = s.tokens :=
    List.filter_eq_self.mpr fun t ht => by rw [h.inner_tokens t ht]; rfl
  have hcloser : [s.closer].filter (fun t => !t.kind.closes) = [] :=
    List.filter_cons_of_neg (by rw [h.closer]; exact Bool.false_ne_true)
  rw [filterMap_token?_marks, List.filter_append, htokens, hcloser, List.append_nil]

/-- Without the end of the text, a terminator is left besides. -/
theorem Closed.filter_end (h : s.Closed) :
    (s.marks.filterMap Item.token?).filter (fun t => t.kind != .eof) = s.terminated := by
  have htokens : s.tokens.filter (fun t => t.kind != .eof) = s.tokens := by
    refine List.filter_eq_self.mpr fun t ht => bne_iff_ne.mpr ?_
    exact TokenKind.ne_eof_of_inner (h.inner_tokens t ht)
  have hcloser : [s.closer].filter (fun t => t.kind != .eof) =
      if s.isTerminated then [s.closer] else [] := by
    rw [List.filter_singleton, isTerminated]
    rcases TokenKind.closes_iff.mp h.closer with hkind | hkind
    · rw [hkind]
      rfl
    · rw [hkind]
      rfl
  rw [filterMap_token?_marks, List.filter_append, htokens, hcloser]
  rfl

/-- A statement is its tokens, and a stray character behind them if there is one. -/
theorem Closed.items_eq (h : s.Closed) :
    s.items = s.tokens.map .ok ++ s.stray?.toList.map .error :=
  items_eq_of_isChain h.inner h.broken

/-- A statement has one stray character at most. -/
theorem Closed.filterMap_stray? (h : s.Closed) :
    s.marks.filterMap Item.stray? = s.stray?.toList := by
  have htokens : (s.tokens.map (.ok : Token → Item)).filterMap Item.stray? = [] := by
    simp [Item.stray?]
  have hstray : (s.stray?.toList.map (.error : Stray → Item)).filterMap Item.stray? =
      s.stray?.toList := by
    cases s.stray? <;> rfl
  rw [marks, List.filterMap_append, h.items_eq, List.filterMap_append, htokens, hstray]
  exact List.append_nil _

end Segment

/-! ## The tokenizer -/

/-- What is collected by asking a lexer for its items: all tokens, or the first stray
character. -/
inductive Lexer.Collects : Lexer → Except Stray (List Token) → Prop where
  | nothing {lx behind : Lexer} (h : lx.next? = (none, behind)) : Collects lx (.ok [])
  | stray {lx behind : Lexer} {s : Stray} (h : lx.next? = (some (.error s), behind)) :
    Collects lx (.error s)
  | token {lx behind : Lexer} {t : Token} {answer : Except Stray (List Token)}
    (h : lx.next? = (some (.ok t), behind)) (rest : Collects behind answer) :
    Collects lx (answer.map (t :: ·))

theorem Item.tokens?_eq (items : List Item) :
    Item.tokens? items = match items.findSome? Item.stray? with
      | some s => .error s
      | none => .ok (items.filterMap Item.token?) := by
  induction items with
  | nil => rfl
  | cons item items ih =>
    cases item with
    | error s => rfl
    | ok t =>
      rw [Item.tokens?, ih]
      show _ = match items.findSome? Item.stray? with
        | some s => _
        | none => _
      cases items.findSome? Item.stray? with
      | none => rfl
      | some s => rfl

namespace Lexer

variable {lx : Lexer}

theorem Collects.unique {answer other : Except Stray (List Token)} (h : lx.Collects answer)
    (ho : lx.Collects other) : answer = other := by
  induction h generalizing other with
  | nothing h =>
    cases ho with
    | nothing => rfl
    | stray ho => rw [h] at ho; cases ho
    | token ho _ => rw [h] at ho; cases ho
  | stray h =>
    cases ho with
    | nothing ho => rw [h] at ho; cases ho
    | stray ho => rw [h] at ho; cases ho; rfl
    | token ho _ => rw [h] at ho; cases ho
  | token h _ ih =>
    cases ho with
    | nothing ho => rw [h] at ho; cases ho
    | stray ho => rw [h] at ho; cases ho
    | token ho rest =>
      rw [h] at ho
      cases ho
      rw [ih rest]

/-- Up to the first stray character, collecting and delivering ask for the same items. -/
theorem Delivers.collects (h : lx.Delivers items) : lx.Collects (Item.tokens? items) := by
  induction h with
  | nothing h => exact .nothing h
  | token h _ ih => exact .token h ih
  | stray h _ => exact .stray h

/-- Up to the first stray character, skipping makes no difference. -/
theorem tokens?_items (lx : Lexer) :
    Item.tokens? (lx.items false) = Item.tokens? (lx.items true) := by
  fun_induction items false lx with
  | case1 lx t behind hread on ih =>
    rw [items_of_progresses hread on, Item.tokens?, Item.tokens?, ih]
  | case2 lx t behind hread off => rw [items_of_not_progresses hread off]
  | case3 lx s behind hread ih => rw [items_of_read_error hread, Item.tokens?, Item.tokens?]

end Lexer

/-! ## A source -/

theorem length_eq_of_kinds (ts : List Token) :
    ts.length = (ts.filter fun t => !t.kind.closes).length + ts.countP (·.kind == .terminator) +
      ts.countP (·.kind == .eof) := by
  rw [← List.countP_eq_length_filter]
  induction ts with
  | nil => rfl
  | cons t ts ih =>
    have hone : 1 = (if (!t.kind.closes) = true then 1 else 0) +
        (if (t.kind == .terminator) = true then 1 else 0) +
        (if (t.kind == .eof) = true then 1 else 0) := by
      cases t.kind <;> rfl
    rw [List.length_cons, List.countP_cons, List.countP_cons, List.countP_cons]
    omega

section Source

variable {source : String} {g : Grammar}

/-- A source is listed up to its end. -/
theorem complete_scan (source : String) (hg : g.NoEmptyWord) :
    Segmenter.Complete (scan source g) := by
  obtain ⟨front, p, hlast, _⟩ := (tiles_scan source hg).last_eq
  exact ⟨p, by rw [hlast, List.getLast?_concat]⟩

theorem tokenize_eq (source : String) (g : Grammar) :
    tokenize source g = Item.tokens? (scan source g) := Lexer.tokens?_items _

/-- Only the last item of a source is the end. -/
theorem scan_eq (source : String) (hg : g.NoEmptyWord) :
    ∃ front p, scan source g = front ++ [.ok (.closing p)] ∧
      ∀ i ∈ front, Lexer.isEnd i = false :=
  (Lexer.delivers_items hg (.ofSource source g) rfl rfl).end_last (complete_scan source hg)

theorem flatMap_marks_scan (source : String) (hg : g.NoEmptyWord) :
    (Segment.split (scan source g)).flatMap Segment.marks = scan source g := by
  obtain ⟨front, p, hlast, hfront⟩ := scan_eq source hg
  rw [hlast]
  exact Segment.flatMap_marks_split_eq p hfront

theorem closed_of_mem_split (hg : g.NoEmptyWord) {s : Segment}
    (hs : s ∈ Segment.split (scan source g)) : s.Closed := by
  have hpart : s.items <:+: scan source g := by
    obtain ⟨before, after, hsplit⟩ := List.append_of_mem hs
    rw [← flatMap_marks_scan source hg, hsplit, List.flatMap_append, List.flatMap_cons]
    refine ⟨before.flatMap Segment.marks, .ok s.closer :: after.flatMap Segment.marks, ?_⟩
    simp only [Segment.marks, List.append_assoc, List.singleton_append]
  exact ⟨Segment.inner_of_mem_split _ s hs, Segment.closes_of_mem_split _ s hs,
    List.IsChain.infix (tiles_scan source hg).isChain.2 hpart⟩

/-- What is picked from the items of a source is picked from its segments, one by one. -/
theorem flatMap_segments {α : Type} (hg : g.NoEmptyWord) (pick : Item → Option α)
    {read : Segment → List α} (hread : ∀ s : Segment, s.Closed → s.marks.filterMap pick = read s)
    (hblank : ∀ s : Segment, s.isTerminated = false → s.isBlank = true → read s = []) :
    (segments source g).flatMap read = (scan source g).filterMap pick := by
  have hpointwise : (Segment.split (scan source g)).flatMap read =
      (Segment.split (scan source g)).flatMap fun s => s.marks.filterMap pick :=
    List.flatMap_congr fun s hs => (hread s (closed_of_mem_split hg hs)).symm
  rw [segments, Segment.flatMap_ofItems read _ hblank, hpointwise, ← List.filterMap_flatMap,
    flatMap_marks_scan source hg]

theorem Segment.tokens_of_isBlank {s : Segment} (h : s.isBlank = true) : s.tokens = [] := by
  rw [tokens, List.isEmpty_iff.mp h]
  rfl

theorem flatMap_tokens_segments (source : String) (hg : g.NoEmptyWord) :
    (segments source g).flatMap Segment.tokens =
      ((scan source g).filterMap Item.token?).filter fun t => !t.kind.closes := by
  rw [List.filter_filterMap]
  refine flatMap_segments hg _ (fun s hs => ?_) fun s _ hblank => s.tokens_of_isBlank hblank
  rw [← List.filter_filterMap]
  exact hs.filter_closes

theorem flatMap_terminated_segments (source : String) (hg : g.NoEmptyWord) :
    (segments source g).flatMap Segment.terminated =
      ((scan source g).filterMap Item.token?).filter fun t => t.kind != .eof := by
  rw [List.filter_filterMap]
  refine flatMap_segments hg _ (fun s hs => ?_) fun s hopen hblank => ?_
  · rw [← List.filter_filterMap]
    exact hs.filter_end
  · rw [Segment.terminated, s.tokens_of_isBlank hblank, hopen]
    rfl

theorem Segment.stray?_of_isBlank {s : Segment} (h : s.isBlank = true) : s.stray? = none := by
  rw [stray?, List.isEmpty_iff.mp h]
  rfl

theorem filterMap_stray?_segments (source : String) (hg : g.NoEmptyWord) :
    (segments source g).filterMap Segment.stray? = (scan source g).filterMap Item.stray? := by
  rw [List.filterMap_eq_flatMap_toList]
  refine flatMap_segments hg _ (fun s hs => hs.filterMap_stray?) fun s _ hblank => ?_
  rw [s.stray?_of_isBlank hblank]
  rfl

/-- The end of the text is the last token, and the only one of its kind. -/
theorem filterMap_token?_scan (hg : g.NoEmptyWord) {front : List Item} {p : Span}
    (hscan : scan source g = front ++ [.ok (.closing p)])
    (hfront : ∀ i ∈ front, Lexer.isEnd i = false) :
    (scan source g).filterMap Item.token? =
      (segments source g).flatMap Segment.terminated ++ [.closing p] := by
  have hkept : (front.filterMap Item.token?).filter (fun t => t.kind != .eof) =
      front.filterMap Item.token? := by
    refine List.filter_eq_self.mpr fun t ht => ?_
    obtain ⟨i, hi, hit⟩ := List.mem_filterMap.mp ht
    have hinner := hfront i hi
    cases i with
    | error c => cases hit
    | ok u =>
      cases hit
      rw [bne, show (t.kind == .eof) = false from hinner]
      rfl
  rw [flatMap_terminated_segments source hg, hscan, List.filterMap_append, List.filter_append,
    hkept, List.append_assoc]
  rfl

theorem countP_end_scan (source : String) (hg : g.NoEmptyWord) :
    ((scan source g).filterMap Item.token?).countP (·.kind == .eof) = 1 := by
  obtain ⟨front, p, hscan, hfront⟩ := scan_eq source hg
  have hnone : ((segments source g).flatMap Segment.terminated).countP (·.kind == .eof) = 0 := by
    rw [flatMap_terminated_segments source hg, List.countP_eq_zero]
    intro t ht
    have hkind := (List.mem_filter.mp ht).2
    exact fun hend => bne_iff_ne.mp hkind (beq_iff_eq.mp hend)
  rw [filterMap_token?_scan hg hscan hfront, List.countP_append, hnone]
  rfl

/-- The tokens of a source: those of its segments, the terminators, and the end. -/
theorem countP_isToken_scan (source : String) (hg : g.NoEmptyWord) :
    (scan source g).countP Item.isToken =
      ((segments source g).flatMap Segment.tokens).length +
        ((scan source g).filterMap Item.token?).countP (·.kind == .terminator) + 1 := by
  have hcount : (scan source g).countP Item.isToken =
      ((scan source g).filterMap Item.token?).length := by
    rw [List.length_filterMap_eq_countP]
    exact List.countP_congr fun i _ => by cases i <;> exact Iff.rfl
  rw [hcount, length_eq_of_kinds, ← flatMap_tokens_segments source hg, countP_end_scan source hg]

end Source

/-! ## The listing -/

/-- The line of a token: its place, its kind and its quoted text. -/
def Token.listLine (t : Token) : String :=
  s!"{t.span.line}:{t.span.column + 1} {t.kind.name} {quoted t.lexeme}"

/-- The line of a stray character: the place and the text of the message about it. -/
def Stray.listLine (c : Stray) : String :=
  s!"{c.report.span.line}:{c.report.span.column + 1} error: {c.report.message}"

/-- The line of the total. -/
def totalLine (total : Nat) : String := s!"Total Tokens = {total}"

namespace Segment

/-- The lines of a statement: its tokens, its stray character, and its terminator. -/
def listLines (s : Segment) : List String :=
  s.tokens.map Token.listLine ++ s.stray?.toList.map Stray.listLine ++
    if s.isTerminated then [s.closer.listLine] else []

/-- The text of a listing: the lines of the segments, then that of the end and that of the
total, each of them with a line feed behind it. -/
def listText (ss : List Segment) (p : Span) (total : Nat) : String :=
  String.join
    ((ss.flatMap listLines ++ [(Token.closing p).listLine, totalLine total]).map (· ++ "\n"))

end Segment

theorem Item.listed_ok (t : Token) : Item.listed (.ok t) = t.listLine := rfl

theorem Item.listed_error (c : Stray) : Item.listed (.error c) = c.listLine := by
  rw [Stray.listLine, c.span_report]
  rfl

/-- The line of an item, unless it is the end. -/
def Item.innerLine? (i : Item) : Option String := if Lexer.isEnd i then none else some i.listed

theorem filterMap_innerLine? (h : ∀ i ∈ items, Lexer.isEnd i = false) :
    items.filterMap Item.innerLine? = items.map Item.listed := by
  rw [← List.filterMap_eq_map]
  refine List.filterMap_congr fun i hi => ?_
  rw [Item.innerLine?, h i hi]
  rfl

/-- What a listing has of a statement. -/
theorem Segment.Closed.filterMap_innerLine? {s : Segment} (h : s.Closed) :
    s.marks.filterMap Item.innerLine? = s.listLines := by
  have hinner : ∀ i ∈ s.items, Lexer.isEnd i = false :=
    fun i hi => Item.isEnd_of_inner (h.inner i hi)
  have hitems : s.items.map Item.listed =
      s.tokens.map Token.listLine ++ s.stray?.toList.map Stray.listLine := by
    rw [h.items_eq, List.map_append, List.map_map, List.map_map]
    refine congrArg (s.tokens.map Token.listLine ++ ·) ?_
    exact List.map_congr_left fun c _ => Item.listed_error c
  have hcloser : [.ok s.closer].filterMap Item.innerLine? =
      if s.isTerminated then [s.closer.listLine] else [] := by
    rw [isTerminated]
    rcases TokenKind.closes_iff.mp h.closer with hkind | hkind
    · simp [Item.innerLine?, Lexer.isEnd, hkind, Item.listed_ok]
    · simp [Item.innerLine?, Lexer.isEnd, hkind]
  rw [marks, List.filterMap_append, CalcSyntax.filterMap_innerLine? hinner, hitems, hcloser]
  rfl

theorem flatMap_listLines_segments (source : String) {g : Grammar} (hg : g.NoEmptyWord) :
    (segments source g).flatMap Segment.listLines =
      (scan source g).filterMap Item.innerLine? := by
  refine flatMap_segments hg _ (fun s hs => hs.filterMap_innerLine?) fun s hopen hblank => ?_
  rw [Segment.listLines, s.tokens_of_isBlank hblank, s.stray?_of_isBlank hblank, hopen]
  rfl

/-- **The listing of a source**, statement by statement. -/
theorem listing_eq {source : String} {g : Grammar} (hg : g.NoEmptyWord) {front : List Item}
    {p : Span} (hscan : scan source g = front ++ [.ok (.closing p)])
    (hfront : ∀ i ∈ front, Lexer.isEnd i = false) :
    listing source g =
      Segment.listText (segments source g) p ((scan source g).countP Item.isToken) := by
  have hlines : (segments source g).flatMap Segment.listLines = front.map Item.listed := by
    rw [flatMap_listLines_segments source hg, hscan, List.filterMap_append,
      filterMap_innerLine? hfront]
    exact List.append_nil _
  have hmap : (scan source g).map Item.listed =
      front.map Item.listed ++ [(Token.closing p).listLine] := by
    rw [hscan, List.map_append]
    rfl
  rw [Segment.listText, hlines, listing, listingLines, hmap, List.append_assoc]
  rfl

/-- What three readers make of a source, where `p` is the end of the text: the text of the
listing and the items that are listed, the segments, and the tokens or the stray character
that a tokenizer answers. -/
structure Concord (text : String) (items : List Item) (p : Span) (ss : List Segment)
    (answer : Except Stray (List Token)) : Prop where
  /-- The end of the text is the last item. -/
  finish : items.getLast? = some (.ok (.closing p))
  /-- The segments have the tokens that are listed, but for terminators and the end. -/
  tokens : ss.flatMap Segment.tokens =
    (items.filterMap Item.token?).filter fun t => !t.kind.closes
  /-- The segments that have a stray character are those that are listed as errors. -/
  strays : ss.filterMap Segment.stray? = items.filterMap Item.stray?
  total : items.countP Item.isToken = (ss.flatMap Segment.tokens).length +
    (items.filterMap Item.token?).countP (·.kind == .terminator) + 1
  /-- The listing has the lines of the segments and that of the end, and says the total. -/
  listed : text = Segment.listText ss p ((ss.flatMap Segment.tokens).length +
    (items.filterMap Item.token?).countP (·.kind == .terminator) + 1)
  accepts : (∃ ts, answer = .ok ts) ↔ ∀ s ∈ ss, s.stray? = none
  ok : ∀ ts, answer = .ok ts → ts = ss.flatMap Segment.terminated ++ [.closing p]
  error : ∀ c, answer = .error c → ss.findSome? Segment.stray? = some c

theorem concord_scan (source : String) {g : Grammar} (hg : g.NoEmptyWord) :
    ∃ p, Concord (listing source g) (scan source g) p (segments source g) (tokenize source g) := by
  obtain ⟨front, p, hscan, hfront⟩ := scan_eq source hg
  have hall := filterMap_token?_scan hg hscan hfront
  have hstrays := filterMap_stray?_segments source hg
  have hfirst : (scan source g).findSome? Item.stray? =
      (segments source g).findSome? Segment.stray? := by
    rw [← List.head?_filterMap, ← hstrays, List.head?_filterMap]
  have hanswer := (tokenize_eq source g).trans (Item.tokens?_eq _)
  rw [hfirst] at hanswer
  refine ⟨p, ?_⟩
  constructor
  case finish => rw [hscan, List.getLast?_concat]
  case tokens => exact flatMap_tokens_segments source hg
  case strays => exact hstrays
  case total => exact countP_isToken_scan source hg
  case listed =>
    rw [← countP_isToken_scan source hg]
    exact listing_eq hg hscan hfront
  case accepts =>
    rw [← List.findSome?_eq_none_iff, hanswer]
    cases (segments source g).findSome? Segment.stray? with
    | none => exact iff_of_true ⟨_, rfl⟩ rfl
    | some c => exact iff_of_false nofun nofun
  case ok =>
    intro ts hts
    rw [← hall]
    rw [hanswer] at hts
    cases hnone : (segments source g).findSome? Segment.stray? with
    | none =>
      rw [hnone] at hts
      exact (Except.ok.inj hts).symm
    | some c =>
      rw [hnone] at hts
      cases hts
  case error =>
    intro c hc
    rw [hanswer] at hc
    cases hsome : (segments source g).findSome? Segment.stray? with
    | none =>
      rw [hsome] at hc
      cases hc
    | some d =>
      rw [hsome] at hc
      exact congrArg some (Except.error.inj hc)

/-- **The listing, the segments and the tokens of a source agree.** Where no spelling is empty,
a lexer delivers the items that are listed, a segmenter yields the segments, and collecting
comes to the answer of the tokenizer. What the three have in common is `Concord`. -/
theorem readers_agree (source : String) (g : Grammar) (hg : g.NoEmptyWord) :
    (∀ l, (Lexer.ofSource source g).Delivers l ↔ l = scan source g) ∧
      (∀ l, (Segmenter.mk (.ofSource source g) false).Yields l ↔ l = segments source g) ∧
      (∀ a, (Lexer.ofSource source g).Collects a ↔ a = tokenize source g) ∧
      ∃ p, Concord (listing source g) (scan source g) p (segments source g)
        (tokenize source g) := by
  have hdelivers := Lexer.delivers_items hg (.ofSource source g) rfl rfl
  have hcollects := hdelivers.collects
  refine ⟨fun l => ?_, Segmenter.yields_iff source hg, fun a => ?_, concord_scan source hg⟩
  · exact ⟨fun h => h.unique hdelivers, fun h => h ▸ hdelivers⟩
  · rw [tokenize_eq]
    exact ⟨fun h => h.unique hcollects, fun h => h ▸ hcollects⟩

/-- Two broken statements and a blank one, with blanks at the end: three stray characters
stand in two of the statements, and two of them are listed. -/
theorem readers_agree_broken :
    Grammar.calculator.NoEmptyWord ∧
      (∃ p, Concord (listing "1 $ #:θ\n:$ 2: " .calculator) (scan "1 $ #:θ\n:$ 2: " .calculator) p
        (segments "1 $ #:θ\n:$ 2: " .calculator) (tokenize "1 $ #:θ\n:$ 2: " .calculator)) ∧
      listing "1 $ #:θ\n:$ 2: " .calculator =
        "1:1 Integer \"1\"\n" ++ "1:3 error: unrecognized character '$'\n" ++
        "1:6 Terminator \":\"\n" ++ "1:7 Variable \"θ\"\n" ++
        "1:8 Terminator \"\\n\"\n" ++ "2:1 Terminator \":\"\n" ++
        "2:2 error: unrecognized character '$'\n" ++ "2:5 Terminator \":\"\n" ++
        "2:7 Eof \"\"\n" ++ "Total Tokens = 7\n" ∧
      (segments "1 $ #:θ\n:$ 2: " .calculator).map
          (fun s => (s.terminated.map Token.lexeme, s.stray?.map Stray.char)) =
        [(["1", ":"], some '$'), (["θ", "\n"], none), ([":"], none), ([":"], some '$')] := by
  have hg : Grammar.calculator.NoEmptyWord := by decide +kernel
  obtain ⟨_, _, _, hconcord⟩ := readers_agree "1 $ #:θ\n:$ 2: " .calculator hg
  refine ⟨hg, hconcord, ?_, ?_⟩
  · decide +kernel
  · decide +kernel

end CalcSyntax
