import CalcSyntax.Proofs.Segment.Relocation
import CalcSyntax.Proofs.Token.Place
import Mathlib.Data.List.Forall2

/-!
# Piece — a text cut at its terminators

`pieces` cuts a text at every line feed, at every colon and at every
carriage return with its line feed. It is a recursion on the characters
alone and knows nothing of tokens. A piece keeps what stands in front of
it, which says how far it is from the beginning of the text
(`Piece.distance`). What follows the last terminator is a piece only if
it holds something besides blanks.

## What is proved

`segments_pieces` — the segments of a text correspond to its pieces, one
to one and in order. The items of each segment are those that a lexer
reads of the piece alone, moved by the piece's distance.
-/

set_option autoImplicit false

namespace CalcSyntax

/-- A stretch of a text between two terminators. -/
structure Piece where
  /-- Everything in front of it. -/
  before : List Char
  text : List Char
deriving DecidableEq

namespace Piece

/-- The piece as a text of its own. -/
def source (p : Piece) : String := String.ofList p.text

/-- Whether it holds nothing but blanks. -/
def isBlank (p : Piece) : Bool := p.text.all CalcSyntax.isBlank

/-- How far it is from the beginning of the text. -/
def distance (p : Piece) : Distance := .after p.before

/-- The place where it ends. -/
def stop (p : Piece) : Span :=
  (Span.point (byteLength p.text) 1 p.text.length).shift p.distance

end Piece

/-- The pieces of a text. Of the next one `text` has been met already, behind
`before`. -/
def piecesFrom (before text : List Char) : List Char → List Piece
  | [] => if text.all isBlank then [] else [⟨before, text⟩]
  | '\r' :: '\n' :: cs => ⟨before, text⟩ :: piecesFrom (before ++ text ++ ['\r', '\n']) [] cs
  | c :: cs =>
    if c = '\n' ∨ c = ':' then ⟨before, text⟩ :: piecesFrom (before ++ text ++ [c]) [] cs
    else piecesFrom before (text ++ [c]) cs

/-- The pieces of a source. -/
def pieces (source : String) : List Piece := piecesFrom [] [] source.toList

/-! ## Cutting off the first piece -/

theorem exists_terminator {cs : List Char} (h : (terminator? cs).isSome) :
    ∃ t ∈ terminators, ∃ rest, cs = t ++ rest := by
  revert h
  fun_cases terminator? cs with
  | case1 rest => exact fun _ => ⟨['\n'], by decide, rest, rfl⟩
  | case2 rest => exact fun _ => ⟨[':'], by decide, rest, rfl⟩
  | case3 rest => exact fun _ => ⟨['\r', '\n'], by decide, rest, rfl⟩
  | case4 =>
    intro h
    cases h

theorem terminator?_append {t : List Char} (ht : t ∈ terminators) (rest : List Char) :
    terminator? (t ++ rest) = some t := by
  rcases eq_of_mem_terminators ht with rfl | rfl | rfl <;> rfl

theorem isBreak_of_terminator {t : List Char} (ht : t ∈ terminators) (rest : List Char) :
    ∀ c ∈ (t ++ rest).head?, isBreak c = true := by
  intro c hc
  rcases eq_of_mem_terminators ht with rfl | rfl | rfl <;>
    exact (Option.some.inj hc) ▸ by decide

/-- A text begins with a stretch without terminators, and goes on with a
terminator or not at all. -/
theorem exists_stretch (rest : List Char) : ∃ p r, rest = p ++ r ∧ Seals p r ∧
    (r = [] ∨ ∃ t ∈ terminators, ∃ rest', r = t ++ rest') := by
  fun_induction untilTerminator rest with
  | case1 =>
    refine ⟨[], [], rfl, seals_nil ?_, .inl rfl⟩
    intro c hc
    exact absurd hc (Option.not_mem_none c)
  | case2 c cs h =>
    obtain ⟨t, ht, rest', he⟩ := exists_terminator h
    refine ⟨[], c :: cs, rfl, seals_nil ?_, .inr ⟨t, ht, rest', he⟩⟩
    rw [he]
    exact isBreak_of_terminator ht rest'
  | case3 c cs h ih =>
    obtain ⟨p, r, rfl, hs, hr⟩ := ih
    have hc : c ≠ '\n' ∧ c ≠ ':' := by
      constructor <;> rintro rfl <;> exact h rfl
    refine ⟨c :: p, r, rfl, ⟨List.forall_mem_cons.mpr ⟨hc, hs.clear⟩, ?_, hs.breaks⟩, hr⟩
    intro hl hn
    -- a last carriage return right before a line feed would be a terminator
    cases p with
    | cons d p => exact hs.apart (by rwa [List.getLast?_cons_cons] at hl) hn
    | nil =>
      obtain ⟨cs, rfl⟩ := List.head?_eq_some_iff.mp hn
      cases hl
      exact h rfl

theorem piecesFrom_append {p r : List Char} (h : Seals p r) (before text : List Char) :
    piecesFrom before text (p ++ r) = piecesFrom before (text ++ p) r := by
  induction p generalizing text with
  | nil => rw [List.nil_append, List.append_nil]
  | cons c p ih =>
    obtain ⟨hn, hc⟩ := h.clear c List.mem_cons_self
    rw [List.cons_append, piecesFrom.eq_3, if_neg (not_or.mpr ⟨hn, hc⟩),
      ih (h.suffix (List.suffix_cons c p)), List.append_assoc, List.singleton_append]
    rintro cs rfl hnext
    cases p with
    | nil =>
      rw [List.nil_append] at hnext
      exact h.apart rfl (by rw [hnext]; rfl)
    | cons d p =>
      exact (h.clear d (List.mem_cons_of_mem _ List.mem_cons_self)).1 (List.cons.inj hnext).1

theorem piecesFrom_break {c : Char} (hc : c = '\n' ∨ c = ':') (before text rest : List Char) :
    piecesFrom before text (c :: rest) =
      ⟨before, text⟩ :: piecesFrom (before ++ text ++ [c]) [] rest := by
  rcases hc with rfl | rfl <;> rfl

theorem piecesFrom_terminator {t : List Char} (ht : t ∈ terminators)
    (before text rest : List Char) :
    piecesFrom before text (t ++ rest) =
      ⟨before, text⟩ :: piecesFrom (before ++ text ++ t) [] rest := by
  rcases eq_of_mem_terminators ht with rfl | rfl | rfl <;> rfl

/-! ## The segment of a piece -/

namespace Segment

theorem split_append {body tail : List Item} {s : Segment} {ss : List Segment}
    (hb : ∀ i ∈ body, i.closes = false) (h : split tail = s :: ss) :
    split (body ++ tail) = { s with items := body ++ s.items } :: ss := by
  induction body with
  | nil => exact h
  | cons i body ih =>
    have ih := ih fun j hj => hb j (List.mem_cons_of_mem _ hj)
    cases i with
    | error c => rw [List.cons_append, split, ih, putFront, List.cons_append]
    | ok t =>
      have ht : t.kind.closes = false := hb _ List.mem_cons_self
      have hterminator : t.kind ≠ .terminator := by
        intro hk
        rw [hk] at ht
        cases ht
      have heof : t.kind ≠ .eof := by
        intro hk
        rw [hk] at ht
        cases ht
      rw [List.cons_append, split, if_neg hterminator, if_neg heof, ih, putFront, List.cons_append]

theorem split_terminator {body rest : List Item} {t : Token}
    (hb : ∀ i ∈ body, i.closes = false) (ht : t.kind = .terminator) :
    split (body ++ .ok t :: rest) = ⟨body, t⟩ :: split rest := by
  have h : split (.ok t :: rest) = ⟨[], t⟩ :: split rest := by rw [split, if_pos ht]
  rw [split_append hb h, List.append_nil]

theorem split_end {body : List Item} {t : Token} (hb : ∀ i ∈ body, i.closes = false)
    (ht : t.kind = .eof) : split (body ++ [.ok t]) = [⟨body, t⟩] := by
  have h : split [.ok t] = [⟨[], t⟩] := by
    rw [split, if_neg (by rw [ht]; decide), if_pos ht]
  rw [split_append hb h, List.append_nil]

end Segment

/-- What a lexer reads does not depend on the text it would start over with. -/
theorem Lexer.items_text (resync : Bool) (lx : Lexer) (text : List Char) :
    ({ lx with text := text } : Lexer).items resync = lx.items resync := by
  have hread (lx : Lexer) : ({ lx with text := text } : Lexer).read =
      (lx.read.1, { lx.read.2 with text := text }) := by
    let start := lx.cursor.pass (leadingBlanks lx.cursor.rest)
    cases h : lx.lexicon.read lx.awaitsLabel start.rest <;> simp only [read, start, h]
  fun_induction items resync lx with
  | case1 lx t behind h on ih =>
    rw [← ih, items]
    split
    · next heq =>
      rw [hread, h] at heq
      cases heq
      exact dif_pos on
    · next heq => rw [hread, h] at heq; cases heq
  | case2 lx t behind h off =>
    rw [items]
    split
    · next heq =>
      rw [hread, h] at heq
      cases heq
      exact dif_neg off
    · next heq => rw [hread, h] at heq; cases heq
  | case3 lx s behind h ih =>
    rw [items]
    split
    · next heq => rw [hread, h] at heq; cases heq
    · next heq =>
      rw [hread, h] at heq
      cases heq
      cases resync <;> exact congrArg (Except.error s :: ·) ih

namespace Piece

variable {g : Grammar}

/-- The lexer that reads the piece alone. -/
def lexer (g : Grammar) (p : Piece) : Lexer := .ofText p.text g.lexicon

theorem finish_lexer (p : Piece) : (p.lexer g).finish =
    ⟨p.text, g.lexicon, ⟨[], byteLength p.text, 1, p.text.length⟩, false, false⟩ := by
  have hrest : p.text.drop p.text.length = [] := List.drop_length
  show Lexer.mk _ _ ⟨p.text.drop p.text.length, 0 + _, 1, 0 + _⟩ false false = _
  rw [hrest, Nat.zero_add, Nat.zero_add]
  rfl

theorem stop_lexer (p : Piece) :
    (p.lexer g).stop = Span.point (byteLength p.text) 1 p.text.length :=
  congrArg (fun l : Lexer => l.cursor.spanOf []) (finish_lexer p)

/-- The piece without the blanks it begins with. -/
def body (p : Piece) : List Char := p.text.drop (leadingBlanks p.text).length

/-- `own` is the segment of the piece alone, and `s` is what becomes of it in
the text it was cut from. -/
structure Becomes (g : Grammar) (text : List Char) (p : Piece) (own s : Segment) : Prop where
  clear : ∀ c ∈ p.text, c ≠ '\n' ∧ c ≠ ':'
  alone : Segment.split (scan p.source g) = [own]
  untouched : own.isTerminated = false
  blank : own.isBlank = p.isBlank
  stop : own.stop = Span.point (byteLength p.text) 1 p.text.length
  moved : Segment.Moved (Span.shift p.distance) own s
  rawAlone : own.rawText p.text = String.ofList (trimEnd p.body)
  raw : s.rawText text = String.ofList (trimEnd p.body)

/-- The segment of a piece begins behind the blanks and ends with the piece. -/
theorem span_alone {p : Piece} {r : List Char} {items : List Item} {own : Segment}
    (h : (p.lexer g).ReadsAs p.distance r items) (hitems : own.items = items)
    (hstop : own.stop = (p.lexer g).stop) :
    own.span.start = byteLength (leadingBlanks p.text) ∧ own.span.stop = byteLength p.text := by
  rw [stop_lexer] at hstop
  cases items with
  | nil =>
    have hblank : leadingBlanks p.text = p.text := leadingBlanks_of_blank (h.nil_iff.mp rfl)
    rw [hblank, Segment.span, hitems, hstop]
    exact ⟨rfl, rfl⟩
  | cons first items =>
    have hstart : first.span.start = byteLength (leadingBlanks p.text) := by
      have := h.start first rfl
      rwa [show (p.lexer g).cursor.offset = 0 from rfl, Nat.zero_add] at this
    have hle : first.span.stop ≤ byteLength p.text := by
      have := h.stop_le first rfl
      rwa [show (p.lexer g).cursor.offset = 0 from rfl, Nat.zero_add] at this
    have hfirst : first.span.start ≤ own.stop.start := by
      rw [hstart, hstop]
      exact byteLength_le_of_isPrefix (leadingBlanks_isPrefixOf p.text)
    rw [Segment.span, hitems]
    show (first.span.join own.stop).start = _ ∧ (first.span.join own.stop).stop = _
    rw [Span.join, if_pos hfirst, hstop]
    exact ⟨hstart, Nat.max_eq_right hle⟩

theorem split_scan_of_readsAs {p : Piece} {d : Distance} {r : List Char} {items : List Item}
    (h : (p.lexer g).ReadsAs d r items) :
    Segment.split (scan p.source g) = [⟨items, .closing (p.lexer g).stop⟩] := by
  have hscan : scan p.source g = items ++ [.ok (.closing (p.lexer g).stop)] := by
    rw [← h.alone, scan, Lexer.ofSource, source, String.toList_ofList, lexer]
  rw [hscan, Segment.split_end h.inner rfl]

/-- A segment that is read off a piece becomes its segment in a text. -/
theorem becomes_of_readsAs {p : Piece} {r after : List Char} {items : List Item} {closer : Token}
    (h : (p.lexer g).ReadsAs p.distance r items) (hs : Seals p.text r)
    (hc : closer.span.front = p.stop) :
    p.Becomes g (p.before ++ p.text ++ after) ⟨items, .closing (p.lexer g).stop⟩
      ⟨items.map (Item.relocate (Span.shift p.distance)), closer⟩ := by
  have hstop : (Segment.mk items (.closing (p.lexer g).stop)).stop = (p.lexer g).stop := by
    rw [stop_lexer]
    rfl
  have hmoved : Segment.Moved (Span.shift p.distance) ⟨items, .closing (p.lexer g).stop⟩
      ⟨items.map (Item.relocate (Span.shift p.distance)), closer⟩ :=
    ⟨rfl, by rw [hstop, stop_lexer]; exact hc⟩
  -- both spans cut out the piece behind its blanks
  obtain ⟨hstart, hend⟩ := span_alone h rfl hstop
  have htext : leadingBlanks p.text ++ p.body = p.text :=
    List.prefix_iff_eq_append.mp (leadingBlanks_isPrefixOf p.text)
  have hlen : byteLength p.text = byteLength (leadingBlanks p.text) + byteLength p.body := by
    rw [← byteLength_append, htext]
  have hown := slice?_append (leadingBlanks p.text) p.body []
  have hin := slice?_append (p.before ++ leadingBlanks p.text) p.body after
  rw [List.append_nil, htext, ← hlen] at hown
  rw [byteLength_append, List.append_assoc p.before, htext, Nat.add_assoc, ← hlen] at hin
  refine ⟨hs.clear, split_scan_of_readsAs h, rfl, ?_, hstop.trans (stop_lexer p),
    hmoved, ?_, ?_⟩
  · rw [Bool.eq_iff_iff]
    simp only [Segment.isBlank, isBlank, List.isEmpty_iff, List.all_eq_true]
    exact h.nil_iff
  · rw [Segment.rawText, Span.slice?, hstart, hend, hown]
    rfl
  · rw [Segment.rawText, Segment.span_moved hmoved, Span.slice?, Span.shift, hstart, hend]
    exact congrArg (fun o : Option (List Char) => String.ofList (trimEnd (o.getD []))) hin

end Piece

/-- The place behind a piece is on the line of the piece. -/
theorem Piece.after_text {p : Piece} {r : List Char} (hs : Seals p.text r) :
    Distance.after (p.before ++ p.text) =
      ⟨p.distance.bytes + byteLength p.text, p.distance.lines,
        p.distance.columns + p.text.length⟩ := by
  refine Distance.after_append_line p.before ?_
  intro h
  exact (hs.clear _ h).1 rfl

/-- The lexer of a piece ends where the text goes on. -/
theorem Piece.finish_within {g : Grammar} {p : Piece} {r : List Char} (hs : Seals p.text r) :
    (p.lexer g).finish.within p.distance r =
      ⟨p.text, g.lexicon, .behind (p.before ++ p.text) r, false, false⟩ := by
  rw [finish_lexer, Cursor.behind, after_text hs]
  rfl

/-- What closes a piece begins where the piece ends. -/
theorem Piece.front_spanOf_behind {p : Piece} {r : List Char} (hs : Seals p.text r)
    (cs : List Char) : ((Cursor.behind (p.before ++ p.text) r).spanOf cs).front = p.stop := by
  rw [Cursor.behind, after_text hs]
  rfl

/-- In front of a piece the items of the text begin with those of the piece. -/
theorem Piece.items_of_readsAs {g : Grammar} {p : Piece} {r : List Char} {body : List Item}
    (h : (p.lexer g).ReadsAs p.distance r body) (hs : Seals p.text r) (text : List Char) :
    (⟨text, g.lexicon, .behind p.before (p.text ++ r), false, false⟩ : Lexer).items true =
      body.map (Item.relocate (Span.shift p.distance)) ++
        (⟨p.text, g.lexicon, .behind (p.before ++ p.text) r, false, false⟩ : Lexer).items
          true := by
  have hwithin := h.within
  rw [finish_within hs] at hwithin
  rw [← hwithin]
  exact Lexer.items_text true ((p.lexer g).within p.distance r) text

/-- Behind the last terminator blanks are no piece, and make no segment. -/
theorem Piece.forall₂_last {g : Grammar} {text : List Char} {p : Piece} {own s : Segment}
    (h : p.Becomes g text own s) (hs : s.isTerminated = false) :
    List.Forall₂ (fun p s => ∃ own, Piece.Becomes g text p own s)
      (if p.isBlank then [] else [p])
      ([s].filter fun s => s.isTerminated || !s.isBlank) := by
  have hblank : s.isBlank = p.isBlank := by
    rw [← h.blank, Segment.isBlank, h.moved.items, List.isEmpty_map]
    rfl
  cases hp : p.isBlank with
  | true =>
    rw [List.filter_cons_of_neg (by rw [hs, hblank, hp]; exact Bool.false_ne_true)]
    exact .nil
  | false =>
    rw [List.filter_cons_of_pos (by rw [hs, hblank, hp]; rfl)]
    exact .cons ⟨own, h⟩ .nil

/-- The segments from a place on correspond to the pieces from there on. The
induction is on what is left of the text; one piece and its terminator are
taken at a time. -/
theorem forall₂_piecesFrom {g : Grammar} (hk : g.KeepsLines) (text before rest : List Char) :
    List.Forall₂ (fun p s => ∃ own, Piece.Becomes g (before ++ rest) p own s)
      (piecesFrom before [] rest)
      (Segment.ofItems
        ((⟨text, g.lexicon, .behind before rest, false, false⟩ : Lexer).items true)) := by
  obtain ⟨p, r, rfl, hs, hr⟩ := exists_stretch rest
  have hblanks : untilTerminator r = leadingBlanks r ∧ leadingBlanks r = [] := by
    rcases hr with rfl | ⟨t, ht, rest', rfl⟩
    · exact ⟨rfl, rfl⟩
    · rcases eq_of_mem_terminators ht with rfl | rfl | rfl <;> exact ⟨rfl, rfl⟩
  let q : Piece := ⟨before, p⟩
  obtain ⟨body, h⟩ := Lexer.exists_readsAs (q.lexer g) (Grammar.keepsLines_lexicon hk) hs
    hblanks.1 q.distance
  have hitems := Piece.items_of_readsAs h hs text
  have hinner := h.inner_relocate (Span.shift q.distance)
  have hstop := Piece.front_spanOf_behind (p := q) hs
  have hbecomes {closer : Token} (hc : closer.span.front = q.stop) :
      q.Becomes g (before ++ (p ++ r)) ⟨body, .closing (q.lexer g).stop⟩
        ⟨body.map (Item.relocate (Span.shift q.distance)), closer⟩ := by
    rw [← List.append_assoc]
    exact Piece.becomes_of_readsAs h hs hc
  rw [hitems, piecesFrom_append hs, List.nil_append]
  rcases hr with rfl | ⟨t, ht, rest', rfl⟩
  · have hq := @hbecomes (.closing ((Cursor.behind (before ++ p) []).spanOf [])) (hstop [])
    rw [Lexer.items_end _ true (b := []) rfl rfl, Segment.ofItems, Segment.split_end hinner rfl,
      piecesFrom]
    exact Piece.forall₂_last hq rfl
  · have hread := Lexer.items_terminator
      ⟨p, g.lexicon, .behind (before ++ p) (t ++ rest'), false, false⟩ true hblanks.2
      (terminator?_append ht rest')
    have hcursor := Cursor.passWord_terminator (before ++ p) rest' ht
    have hpositive : 0 < t.length := by
      rcases eq_of_mem_terminators ht with rfl | rfl | rfl <;> decide
    have ih := forall₂_piecesFrom hk p (before ++ p ++ t) rest'
    rw [hread, piecesFrom_terminator ht, Segment.ofItems, Segment.split_terminator hinner rfl,
      List.filter_cons_of_pos rfl]
    refine .cons ⟨_, hbecomes (hstop t)⟩ ?_
    rw [← List.append_assoc p, ← List.append_assoc, ← List.append_assoc]
    rw [← hcursor] at ih
    exact ih
termination_by rest.length
decreasing_by
  subst_vars
  simp only [List.length_append]
  omega

/-- **The segments of a text correspond to its pieces.** -/
theorem segments_pieces {g : Grammar} (hk : g.KeepsLines) (source : String) :
    List.Forall₂ (fun p s => ∃ own, Piece.Becomes g source.toList p own s) (pieces source)
      (segments source g) :=
  forall₂_piecesFrom hk source.toList [] source.toList

end CalcSyntax
