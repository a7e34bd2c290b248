import CalcSyntax.Proofs.Token.Tiling

/-!
# Order — segments stand one behind the other

A segment takes its items and its closer off the text (`Segment.marks`), and
cutting takes every item once at most, in order. Its span begins where the
first of them begins and ends where the closer begins, so a closer that is a
terminator stands between the span of its segment and that of the next.

## What is proved

- `Segment.flatMap_marks_split` — cutting drops items, and moves none.
- `placed_of_mem_segments` — the items of a segment lie within its span.
- `segments_pairwise` — the spans of the segments do not touch.
-/

set_option autoImplicit false

namespace CalcSyntax

namespace Segment

/-- What a segment takes: its items, and the token behind them. -/
def marks (s : Segment) : List Item := s.items ++ [.ok s.closer]

theorem closer_mem_marks (s : Segment) : .ok s.closer ∈ s.marks :=
  List.mem_append_right _ (List.mem_singleton_self _)

theorem mem_marks {s : Segment} {i : Item} (h : i ∈ s.items) : i ∈ s.marks :=
  List.mem_append_left _ h

/-! ## Cutting -/

theorem flatMap_marks_putFront (item : Item) (ss : List Segment) :
    ((putFront item ss).flatMap marks).Sublist (item :: ss.flatMap marks) := by
  cases ss with
  | nil => exact List.nil_sublist _
  | cons s ss => exact List.Sublist.refl _

/-- **Cutting moves no item.** -/
theorem flatMap_marks_split (items : List Item) :
    ((split items).flatMap marks).Sublist items := by
  fun_induction split items with
  | case1 => exact List.Sublist.refl _
  | case2 t rest _ ih => exact ih.cons_cons _
  | case3 t rest => exact (List.nil_sublist rest).cons_cons _
  | case4 t rest _ _ ih => exact (flatMap_marks_putFront _ _).trans (ih.cons_cons _)
  | case5 c rest ih => exact (flatMap_marks_putFront _ _).trans (ih.cons_cons _)

theorem isTerminated_putFront {item : Item} {ss : List Segment}
    (h : ss.Pairwise fun s _ => s.isTerminated = true) :
    (putFront item ss).Pairwise fun s _ => s.isTerminated = true := by
  cases ss with
  | nil => exact h
  | cons s ss =>
    obtain ⟨hfirst, hrest⟩ := List.pairwise_cons.mp h
    exact List.pairwise_cons.mpr ⟨hfirst, hrest⟩

/-- Every segment in front of another is closed by a terminator. -/
theorem isTerminated_split (items : List Item) :
    (split items).Pairwise fun s _ => s.isTerminated = true := by
  fun_induction split items with
  | case1 => exact List.Pairwise.nil
  | case2 t rest hkind ih =>
    exact List.pairwise_cons.mpr ⟨fun _ _ => beq_iff_eq.mpr hkind, ih⟩
  | case3 => exact List.pairwise_singleton _ _
  | case4 _ _ _ _ ih => exact isTerminated_putFront ih
  | case5 _ _ ih => exact isTerminated_putFront ih

/-! ## One segment -/

/-- The items of a segment stand in the text one behind the other, in front of its
closer. -/
structure Placed (text : List Char) (s : Segment) : Prop where
  covers : ∀ i ∈ s.marks, i.Covers text
  ordered : s.marks.Pairwise fun a b => a.span.stop ≤ b.span.start

namespace Placed

variable {text : List Char} {s : Segment}

theorem closer_covers (h : s.Placed text) : Item.Covers text (.ok s.closer) :=
  h.covers _ s.closer_mem_marks

theorem stop_le_closer (h : s.Placed text) {i : Item} (hi : i ∈ s.items) :
    i.span.stop ≤ s.closer.span.start :=
  (List.pairwise_append.mp h.ordered).2.2 i hi _ (List.mem_singleton_self _)

/-- The span of a segment ends where its closer begins. -/
theorem stop_span (h : s.Placed text) : s.span.stop = s.closer.span.start := by
  unfold span
  cases hitems : s.items with
  | nil => rfl
  | cons first rest =>
    have hle := h.stop_le_closer (hitems ▸ List.mem_cons_self)
    exact Nat.max_eq_right hle

/-- The span of a segment begins where the first of its marks does. -/
theorem start_span (h : s.Placed text) :
    ∃ first rest, s.marks = first :: rest ∧ s.span.start = first.span.start := by
  unfold marks span
  cases hitems : s.items with
  | nil => exact ⟨_, [], rfl, rfl⟩
  | cons first rest =>
    have hfirst : first ∈ s.items := hitems ▸ List.mem_cons_self
    have hcovers := h.covers first (mem_marks hfirst)
    have hle : first.span.start ≤ s.stop.start :=
      Nat.le_trans hcovers.le (h.stop_le_closer hfirst)
    refine ⟨first, rest ++ [.ok s.closer], rfl, ?_⟩
    show (if first.span.start ≤ s.stop.start then first.span else s.stop).start = _
    rw [if_pos hle]

theorem start_span_le (h : s.Placed text) {i : Item} (hi : i ∈ s.marks) :
    s.span.start ≤ i.span.start := by
  obtain ⟨first, rest, hmarks, hstart⟩ := h.start_span
  have hordered := h.ordered
  have hfirst := h.covers first (hmarks ▸ List.mem_cons_self)
  rw [hmarks] at hi hordered
  rw [hstart]
  rcases List.mem_cons.mp hi with rfl | hi
  · exact Nat.le_refl _
  · exact Nat.le_trans hfirst.le ((List.pairwise_cons.mp hordered).1 i hi)

/-- The span of a segment is cut out between two characters of the text. -/
theorem isBoundary (h : s.Placed text) :
    s.span.start ≤ s.span.stop ∧ IsBoundary text s.span.start ∧ IsBoundary text s.span.stop := by
  obtain ⟨first, rest, hmarks, hstart⟩ := h.start_span
  refine ⟨?_, ?_, ?_⟩
  · rw [h.stop_span]
    exact h.start_span_le s.closer_mem_marks
  · rw [hstart]
    exact (h.covers first (hmarks ▸ List.mem_cons_self)).isBoundary
  · rw [h.stop_span]
    exact h.closer_covers.isBoundary

end Placed

/-- A segment whose closer takes a byte ends in front of one that begins behind the
closer. -/
theorem stop_lt_start {text : List Char} {s r : Segment} (hs : s.Placed text)
    (hr : r.Placed text) (hclosed : s.closer.span.start < s.closer.span.stop)
    (hbehind : ∀ i ∈ r.marks, s.closer.span.stop ≤ i.span.start) :
    s.span.stop < r.span.start := by
  obtain ⟨first, rest, hmarks, hstart⟩ := hr.start_span
  have hle := hbehind first (hmarks ▸ List.mem_cons_self)
  rw [hs.stop_span, hstart]
  omega

end Segment

/-! ## The segments of a source -/

section Source

variable {source : String} {g : Grammar}

theorem mem_split_of_mem_segments {s : Segment} (h : s ∈ segments source g) :
    s ∈ Segment.split (scan source g) := (List.mem_filter.mp h).1

theorem mem_scan_of_mem_marks {s : Segment} (h : s ∈ Segment.split (scan source g)) {i : Item}
    (hi : i ∈ s.marks) : i ∈ scan source g :=
  (Segment.flatMap_marks_split _).subset (List.mem_flatMap.mpr ⟨s, h, hi⟩)

/-- The marks of all segments stand one behind the other. -/
theorem marks_pairwise (source : String) (hg : g.NoEmptyWord) :
    ((Segment.split (scan source g)).flatMap Segment.marks).Pairwise fun a b =>
      a.span.stop ≤ b.span.start :=
  (tiles_scan source hg).pairwise.sublist (Segment.flatMap_marks_split _)

theorem placed_of_mem_split (hg : g.NoEmptyWord) {s : Segment}
    (h : s ∈ Segment.split (scan source g)) : s.Placed source.toList := by
  have hzero : 0 = byteLength [] := rfl
  have hcovers := (tiles_scan source hg).covers hzero
  exact ⟨fun i hi => hcovers i (mem_scan_of_mem_marks h hi),
    (List.pairwise_flatMap.mp (marks_pairwise source hg)).1 s h⟩

/-- **The items of a segment lie within its span.** -/
theorem placed_of_mem_segments (hg : g.NoEmptyWord) {s : Segment} (h : s ∈ segments source g) :
    s.Placed source.toList := placed_of_mem_split hg (mem_split_of_mem_segments h)

/-- A terminator takes a byte at least. -/
theorem closer_lt (hg : g.NoEmptyWord) {s : Segment} (h : s ∈ Segment.split (scan source g))
    (hterminated : s.isTerminated = true) : s.closer.span.start < s.closer.span.stop := by
  have hmem := mem_scan_of_mem_marks h s.closer_mem_marks
  refine (placed_of_mem_split hg h).closer_covers.lt ?_
  refine ((tiles_scan source hg).nonempty_or_closing _ hmem).resolve_right ?_
  rintro ⟨p, hclosing⟩
  rw [Segment.isTerminated, Except.ok.inj hclosing] at hterminated
  cases hterminated

/-- **The spans of segments do not touch**: a terminator stands between them. -/
theorem segments_pairwise (source : String) (hg : g.NoEmptyWord) :
    (segments source g).Pairwise fun s r => s.span.stop < r.span.start := by
  have hmarks := (List.pairwise_flatMap.mp (marks_pairwise source hg)).2
  have hterminated := Segment.isTerminated_split (scan source g)
  refine List.Pairwise.filter _ ?_
  refine (hmarks.and hterminated).imp_of_mem fun {s r} hs hr h => ?_
  exact Segment.stop_lt_start (placed_of_mem_split hg hs) (placed_of_mem_split hg hr)
    (closer_lt hg hs h.2) fun i hi => h.1 _ s.closer_mem_marks i hi

end Source

end CalcSyntax
