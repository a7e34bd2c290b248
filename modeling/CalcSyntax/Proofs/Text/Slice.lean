import CalcSyntax.Proofs.Span.Relocation
import CalcSyntax.Text.Slice

/-!
# Slice — cutting between whole characters

Cutting counts bytes. Where the offsets are the lengths of texts that
make up the whole, the cut falls between them (`slice?_append`). So there
is a slice between any two boundaries of a text (`exists_slice?`).
-/

set_option autoImplicit false

namespace CalcSyntax

/-- A character takes a byte at least, so a cut behind it counts on. -/
theorem utf8Size_eq_succ (c : Char) : ∃ n, c.utf8Size = n + 1 := by
  have hpos := c.utf8Size_pos
  exact ⟨c.utf8Size - 1, by omega⟩

theorem dropBytes?_append (as bs : List Char) :
    dropBytes? (byteLength as) (as ++ bs) = some bs := by
  induction as with
  | nil => rw [byteLength, List.nil_append, dropBytes?]
  | cons c as ih =>
    obtain ⟨n, hn⟩ := utf8Size_eq_succ c
    have hlen : byteLength (c :: as) = n + byteLength as + 1 := by
      rw [byteLength, hn]
      omega
    have hle : c.utf8Size ≤ n + byteLength as + 1 := by omega
    have hrest : n + byteLength as + 1 - c.utf8Size = byteLength as := by omega
    rw [hlen, List.cons_append, dropBytes?, if_pos hle, hrest, ih]

theorem takeBytes?_append (as bs : List Char) :
    takeBytes? (byteLength as) (as ++ bs) = some as := by
  induction as with
  | nil => rw [byteLength, takeBytes?]
  | cons c as ih =>
    obtain ⟨n, hn⟩ := utf8Size_eq_succ c
    have hlen : byteLength (c :: as) = n + byteLength as + 1 := by
      rw [byteLength, hn]
      omega
    have hle : c.utf8Size ≤ n + byteLength as + 1 := by omega
    have hrest : n + byteLength as + 1 - c.utf8Size = byteLength as := by omega
    rw [hlen, List.cons_append, takeBytes?, if_pos hle, hrest, ih]
    rfl

/-- A part of a text is cut out by the lengths of what stands before it and of
itself. -/
theorem slice?_append (before part behind : List Char) :
    slice? (before ++ part ++ behind) (byteLength before) (byteLength before + byteLength part) =
      some part := by
  rw [slice?, if_pos (Nat.le_add_right _ _), List.append_assoc, dropBytes?_append,
    Option.bind_some, Nat.add_sub_cancel_left, takeBytes?_append]

/-! ## Boundaries -/

theorem byteLength_le_of_isPrefix {as bs : List Char} (h : as <+: bs) :
    byteLength as ≤ byteLength bs := by
  obtain ⟨cs, rfl⟩ := h
  rw [byteLength_append]
  exact Nat.le_add_right _ _

/-- An offset between two characters of a text, or at one of its ends. -/
def IsBoundary (text : List Char) (offset : Nat) : Prop :=
  ∃ before, before <+: text ∧ byteLength before = offset

theorem isBoundary_append (before after : List Char) :
    IsBoundary (before ++ after) (byteLength before) := ⟨before, List.prefix_append _ _, rfl⟩

theorem IsBoundary.le {text : List Char} {offset : Nat} (h : IsBoundary text offset) :
    offset ≤ byteLength text := by
  obtain ⟨before, hp, rfl⟩ := h
  exact byteLength_le_of_isPrefix hp

/-- A text without bytes has no characters. -/
theorem eq_nil_of_byteLength {cs : List Char} (h : byteLength cs = 0) : cs = [] := by
  cases cs with
  | nil => rfl
  | cons c cs =>
    have hpos := c.utf8Size_pos
    rw [byteLength] at h
    omega

/-- Between two boundaries lies a slice. -/
theorem exists_slice? {text : List Char} {start stop : Nat} (hs : IsBoundary text start)
    (ht : IsBoundary text stop) (hle : start ≤ stop) : ∃ cs, slice? text start stop = some cs := by
  obtain ⟨front, hfront, rfl⟩ := hs
  obtain ⟨whole, ⟨after, rfl⟩, rfl⟩ := ht
  rcases List.prefix_or_prefix_of_prefix hfront (List.prefix_append whole after) with h | h
  · obtain ⟨part, rfl⟩ := h
    rw [byteLength_append]
    exact ⟨part, slice?_append front part after⟩
  · obtain ⟨part, rfl⟩ := h
    rw [byteLength_append] at hle
    have hpart : part = [] := eq_nil_of_byteLength (by omega)
    have hslice := slice?_append whole [] after
    rw [hpart, List.append_nil]
    rw [List.append_nil] at hslice
    exact ⟨[], hslice⟩

end CalcSyntax
