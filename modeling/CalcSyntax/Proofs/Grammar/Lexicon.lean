import CalcSyntax.Proofs.Grammar.Registration
import CalcSyntax.Proofs.Text.Slice
import CalcSyntax.Proofs.Token.Break
import Mathlib.Data.List.Pairwise

/-!
# Lexicon — one word to a spelling, and the longest goes first

The words of a lexicon stand in the order of `Word.before`, and each spelling
comes once. Two such lists with the same members are the same list, so a lexicon
is told by its members (`Word.Ordered.eq_of_forall_mem`), and which they are is a matter
of looking spellings up: a word belongs to the lexicon if its kind is the one
that its spelling makes (`Grammar.mem_words_iff`). Nothing is left of the order
in which the entries were registered.

The first word that a text starts with is the longest one, since all of them
are the front of the same text (`Lexicon.word?_eq_some_iff`).

## What is proved

- `Word.mem_enterAll_iff` — the first word of a spelling stays.
- `Grammar.mem_words_iff` — commands go before functions, functions before
  operators, then the named variables, and punctuation last.
- `Lexicon.word?_eq_some_iff` — the first word that fits is the longest.
- `Grammar.words_eq`, `Grammar.agreesOn_lexicon` — what two lexicons have in common
  if the grammars give the same answers.
-/

set_option autoImplicit false

namespace CalcSyntax

/-! ## The order of words -/

namespace Word

variable {a b c v w : Word} {ws : List Word}

theorem before_iff : a.before b = true ↔
    byteLength b.spelling < byteLength a.spelling ∨
      byteLength a.spelling = byteLength b.spelling ∧ a.spelling < b.spelling := by
  simp only [before, Bool.or_eq_true, Bool.and_eq_true, decide_eq_true_eq, beq_iff_eq]

theorem byteLength_le_of_before (h : a.before b = true) :
    byteLength b.spelling ≤ byteLength a.spelling := by
  rcases before_iff.mp h with hlt | ⟨heq, _⟩
  · exact Nat.le_of_lt hlt
  · exact Nat.le_of_eq heq.symm

theorem before_trans (hab : a.before b = true) (hbc : b.before c = true) :
    a.before c = true := by
  rw [before_iff] at *
  rcases hab with hab | ⟨hab, hab'⟩ <;> rcases hbc with hbc | ⟨hbc, hbc'⟩
  · exact .inl (Nat.lt_trans hbc hab)
  · exact .inl (hbc ▸ hab)
  · exact .inl (hab ▸ hbc)
  · exact .inr ⟨hab.trans hbc, List.lt_trans hab' hbc'⟩

/-- A word does not stand before one of the same spelling. -/
theorem ne_of_before (h : a.before b = true) : a.spelling ≠ b.spelling := by
  intro he
  rw [before_iff, he] at h
  rcases h with h | ⟨_, h⟩
  · exact Nat.lt_irrefl _ h
  · exact List.lt_irrefl _ h

theorem before_or_before (h : a.spelling ≠ b.spelling) :
    a.before b = true ∨ b.before a = true := by
  rw [before_iff, before_iff]
  rcases Nat.lt_trichotomy (byteLength a.spelling) (byteLength b.spelling) with hlt | heq | hgt
  · exact .inr (.inl hlt)
  · by_cases hlt : a.spelling < b.spelling
    · exact .inl (.inr ⟨heq, hlt⟩)
    · refine .inr (.inr ⟨heq.symm, ?_⟩)
      exact Decidable.not_not.mp fun hgt => h (List.le_antisymm hgt hlt)
  · exact .inl (.inl hgt)

/-- Each word stands before all that follow it. -/
def Ordered (ws : List Word) : Prop := ws.Pairwise fun a b => a.before b = true

theorem Ordered.enter (h : Ordered ws) (w : Word) : Ordered (w.enter ws) := by
  induction ws with
  | nil => exact List.pairwise_singleton _ _
  | cons v vs ih =>
    obtain ⟨hv, hvs⟩ := List.pairwise_cons.mp h
    unfold Word.enter
    split
    · exact h
    · next hne =>
      split
      · next hbefore =>
        refine List.pairwise_cons.mpr ⟨List.forall_mem_cons.mpr ⟨hbefore, ?_⟩, h⟩
        exact fun u hu => before_trans hbefore (hv u hu)
      · next hbefore =>
        have hvw : v.before w = true := (before_or_before hne).resolve_right hbefore
        refine List.pairwise_cons.mpr ⟨fun u hu => ?_, ih hvs⟩
        rcases mem_enter hu with rfl | hu
        · exact hvw
        · exact hv u hu

/-- Ordered lists are told by their members. -/
theorem Ordered.eq_of_forall_mem {vs : List Word} (hv : Ordered vs) (hw : Ordered ws)
    (h : ∀ u, u ∈ vs ↔ u ∈ ws) : vs = ws := by
  have hne {us : List Word} (hu : Ordered us) : us.Nodup :=
    hu.imp fun hab he => ne_of_before hab (congrArg spelling he)
  refine List.Perm.eq_of_pairwise ?_ hv hw ((List.perm_ext_iff_of_nodup (hne hv) (hne hw)).mpr h)
  intro a b _ _ hab hba
  exact absurd rfl (ne_of_before (before_trans hab hba))

/-- The first word of an ordered list that has a property is the one that stands before
all others that have it. -/
theorem Ordered.find?_eq_some (h : Ordered ws) {p : Word → Bool} (hmem : v ∈ ws) (hp : p v = true)
    (hfirst : ∀ u ∈ ws, p u = true → u = v ∨ v.before u = true) : ws.find? p = some v := by
  induction ws with
  | nil => cases hmem
  | cons x xs ih =>
    obtain ⟨hx, hxs⟩ := List.pairwise_cons.mp h
    obtain ⟨hfirstx, hfirst⟩ := List.forall_mem_cons.mp hfirst
    rw [List.find?_cons]
    cases hpx : p x with
    | true =>
      rcases List.mem_cons.mp hmem with rfl | hmem
      · rfl
      · rcases hfirstx hpx with rfl | hbefore
        · rfl
        · exact absurd rfl (ne_of_before (before_trans (hx v hmem) hbefore))
    | false =>
      refine ih hxs ((List.mem_cons.mp hmem).resolve_left ?_) hfirst
      rintro rfl
      rw [hp] at hpx
      cases hpx

/-- In an ordered list a spelling comes once. -/
theorem Ordered.eq_of_spelling (h : Ordered ws) (ha : a ∈ ws) (hb : b ∈ ws)
    (he : a.spelling = b.spelling) : a = b := by
  have hne : ws.Pairwise fun a b => a.spelling ≠ b.spelling := h.imp ne_of_before
  have : Std.Symm fun a b : Word => a.spelling ≠ b.spelling := ⟨fun _ _ => Ne.symm⟩
  exact Decidable.not_not.mp fun hab => hne.forall ha hb hab he

theorem Ordered.mem_iff (h : Ordered ws) :
    v ∈ ws ↔ ws.find? (fun u => decide (u.spelling = v.spelling)) = some v := by
  refine ⟨fun hmem => h.find?_eq_some hmem (decide_eq_true rfl) ?_, List.mem_of_find?_eq_some⟩
  exact fun u hu hsame => .inl (h.eq_of_spelling hu hmem (of_decide_eq_true hsame))

/-! ## Entering words -/

/-- Looking a spelling up behind an entry: what was there goes before the new word. -/
theorem find?_enter (h : Ordered ws) (w : Word) (s : List Char) :
    (w.enter ws).find? (fun u => decide (u.spelling = s)) =
      (ws.find? fun u => decide (u.spelling = s)).or
        (if w.spelling = s then some w else none) := by
  induction ws with
  | nil => by_cases hs : w.spelling = s <;> simp [Word.enter, hs]
  | cons x xs ih =>
    obtain ⟨hx, hxs⟩ := List.pairwise_cons.mp h
    unfold Word.enter
    split
    · next heq =>
      by_cases hs : x.spelling = s
      · simp [hs]
      · rw [if_neg (heq ▸ hs), Option.or_none]
    · next hne =>
      split
      · next hbefore =>
        -- behind `x` no word has the spelling of `w`, since `w` goes before `x`
        have hfree : ∀ u ∈ x :: xs, u.spelling ≠ w.spelling := by
          refine List.forall_mem_cons.mpr ⟨hne, fun u hu he => ?_⟩
          exact ne_of_before (before_trans hbefore (hx u hu)) he.symm
        rw [List.find?_cons]
        by_cases hs : w.spelling = s
        · have hnone : (x :: xs).find? (fun u => decide (u.spelling = s)) = none :=
            List.find?_eq_none.mpr fun u hu => by simpa [← hs] using hfree u hu
          rw [hnone]
          simp [hs]
        · simp [hs]
      · rw [List.find?_cons, List.find?_cons, ih hxs]
        by_cases hs : x.spelling = s <;> simp [hs]

theorem Ordered.foldl_enter {us : List Word} (h : Ordered us) (ws : List Word) :
    Ordered (ws.foldl (fun vs w => w.enter vs) us) := by
  induction ws generalizing us with
  | nil => exact h
  | cons w ws ih => exact ih (h.enter w)

theorem find?_foldl_enter {us : List Word} (h : Ordered us) (ws : List Word) (s : List Char) :
    (ws.foldl (fun vs w => w.enter vs) us).find? (fun u => decide (u.spelling = s)) =
      (us.find? fun u => decide (u.spelling = s)).or
        (ws.find? fun u => decide (u.spelling = s)) := by
  induction ws generalizing us with
  | nil => rw [List.foldl_nil, List.find?_nil, Option.or_none]
  | cons w ws ih =>
    rw [List.foldl_cons, ih (h.enter w), find?_enter h, Option.or_assoc, List.find?_cons]
    by_cases hs : w.spelling = s <;> simp [hs]

theorem ordered_enterAll (ws : List Word) : Ordered (enterAll ws) :=
  Ordered.foldl_enter List.Pairwise.nil ws

/-- **The first word of a spelling stays**, and no other. -/
theorem mem_enterAll_iff :
    v ∈ enterAll ws ↔ ws.find? (fun u => decide (u.spelling = v.spelling)) = some v := by
  rw [(ordered_enterAll ws).mem_iff, enterAll, find?_foldl_enter List.Pairwise.nil,
    List.find?_nil, Option.none_or]

end Word

/-! ## The words of a grammar -/

namespace Grammar

variable {g h : Grammar}

/-- The spelling is an operator, of whatever fixity. -/
def isOperator (g : Grammar) (s : String) : Bool :=
  [Fixity.prefixOp, .infixOp, .postfixOp].any fun f => (g.operators.operator? s f).isSome

/-- The kind of token that a spelling makes. The tables are asked in turn, then the words
that every grammar has. -/
def kindOf? (g : Grammar) (s : String) : Option TokenKind :=
  if (g.command? s).isSome then some .command
  else if (g.function? s).isSome then some .function
  else if g.isOperator s then some .operator
  else if s ∈ namedVariables then some .var
  else (punctuation.find? fun w => decide (w.spelling = s.toList)).map Word.kind

theorem isSome_command?_iff {s : String} :
    (g.command? s).isSome = true ↔ s ∈ g.commands.entries.map CommandEntry.keyword := by
  simp only [Option.isSome_iff_exists, command?, Table.get?_eq_some_iff, List.mem_map]
  exact Iff.rfl

theorem isSome_function?_iff {s : String} :
    (g.function? s).isSome = true ↔ s ∈ g.functions.entries.map FunctionEntry.name := by
  simp only [Option.isSome_iff_exists, function?, Table.get?_eq_some_iff, List.mem_map]
  exact Iff.rfl

theorem isOperator_iff {s : String} : g.isOperator s = true ↔ s ∈ g.operators.symbols := by
  have hkey (d : OperatorEntry) (f : Fixity) :
      (Keyed.key d = (s, f)) = (d.symbol = s ∧ d.fixity = f) := Prod.mk.injEq ..
  simp only [isOperator, List.any_eq_true, Option.isSome_iff_exists, Table.operator?,
    Table.get?_eq_some_iff, hkey, Table.symbols, List.mem_map]
  constructor
  · rintro ⟨_, _, d, hd, hs, _⟩
    exact ⟨d, hd, hs⟩
  · rintro ⟨d, hd, hs⟩
    exact ⟨d.fixity, by cases d.fixity <;> decide, d, hd, hs, rfl⟩

/-- A spelling is registered if one of the tables has it. -/
theorem mem_registered_iff {s : String} : s ∈ g.registered ↔
    (g.command? s).isSome = true ∨ (g.function? s).isSome = true ∨ g.isOperator s = true := by
  rw [isSome_command?_iff, isSome_function?_iff, isOperator_iff]
  simp only [registered, List.mem_append, or_assoc]

/-- The spellings that make a token: those of the tables, and the ones that every grammar has. -/
theorem isSome_kindOf?_iff {s : String} : (g.kindOf? s).isSome = true ↔
    s ∈ g.registered ∨ s ∈ namedVariables ∨ ∃ w ∈ punctuation, w.spelling = s.toList := by
  rw [mem_registered_iff, kindOf?]
  by_cases hc : (g.command? s).isSome = true
  · simp [hc]
  by_cases hf : (g.function? s).isSome = true
  · simp [hc, hf]
  by_cases ho : g.isOperator s = true
  · simp [hc, hf, ho]
  by_cases hv : s ∈ namedVariables
  · simp [hc, hf, ho, hv]
  · simp [hc, hf, ho, hv]

/-- Looking a spelling up among the words of one source. -/
theorem find?_ofString (kind : TokenKind) (texts : List String) (s : String) :
    (texts.map (Word.ofString kind)).find? (fun w => decide (w.spelling = s.toList)) =
      if s ∈ texts then some (.ofString kind s) else none := by
  induction texts with
  | nil => rfl
  | cons t texts ih =>
    rw [List.map_cons, List.find?_cons, ih]
    by_cases ht : t = s
    · simp [Word.ofString, ht]
    · have hne : s ≠ t := fun h => ht h.symm
      simp [Word.ofString, ht, hne, String.toList_inj]

/-- Looking a spelling up among all of them: the first source that offers it decides. -/
theorem find?_spellings (g : Grammar) (s : String) :
    g.spellings.find? (fun w => decide (w.spelling = s.toList)) =
      (g.kindOf? s).map fun kind => .ofString kind s := by
  have hmap {β : Type} (f : β → String) (kind : TokenKind) (ds : List β) :
      ds.map (fun d => Word.ofString kind (f d)) = (ds.map f).map (.ofString kind) := by
    rw [List.map_map]
    rfl
  have hpunctuation : punctuation.find? (fun w => decide (w.spelling = s.toList)) =
      ((punctuation.find? fun w => decide (w.spelling = s.toList)).map Word.kind).map
        fun kind => .ofString kind s := by
    cases hfind : punctuation.find? fun w => decide (w.spelling = s.toList) with
    | none => rfl
    | some w =>
      have hs : w.spelling = s.toList := by simpa using List.find?_some hfind
      rw [Option.map_some, Option.map_some, Word.ofString, ← hs]
  simp only [spellings, hmap CommandEntry.keyword, hmap FunctionEntry.name, List.find?_append,
    find?_ofString]
  rw [hpunctuation]
  simp only [← isSome_command?_iff, ← isSome_function?_iff, ← isOperator_iff, kindOf?,
    Option.or_assoc]
  -- one source after the other, in the order of both sides
  split
  · rfl
  split
  · rfl
  split
  · rfl
  split <;> rfl

/-- **A word belongs to the lexicon if its kind is the one that its spelling makes.** -/
theorem mem_words_iff {w : Word} :
    w ∈ g.lexicon.words ↔ g.kindOf? (String.ofList w.spelling) = some w.kind := by
  have hfind := find?_spellings g (String.ofList w.spelling)
  rw [String.toList_ofList] at hfind
  rw [lexicon, Word.mem_enterAll_iff, hfind, Option.map_eq_some_iff]
  constructor
  · rintro ⟨kind, hkind, hw⟩
    rw [hkind, ← hw]
    rfl
  · intro hkind
    exact ⟨w.kind, hkind, by rw [Word.ofString, String.toList_ofList]⟩

namespace AgreesAt

variable {s : String}

theorem isOperator (hs : g.AgreesAt h s) : g.isOperator s = h.isOperator s := by
  simp only [Grammar.isOperator, hs.operator]

theorem kindOf? (hs : g.AgreesAt h s) : g.kindOf? s = h.kindOf? s := by
  rw [Grammar.kindOf?, Grammar.kindOf?, hs.command, hs.function, hs.isOperator]

end AgreesAt

/-- The keyword of a command that takes a label announces one. -/
theorem announcesLabel_lexicon (g : Grammar) (w : Word) : g.lexicon.announcesLabel w =
    (w.kind == .command &&
      (g.command? (String.ofList w.spelling)).any CommandEntry.takesLabel) := by
  rw [Lexicon.announcesLabel, Bool.eq_iff_iff, Bool.and_eq_true, Bool.and_eq_true]
  refine and_congr_right fun _ => ?_
  simp only [lexicon, List.contains_iff_mem, List.mem_map, List.mem_filter, Option.any_eq_true,
    command?, Table.get?_eq_some_iff]
  refine exists_congr fun d => ?_
  have hkey : d.keyword.toList = w.spelling ↔ Keyed.key d = String.ofList w.spelling := by
    rw [← String.toList_inj, String.toList_ofList]
    exact Iff.rfl
  rw [hkey, and_right_comm]

theorem ordered_words (g : Grammar) : Word.Ordered g.lexicon.words := Word.ordered_enterAll _

/-- **The order of registration leaves no trace in the words.** -/
theorem words_eq (hs : ∀ s, g.AgreesAt h s) : g.lexicon.words = h.lexicon.words := by
  refine g.ordered_words.eq_of_forall_mem h.ordered_words fun w => ?_
  rw [mem_words_iff, mem_words_iff, (hs _).kindOf?]

end Grammar

/-! ## The longest word -/

namespace Lexicon

theorem eq_of_isPrefix_of_byteLength_le {as bs : List Char} (h : as <+: bs)
    (hle : byteLength bs ≤ byteLength as) : as = bs := by
  obtain ⟨cs, rfl⟩ := h
  rw [byteLength_append] at hle
  have hcs : cs = [] := eq_nil_of_byteLength (by omega)
  rw [hcs, List.append_nil]

/-- **The first word that a text starts with is the longest one.** -/
theorem word?_eq_some_iff {lx : Lexicon} (h : Word.Ordered lx.words) {cs : List Char} {w : Word} :
    lx.word? cs = some w ↔ w ∈ lx.words ∧ w.spelling <+: cs ∧
      ∀ v ∈ lx.words, v.spelling <+: cs → v.spelling <+: w.spelling := by
  constructor
  · intro hw
    obtain ⟨hp, front, back, hsplit, hfront⟩ := List.find?_eq_some_iff_append.mp hw
    have hwcs : w.spelling <+: cs := List.isPrefixOf_iff_prefix.mp hp
    refine ⟨List.mem_of_find?_eq_some hw, hwcs, fun v hv hvcs => ?_⟩
    rw [Word.Ordered, hsplit] at h
    have hbehind := (List.pairwise_cons.mp (List.pairwise_append.mp h).2.1).1
    rw [hsplit, List.mem_append, List.mem_cons] at hv
    rcases hv with hv | rfl | hv
    · have hnot := hfront v hv
      rw [List.isPrefixOf_iff_prefix.mpr hvcs] at hnot
      cases hnot
    · exact List.prefix_rfl
    · have hle := Word.byteLength_le_of_before (hbehind v hv)
      rcases List.prefix_or_prefix_of_prefix hvcs hwcs with hvw | hwv
      · exact hvw
      · -- a longer word would have gone first
        exact (eq_of_isPrefix_of_byteLength_le hwv hle).symm ▸ List.prefix_rfl
  · rintro ⟨hmem, hcs, hlongest⟩
    refine h.find?_eq_some hmem (List.isPrefixOf_iff_prefix.mpr hcs) fun v hv hvcs => ?_
    have hvw := hlongest v hv (List.isPrefixOf_iff_prefix.mp hvcs)
    by_cases he : v.spelling = w.spelling
    · exact .inl (h.eq_of_spelling hv hmem he)
    · refine .inr (Word.before_iff.mpr (.inl (Nat.lt_of_not_le fun hle => ?_)))
      exact he (eq_of_isPrefix_of_byteLength_le hvw hle)

/-- Two lexicons find the same in a text, wherever in it they look. -/
structure AgreesOn (x y : Lexicon) (text : List Char) : Prop where
  word : ∀ cs, cs <:+ text → x.word? cs = y.word? cs
  label : ∀ w : Word, w.spelling <:+: text → x.announcesLabel w = y.announcesLabel w

end Lexicon

/-- **Grammars that give the same answers about what stands in a text find the same words
in it**, whatever other words they have. -/
theorem Grammar.agreesOn_lexicon {g h : Grammar} {text : List Char}
    (hs : ∀ s : String, s.toList <:+: text → g.AgreesAt h s) :
    g.lexicon.AgreesOn h.lexicon text where
  word cs hcs := by
    have hmem {w : Word} (hw : w.spelling <+: cs) : w ∈ g.lexicon.words ↔ w ∈ h.lexicon.words := by
      have hinfix : (String.ofList w.spelling).toList <:+: text := by
        rw [String.toList_ofList]
        exact hw.isInfix.trans hcs.isInfix
      rw [mem_words_iff, mem_words_iff, (hs _ hinfix).kindOf?]
    refine Option.ext fun w => ?_
    rw [Lexicon.word?_eq_some_iff g.ordered_words, Lexicon.word?_eq_some_iff h.ordered_words]
    constructor
    · rintro ⟨hw, hp, hlongest⟩
      exact ⟨(hmem hp).mp hw, hp, fun v hv hvp => hlongest v ((hmem hvp).mpr hv) hvp⟩
    · rintro ⟨hw, hp, hlongest⟩
      exact ⟨(hmem hp).mpr hw, hp, fun v hv hvp => hlongest v ((hmem hvp).mp hv) hvp⟩
  label w hw := by
    have hinfix : (String.ofList w.spelling).toList <:+: text := by rwa [String.toList_ofList]
    rw [announcesLabel_lexicon, announcesLabel_lexicon, (hs _ hinfix).command]

end CalcSyntax
