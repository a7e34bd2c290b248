import CalcSyntax.Proofs.Grammar.Lexicon

/-!
# Growth — a word in front of another text

A word that was read in one place need not be read in another. What follows may
go on with it: a longer number may begin where the word begins, or a longer word
of the grammar. Nothing else can happen. A word is read wherever it stands, unless
it is outgrown there (`Grammar.ReadsWord.iff_staysWhole`).

Numbers go before words, so a number is outgrown by longer numbers alone.
-/

set_option autoImplicit false

namespace CalcSyntax

/-- A word is not empty, and holds nothing that would separate it from another. -/
structure Token.IsClear (t : Token) : Prop where
  nonempty : t.lexeme ≠ ""
  clear : ∀ c ∈ t.lexeme.toList, isBlank c = false ∧ isBreak c = false

theorem Token.IsClear.exists_cons {t : Token} (h : t.IsClear) : ∃ c cs,
    t.lexeme.toList = c :: cs ∧ isBlank c = false ∧ c ≠ '\n' ∧ c ≠ ':' := by
  obtain ⟨c, cs, hc⟩ := List.exists_cons_of_ne_nil fun hnil =>
    h.nonempty (String.toList_eq_nil_iff.mp hnil)
  obtain ⟨hblank, hbreak⟩ := h.clear c (hc ▸ List.mem_cons_self)
  refine ⟨c, cs, hc, hblank, ?_, ?_⟩ <;> rintro rfl <;> exact absurd hbreak (by decide)

/-- A spelling begins where the word does and reaches into the text behind it. -/
structure Token.IsOutgrownBy (t : Token) (behind spelling : List Char) : Prop where
  begins : t.lexeme.toList <+: spelling
  stands : spelling <+: t.lexeme.toList ++ behind
  longer : spelling ≠ t.lexeme.toList

/-- In front of a text the word is not outgrown: not by a number, and unless it is a number
itself not by a word of the grammar. -/
structure Token.StaysWhole (g : Grammar) (t : Token) (behind : List Char) : Prop where
  numeral : ∀ v, Numeral.IsNumeral v → ¬ t.IsOutgrownBy behind v.spelling
  word : t.kind ≠ .integer → t.kind ≠ .float →
    ∀ v ∈ g.lexicon.words, ¬ t.IsOutgrownBy behind v.spelling

/-- Whatever stands at the front and does not outgrow the word is a part of it. -/
theorem Token.isPrefix_of_not_outgrown {t : Token} {behind spelling : List Char}
    (hp : spelling <+: t.lexeme.toList ++ behind) (h : ¬ t.IsOutgrownBy behind spelling) :
    spelling <+: t.lexeme.toList := by
  rcases List.prefix_or_prefix_of_prefix hp (List.prefix_append _ _) with hle | hge
  · exact hle
  · have he : spelling = t.lexeme.toList := Decidable.not_not.mp fun hne => h ⟨hge, hp, hne⟩
    exact he ▸ List.prefix_rfl

/-- The word is read where it stands in front of a text. -/
def Grammar.ReadsWord (g : Grammar) (t : Token) (behind : List Char) : Prop :=
  g.lexicon.read false (t.lexeme.toList ++ behind) = .ok ⟨t.lexeme.toList, t.kind⟩

namespace Lexicon

variable {lx : Lexicon} {c : Char} {cs : List Char} {w : Word}

/-- The ways to read a word where no statement ends and no label is awaited. -/
theorem readPlain_eq_ok_iff : lx.readPlain c cs = .ok w ↔
    numeral? (c :: cs) = some w ∨
      numeral? (c :: cs) = none ∧ c ≠ '.' ∧
        (lx.word? (c :: cs) = some w ∨
          lx.word? (c :: cs) = none ∧ c.isUpper = true ∧ w = ⟨[c], .var⟩) := by
  unfold readPlain
  cases hn : numeral? (c :: cs) with
  | some v => simp
  | none =>
    by_cases hc : c = '.'
    · simp [hc]
    · cases hw : lx.word? (c :: cs) with
      | some v => simp [hc]
      | none => by_cases hu : c.isUpper = true <;> simp [hc, hu, eq_comm]

theorem word?_eq_none_iff : lx.word? cs = none ↔ ∀ v ∈ lx.words, ¬ v.spelling <+: cs := by
  simp [word?, List.find?_eq_none]

/-- In front of something that is neither a blank nor a terminator, numbers and words are
looked for. -/
theorem read_eq_readPlain (hblank : isBlank c = false) (hn : c ≠ '\n') (hc : c ≠ ':')
    (cs : List Char) : lx.read false (c :: cs) = lx.readPlain c cs := by
  rw [read, terminator?_eq_none hblank hn hc]
  rfl

end Lexicon

namespace Grammar

variable {g : Grammar}

/-- No word of a grammar makes a number. -/
theorem kind_ne_of_mem_words {w : Word} (h : w ∈ g.lexicon.words) :
    w.kind ≠ .integer ∧ w.kind ≠ .float := by
  rcases mem_spellings_iff.mp (Word.mem_enterAll h) with
    ⟨d, _, rfl⟩ | ⟨d, _, rfl⟩ | ⟨d, _, rfl⟩ | ⟨name, _, rfl⟩ | hp
  · exact ⟨nofun, nofun⟩
  · exact ⟨nofun, nofun⟩
  · exact ⟨nofun, nofun⟩
  · exact ⟨nofun, nofun⟩
  · have key : ∀ w ∈ punctuation, w.kind ≠ .integer ∧ w.kind ≠ .float := by decide
    exact key w hp

variable {t : Token} {c : Char} {cs behind other : List Char}

/-- Where nothing ends, reading a word comes to one of the ways to find it. -/
theorem readsWord_iff (ht : t.lexeme.toList = c :: cs) (hblank : isBlank c = false)
    (hn : c ≠ '\n') (hc : c ≠ ':') : g.ReadsWord t behind ↔
      numeral? (t.lexeme.toList ++ behind) = some ⟨t.lexeme.toList, t.kind⟩ ∨
        numeral? (t.lexeme.toList ++ behind) = none ∧ c ≠ '.' ∧
          (g.lexicon.word? (t.lexeme.toList ++ behind) = some ⟨t.lexeme.toList, t.kind⟩ ∨
            g.lexicon.word? (t.lexeme.toList ++ behind) = none ∧ c.isUpper = true ∧
              (⟨t.lexeme.toList, t.kind⟩ : Word) = ⟨[c], .var⟩) := by
  rw [ReadsWord, ht, List.cons_append, Lexicon.read_eq_readPlain hblank hn hc]
  exact Lexicon.readPlain_eq_ok_iff

/-- A word that is read is not outgrown. -/
theorem ReadsWord.staysWhole (ht : t.IsClear) (h : g.ReadsWord t behind) :
    t.StaysWhole g behind := by
  obtain ⟨c, cs, ht, hblank, hn, hc⟩ := ht.exists_cons
  have hequal {spelling : List Char} (hout : t.IsOutgrownBy behind spelling) :
      ¬ spelling <+: t.lexeme.toList := fun hp =>
    hout.longer (hp.eq_of_length_le hout.begins.length_le)
  rcases (readsWord_iff ht hblank hn hc).mp h with hnum | ⟨hnone, _, hword | ⟨hword, _, _⟩⟩
  · obtain ⟨hw, _, hmax⟩ := numeral?_eq_some_iff.mp hnum
    refine ⟨fun v hv hout => hequal hout (hmax v hv hout.stands), fun hi hf => ?_⟩
    rcases hw with ⟨hk, _⟩ | ⟨hk, _⟩
    · exact absurd hk hi
    · exact absurd hk hf
  · obtain ⟨_, _, hmax⟩ := (Lexicon.word?_eq_some_iff g.ordered_words).mp hword
    exact ⟨fun v hv hout => numeral?_eq_none_iff.mp hnone v hv hout.stands,
      fun _ _ v hv hout => hequal hout (hmax v hv hout.stands)⟩
  · exact ⟨fun v hv hout => numeral?_eq_none_iff.mp hnone v hv hout.stands,
      fun _ _ v hv hout => Lexicon.word?_eq_none_iff.mp hword v hv hout.stands⟩

/-- A word that is read in front of one text, and is not outgrown by another, is read in front of
that. -/
theorem ReadsWord.of_staysWhole (ht : t.IsClear) (h : g.ReadsWord t other)
    (hwhole : t.StaysWhole g behind) : g.ReadsWord t behind := by
  obtain ⟨c, cs, ht, hblank, hn, hc⟩ := ht.exists_cons
  have hother {spelling : List Char} (hp : spelling <+: t.lexeme.toList) :
      spelling <+: t.lexeme.toList ++ other := hp.trans (List.prefix_append _ _)
  have hnone (hnone : numeral? (t.lexeme.toList ++ other) = none) :
      numeral? (t.lexeme.toList ++ behind) = none := by
    refine numeral?_eq_none_iff.mpr fun v hv hp => ?_
    have hle := Token.isPrefix_of_not_outgrown hp (hwhole.numeral v hv)
    exact numeral?_eq_none_iff.mp hnone v hv (hother hle)
  rw [readsWord_iff ht hblank hn hc] at h ⊢
  rcases h with hnum | ⟨hno, hpoint, hword | ⟨hword, hupper, he⟩⟩
  · have hw := isNumeral_of_numeral? hnum
    obtain ⟨n, hn', hle⟩ := exists_numeral?_append hw behind
    have hnumeral := isNumeral_of_numeral? hn'
    have hge := Token.isPrefix_of_not_outgrown (Numeral.numeral?_eq_some hn').1
      (hwhole.numeral n hnumeral)
    have hspelling : n.spelling = t.lexeme.toList := hge.eq_of_length_le hle.length_le
    exact .inl (hnumeral.eq_of_spelling hw hspelling ▸ hn')
  · have hmem := ((Lexicon.word?_eq_some_iff g.ordered_words).mp hword).1
    obtain ⟨hi, hf⟩ := kind_ne_of_mem_words hmem
    refine .inr ⟨hnone hno, hpoint, .inl ?_⟩
    refine (Lexicon.word?_eq_some_iff g.ordered_words).mpr ⟨hmem, List.prefix_append _ _, ?_⟩
    exact fun v hv hp => Token.isPrefix_of_not_outgrown hp (hwhole.word hi hf v hv)
  · have hkind : t.kind = .var := congrArg Word.kind he
    refine .inr ⟨hnone hno, hpoint, .inr ⟨Lexicon.word?_eq_none_iff.mpr fun v hv hp => ?_,
      hupper, he⟩⟩
    have hout := hwhole.word (by rw [hkind]; decide) (by rw [hkind]; decide) v hv
    have hle := Token.isPrefix_of_not_outgrown hp hout
    exact Lexicon.word?_eq_none_iff.mp hword v hv (hother hle)

/-- **A word that is read in front of one text is read in front of another exactly if it is not
outgrown there.** -/
theorem ReadsWord.iff_staysWhole (ht : t.IsClear) (h : g.ReadsWord t other) :
    g.ReadsWord t behind ↔ t.StaysWhole g behind :=
  ⟨staysWhole ht, h.of_staysWhole ht⟩

end Grammar

end CalcSyntax
