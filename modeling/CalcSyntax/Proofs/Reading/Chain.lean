import CalcSyntax.Proofs.Expr.Chain
import CalcSyntax.Proofs.Reading.Answers
import CalcSyntax.Proofs.Reading.Relocation

/-!
# Chain — reading by levels finds the loosest operator

The loop of an expression goes along a chain once, from the front, and knows a least
level and nothing else. The tree that it builds is the one that is told from the loosest
operator of the whole chain.

The tree fits, and so it is read from its own tokens. They are those of the chain, at no
place in particular, and reading does not look at places.

## What is proved

`Setting.expression_chain` — the chain is read to its end as its tree. It may have as
many operators as there are levels to open. If all of them are read from the left, there
is no bound.
-/

set_option autoImplicit false

namespace CalcSyntax

/-- What is read elsewhere, up to a place, is read here up to that place. -/
theorem Rule.run_of_carries {φ : Span → Span} {α : Type} {x y : Rule α} (h : Carries φ id x y)
    {ts rest : List Token} {a : α}
    (hrun : y.run ((ts ++ rest).map (Token.relocate φ)) =
      .ok a (rest.map (Token.relocate φ))) :
    x.run (ts ++ rest) = .ok a rest := by
  have hsuffix := x.rest_suffix (ts ++ rest)
  rw [h (ts ++ rest)] at hrun
  cases ho : x.run (ts ++ rest) with
  | fail fault behind => rw [ho] at hrun; cases hrun
  | ok b behind =>
    rw [ho] at hrun hsuffix
    obtain ⟨rfl, hrest⟩ := Outcome.ok.inj hrun
    have hlen : behind.length = rest.length := by simpa using congrArg List.length hrest
    have hbehind : behind <:+ rest :=
      List.suffix_of_suffix_length_le hsuffix (List.suffix_append ts rest) (Nat.le_of_eq hlen)
    rw [hbehind.eq_of_length hlen]
    rfl

namespace Setting

variable (s : Setting) {first : Token} {links : List Link} {rest : List Token}

/-- **Climbing finds the loosest operator.** A chain of leaves and infix operators, where
operators of one level are read the same way, is read to its end as the tree that is told
from its loosest operator, with as many operators as there are levels to open. If all of them
are read from the left, any number will do. -/
theorem expression_chain (hfirst : first.kind.isLeaf = true)
    (hlinks : AreLinks s.grammar links)
    (hlevels : links.length ≤ 127 ∨
      ∀ l ∈ links, l.associativity s.grammar.operators = .left)
    (hrest : (s.front rest).kind ≠ .operator) :
    (s.expression maxNesting Level.lowest.rank).run (chainTokens first links ++ rest) =
      .ok (chainTree s.grammar.operators first links) rest := by
  let φ : Span → Span := fun _ => .origin
  have hsplit : IsSplit s.grammar.operators first links
      (chainTree s.grammar.operators first links) := isSplit_chainTree hlinks.agree
  have henough : (chainTree s.grammar.operators first links).levels ≤ maxNesting := by
    rw [Expr.levels, maxNesting]
    rcases hlevels with hlen | hleft
    · have hle := hsplit.nested_le_length
      omega
    · have hle := hsplit.nested_le_of_left hleft 0 (Nat.zero_le _) fun _ _ => Nat.zero_le _
      rw [Level.rank] at hle
      omega
  have hfront : ((s.relocate φ).front (rest.map (Token.relocate φ))).kind ≠ .operator := by
    rw [front_relocate]
    exact hrest
  have hread := ((s.relocate φ).rereads (hsplit.fits hlinks)).before _
    (rest.map (Token.relocate φ)) hfront maxNesting
  refine Rule.run_of_carries (carries_expression φ s maxNesting Level.lowest.rank) ?_
  rw [List.map_append, ← hsplit.tokens_eq hfirst hlinks]
  exact hread.enough henough

/-- The calculator with powers that are read from the right. -/
def rightPowers : Setting :=
  ⟨Grammar.calculator.registerOperator ⟨"^", .infixOp, .exponentiation, .right⟩, .origin⟩

/-- An operator of a chain and a number behind it. -/
def numberLink (operator number : String) : Link :=
  ⟨.bare .operator operator, .bare .integer number⟩

/-- The links of `9 - 8 ^ 7 ^ 6 - 5`, behind the first number. -/
def mixedLinks : List Link :=
  [numberLink "-" "8", numberLink "^" "7", numberLink "^" "6", numberLink "-" "5"]

/-- Powers are taken together from the right and differences from the left, and a thousand
differences are no deeper than one. -/
theorem expression_chain_rightPowers :
    (rightPowers.expression maxNesting Level.lowest.rank).run
        (chainTokens (.bare .integer "9") mixedLinks) =
      .ok (.binary (.binary (.literal .integer "9") "-" (.binary (.literal .integer "8") "^"
        (.binary (.literal .integer "7") "^" (.literal .integer "6")))) "-"
        (.literal .integer "5")) [] ∧
    (rightPowers.expression maxNesting Level.lowest.rank).run
        (chainTokens (.bare .integer "9") (List.replicate 1000 (numberLink "-" "1"))) =
      .ok (chainTree rightPowers.grammar.operators (.bare .integer "9")
        (List.replicate 1000 (numberLink "-" "1"))) [] := by
  have hmixed : AreLinks rightPowers.grammar mixedLinks := by
    constructor <;> decide +kernel
  have hleft : (numberLink "-" "1").associativity rightPowers.grammar.operators = .left := by
    decide +kernel
  have hsame : ∀ l ∈ List.replicate 1000 (numberLink "-" "1"), l = numberLink "-" "1" :=
    fun _ hl => List.eq_of_mem_replicate hl
  have hlong : AreLinks rightPowers.grammar (List.replicate 1000 (numberLink "-" "1")) := by
    refine ⟨fun l hl => ?_, fun l hl => ?_, fun l hl m hm _ => ?_⟩
    · rw [hsame l hl]
      decide +kernel
    · rw [hsame l hl]
      rfl
    · rw [hsame l hl, hsame m hm]
  have hend : (rightPowers.front []).kind ≠ .operator := by decide
  have htree : chainTree rightPowers.grammar.operators (.bare .integer "9") mixedLinks =
      .binary (.binary (.literal .integer "9") "-" (.binary (.literal .integer "8") "^"
        (.binary (.literal .integer "7") "^" (.literal .integer "6")))) "-"
        (.literal .integer "5") := by
    decide +kernel
  constructor
  · rw [← htree, ← List.append_nil (chainTokens _ _)]
    exact rightPowers.expression_chain rfl hmixed (.inl (by decide)) hend
  · rw [← List.append_nil (chainTokens _ _)]
    refine rightPowers.expression_chain rfl hlong (.inr fun l hl => ?_) hend
    rw [hsame l hl]
    exact hleft

end Setting

end CalcSyntax
