/-!
# Tiers of binding strength

How a formula groups is decided by six tiers, from the loosest to the tightest:
`||`, `&&`, the comparisons, `+` and `-`, `*` `/` and `%`, and last the operands
themselves: numbers, names and parentheses. The operands have a tier because "what
binds more tightly than `*`" has to have an answer.

Tiers are ordered by tightness. The order is that of their ranks, so that questions
about it are questions about small numbers.
-/

namespace Reckon

/-- The tiers of binding strength, from the loosest to the tightest. -/
inductive Tier
  | disjunction
  | conjunction
  | comparison
  | additive
  | multiplicative
  | primary
deriving DecidableEq

namespace Tier

/-- The place of a tier in the order of tightness. -/
def rank : Tier → Nat
  | disjunction => 0
  | conjunction => 1
  | comparison => 2
  | additive => 3
  | multiplicative => 4
  | primary => 5

/-- `s ≤ t` says that `t` binds at least as tightly as `s`. -/
instance : LE Tier := ⟨fun s t => s.rank ≤ t.rank⟩

/-- `s < t` says that `t` binds more tightly than `s`. -/
instance : LT Tier := ⟨fun s t => s.rank < t.rank⟩

instance (s t : Tier) : Decidable (s ≤ t) := inferInstanceAs (Decidable (s.rank ≤ t.rank))

instance (s t : Tier) : Decidable (s < t) := inferInstanceAs (Decidable (s.rank < t.rank))

theorem le_iff_rank_le {s t : Tier} : s ≤ t ↔ s.rank ≤ t.rank := Iff.rfl

/-- The operands of a tier's operators are phrases of the next tier up. -/
def tighter : Tier → Tier
  | disjunction => conjunction
  | conjunction => comparison
  | comparison => additive
  | additive => multiplicative
  | multiplicative => primary
  | primary => primary

/-- Every tier binds at least as tightly as disjunction. -/
@[simp] theorem disjunction_le (t : Tier) : disjunction ≤ t := Nat.zero_le _

/-- No tier binds more tightly than the operands do. -/
@[simp] theorem le_primary (t : Tier) : t ≤ primary := by
  cases t <;> decide

/-- Below the operands, the next tier up is the least one that is tighter. -/
theorem tighter_le_iff_lt {s t : Tier} (h : s ≠ primary) : s.tighter ≤ t ↔ s < t := by
  cases s <;> first | exact absurd rfl h | exact Iff.rfl

end Tier

end Reckon
