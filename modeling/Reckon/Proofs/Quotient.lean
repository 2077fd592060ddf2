import Mathlib.Data.Rat.Floor
import Reckon.Proofs.Denotation

/-!
# Quotients and remainders

On the integers a quotient and its remainder put their dividend together again, and the
quotient is the exact one, cut off toward zero. On words there is one pair of operands where
the second half of this fails: the least word divided by minus one is the exact quotient
`2⁶³`, which is no word. The first half holds there as well, and for a reason that needs no
case distinction: words are integers modulo `2⁶⁴`, taking an integer to its word respects
sums and products, and `q * r + m = l` is made of these only.

## Main results

* `truncated_div` — `Int.tdiv` is the exact quotient, cut off toward zero.
* `BinOp.exists_compute_eq_ok_iff` — an operator has a value unless it divides by zero.
* `div_mul_add_mod` — the quotient times the divisor, plus the remainder, is the dividend.
* `toInt_div_eq_truncated` — but for one pair of operands, the quotient is the exact one, cut
  off toward zero.
* `BinOp.compute_div_rem` — how the two operators that divide fit together.
-/

namespace Reckon

/-- A fraction cut off toward zero: the nearest integer that is not farther from zero. -/
def truncated (x : ℚ) : ℤ :=
  if 0 ≤ x then ⌊x⌋ else ⌈x⌉

theorem truncated_neg (x : ℚ) : truncated (-x) = -truncated x := by
  unfold truncated
  rcases lt_trichotomy x 0 with hneg | rfl | hpos
  · rw [if_pos (by linarith), if_neg (by linarith), Int.floor_neg]
  · simp
  · rw [if_neg (by linarith), if_pos hpos.le, Int.ceil_neg]

/-- By a natural number, a quotient is cut off toward zero. -/
private theorem truncated_div_natCast (a : ℤ) (n : ℕ) :
    truncated ((a : ℚ) / (n : ℚ)) = a.tdiv n := by
  have hnonneg : ∀ b : ℤ, 0 ≤ b → truncated ((b : ℚ) / (n : ℚ)) = b.tdiv n := by
    intro b hb
    have hquotient : (0 : ℚ) ≤ (b : ℚ) / (n : ℚ) := by positivity
    unfold truncated
    rw [if_pos hquotient, Rat.floor_intCast_div_natCast, Int.tdiv_eq_ediv_of_nonneg hb]
  by_cases ha : 0 ≤ a
  · exact hnonneg a ha
  · have hopposite := hnonneg (-a) (by omega)
    rw [Int.neg_tdiv, Int.cast_neg, neg_div, truncated_neg] at hopposite
    omega

/-- The integer quotient is the exact quotient, cut off toward zero. -/
theorem truncated_div (a b : ℤ) : truncated ((a : ℚ) / (b : ℚ)) = a.tdiv b := by
  obtain ⟨n, rfl | rfl⟩ := b.eq_nat_or_neg
  · exact truncated_div_natCast a n
  · rw [Int.cast_neg, div_neg, truncated_neg, Int.tdiv_neg, Int.cast_natCast,
      truncated_div_natCast]

/-! ## Words -/

/-- The quotient times the divisor, plus the remainder, is the dividend, also where the
quotient wraps. -/
theorem div_mul_add_mod (l r : Int64) : l / r * r + l % r = l := by
  have hquotient : l / r = Int64.ofInt (l.toInt.tdiv r.toInt) :=
    Int64.toInt_inj.mp (by rw [Int64.toInt_div, Int64.toInt_ofInt])
  have hremainder : l % r = Int64.ofInt (l.toInt.tmod r.toInt) := by
    rw [← Int64.toInt_mod, Int64.ofInt_toInt]
  calc l / r * r + l % r
      = Int64.ofInt (l.toInt.tdiv r.toInt) * Int64.ofInt r.toInt +
          Int64.ofInt (l.toInt.tmod r.toInt) := by rw [hquotient, hremainder, Int64.ofInt_toInt]
    _ = Int64.ofInt (l.toInt.tdiv r.toInt * r.toInt + l.toInt.tmod r.toInt) := by
          rw [Int64.ofInt_add, Int64.ofInt_mul]
    _ = l := by rw [Int.tdiv_mul_add_tmod, Int64.ofInt_toInt]

/-- A remainder is smaller than its divisor. -/
private theorem abs_toInt_mod_lt {l r : Int64} (hr : r ≠ 0) : |(l % r).toInt| < |r.toInt| := by
  have hdivisor : 0 < r.toInt.natAbs := Int.natAbs_pos.mpr ((toInt_ne_zero_iff r).mp hr)
  have hremainder : (l % r).toInt.natAbs < r.toInt.natAbs := by
    rw [Int64.toInt_mod, Int.natAbs_tmod]
    exact Nat.mod_lt _ hdivisor
  rw [Int.abs_eq_natAbs, Int.abs_eq_natAbs]
  exact Int.ofNat_lt.mpr hremainder

/-- A remainder has the sign of its dividend, unless it is zero. -/
private theorem sign_toInt_mod (l r : Int64) :
    l % r = 0 ∨ (l % r).toInt.sign = l.toInt.sign := by
  by_cases hdvd : r.toInt ∣ l.toInt
  · left
    exact Int64.toInt_inj.mp (by rw [Int64.toInt_mod, Int.tmod_eq_zero_of_dvd hdvd,
      Int64.toInt_zero])
  · right
    rw [Int64.toInt_mod, Int.sign_tmod, if_neg hdvd]

/-- Unless the least word is divided by minus one, the quotient is the exact one, cut off
toward zero. -/
theorem toInt_div_eq_truncated {l r : Int64} (h : ¬ (l = Int64.minValue ∧ r = -1)) :
    (l / r).toInt = truncated ((l.toInt : ℚ) / (r.toInt : ℚ)) := by
  rw [truncated_div]
  by_cases hl : l = Int64.minValue
  · exact Int64.toInt_div_of_ne_right l r fun hr => h ⟨hl, hr⟩
  · exact Int64.toInt_div_of_ne_left l r hl

namespace BinOp

/-- An operator has a value unless it divides and its right operand is zero. -/
theorem exists_compute_eq_ok_iff {op : BinOp} {l r : Int64} {span : Span} :
    (∃ value, op.compute l r span = .ok value) ↔ ¬ (op.divides ∧ r = 0) := by
  have hundefined : op.undefinedAt r = true ↔ op.divides ∧ r = 0 := by simp [undefinedAt]
  by_cases h : op.undefinedAt r = true
  · simp [compute, h, ← hundefined]
  · simp [compute, h, ← hundefined]

/-- Quotient and remainder fit together at every pair of operands. By zero neither is defined,
and the fault names the operator and its place; no other operator fails at all. Otherwise the
quotient times the divisor, plus the remainder, is the dividend, the remainder is smaller than
the divisor and has the sign of the dividend unless it is zero, and the quotient is the exact
one, cut off toward zero. There is one exception to the last: the least word divided by minus
one is the least word, with no remainder. -/
theorem compute_div_rem (l r : Int64) (span : Span) :
    (r = 0 → ∀ op, op = div ∨ op = rem → op.compute l r span = .error (.zeroDivisor op span)) ∧
    (∀ op, op ≠ div → op ≠ rem → ∃ value, op.compute l r span = .ok value) ∧
    (r ≠ 0 → ∃ q m,
      div.compute l r span = .ok q ∧
      rem.compute l r span = .ok m ∧
      (mul.compute q r span >>= fun product => add.compute product m span) = .ok l ∧
      |m.toInt| < |r.toInt| ∧
      (m = 0 ∨ m.toInt.sign = l.toInt.sign) ∧
      (¬ (l = Int64.minValue ∧ r = -1) → q.toInt = truncated ((l.toInt : ℚ) / (r.toInt : ℚ))) ∧
      (l = Int64.minValue ∧ r = -1 → q = Int64.minValue ∧ m = 0)) := by
  refine ⟨?_, ?_, ?_⟩
  · rintro rfl op (rfl | rfl) <;> rfl
  · intro op hdiv hrem
    refine exists_compute_eq_ok_iff.mpr fun h => ?_
    exact (divides_iff.mp h.1).elim hdiv hrem
  · intro hr
    have hdefined : ∀ op : BinOp, op.compute l r span = .ok (op.apply l r) := by
      intro op
      exact if_neg (by simp [undefinedAt, hr])
    refine ⟨l / r, l % r, hdefined div, hdefined rem, ?_, abs_toInt_mod_lt hr,
      sign_toInt_mod l r, toInt_div_eq_truncated, ?_⟩
    · show Except.ok (l / r * r + l % r) = Except.ok l
      rw [div_mul_add_mod]
    · -- The exception is a single pair of words, for which both operators are computed.
      rintro ⟨rfl, rfl⟩
      decide

/-- The least word divided by minus one. -/
theorem compute_div_rem_leastByMinusOne :
    (-1 : Int64) ≠ 0 ∧
      div.compute Int64.minValue (-1) ⟨4, 5⟩ = .ok Int64.minValue ∧
      rem.compute Int64.minValue (-1) ⟨4, 5⟩ = .ok 0 ∧
      (mul.compute Int64.minValue (-1) ⟨4, 5⟩ >>= fun product => add.compute product 0 ⟨4, 5⟩) =
        .ok Int64.minValue := by
  have hne : (-1 : Int64) ≠ 0 := by decide
  obtain ⟨q, m, hdiv, hrem, hsum, -, -, -, hcorner⟩ :=
    (compute_div_rem Int64.minValue (-1) ⟨4, 5⟩).2.2 hne
  obtain ⟨rfl, rfl⟩ := hcorner ⟨rfl, rfl⟩
  exact ⟨hne, hdiv, hrem, hsum⟩

end BinOp

end Reckon
