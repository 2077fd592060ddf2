import Reckon.Proofs.RoundTrip
import Reckon.Proofs.Wraparound

/-!
# The number that digits denote

A run of digits is folded from the left, and the sum wraps at every digit. What the digits
denote is said here by their places instead: a digit counts as often as the power of ten that
belongs to its place, which is the number of digits behind it (`Decimal.value`). The fold never
sees places, since it does not know how many digits are still to come.

The two meet modulo `2⁶⁴` and nowhere else, because a run may be of any length. So the word of a
run is characterized by a congruence: it is the only word that is congruent to the value of the
run. The laws of values, that a run is split at any place and that zeros in front do not count,
are then laws of words.

## Main results

* `Decimal.value_append` — the value of two runs in a row.
* `Decimal.word_eq_ofInt_value` — the word of a run is the word of its value.
* `Decimal.modEq_value_iff` — the word of a run is the only one that is congruent to its value,
  with the laws that follow for zeros in front, for runs in a row, and for written words.
-/

namespace Reckon.Decimal

/-- The number that digits denote: each counts by its place. -/
def value : List Char → Nat
  | [] => 0
  | c :: rest => digit c * 10 ^ rest.length + value rest

/-- The digits of a run count by as many places more as another run behind it has. -/
theorem value_append (ds es : List Char) :
    value (ds ++ es) = value ds * 10 ^ es.length + value es := by
  induction ds with
  | nil => rw [List.nil_append, value, Nat.zero_mul, Nat.zero_add]
  | cons c ds ih =>
      rw [List.cons_append, value, value, ih, List.length_append, Nat.pow_add, Nat.add_mul,
        Nat.mul_assoc, Nat.add_assoc]

/-- Zeros in front do not count. -/
theorem value_zeros (zeros : Nat) (ds : List Char) :
    value (List.replicate zeros '0' ++ ds) = value ds := by
  induction zeros with
  | zero => rfl
  | succ zeros ih =>
      have hzero : digit '0' = 0 := rfl
      rw [List.replicate_succ, List.cons_append, value, ih, hzero, Nat.zero_mul, Nat.zero_add]

/-- Counting by places is reading from the left. -/
theorem value_eq_ofDigitChars (ds : List Char) : value ds = Nat.ofDigitChars 10 ds 0 := by
  induction ds with
  | nil => rfl
  | cons c ds ih =>
      rw [Nat.ofDigitChars_cons, Nat.ofDigitChars_eq_ofDigitChars_zero, ← ih, Nat.mul_zero,
        Nat.zero_add, Nat.mul_comm, value, digit]

/-- The word of a run is the word of its value, wherever the fold has wrapped. -/
theorem word_eq_ofInt_value (ds : List Char) : word ds = Int64.ofInt (value ds) := by
  rw [word_eq_ofNat, value_eq_ofDigitChars]
  exact Int64.ofInt_eq_ofNat.symm

/-- The word of a run of digits is the only word that is congruent to the value of the run modulo
`2⁶⁴`. So zeros in front do not change it, the words of two runs make the word of the longer run
as their values do, and every word is that of its unsigned number, as it is written. -/
theorem modEq_value_iff (ds : List Char) :
    (∀ w : Int64, w.toInt ≡ value ds [ZMOD 2 ^ 64] ↔ w = word ds) ∧
    (∀ zeros, word (List.replicate zeros '0' ++ ds) = word ds) ∧
    (∀ es, (word (ds ++ es)).toInt ≡
      (word ds).toInt * 10 ^ es.length + (word es).toInt [ZMOD 2 ^ 64]) ∧
    ∀ n : Int64, word (ofNat n.toUInt64.toNat).toList = n := by
  have hword : ∀ ds, (word ds).toInt ≡ value ds [ZMOD 2 ^ 64] := fun ds =>
    modEq_iff_eq_ofInt.mpr (word_eq_ofInt_value ds)
  refine ⟨fun w => ?_, fun zeros => ?_, fun es => ?_, fun n => ?_⟩
  · rw [word_eq_ofInt_value]
    exact modEq_iff_eq_ofInt
  · rw [word_eq_ofInt_value, value_zeros, ← word_eq_ofInt_value]
  · calc (word (ds ++ es)).toInt
        ≡ (value (ds ++ es) : Nat) [ZMOD 2 ^ 64] := hword (ds ++ es)
      _ = (value ds : Int) * 10 ^ es.length + value es := by
        rw [value_append]
        push_cast
        rfl
      _ ≡ (word ds).toInt * 10 ^ es.length + (word es).toInt [ZMOD 2 ^ 64] :=
        ((hword ds).symm.mul_right _).add (hword es).symm
  · have hzeros := ofNat_ofDigitChars_zeros 0 n
    rwa [word_eq_ofNat]

/-- The least number that does not fit is the least word, and with it the unsigned numbers of the
words below zero begin. -/
example : word "9223372036854775808".toList = Int64.minValue ∧
    word "18446744073709551615".toList = -1 := by
  decide +kernel

end Reckon.Decimal
