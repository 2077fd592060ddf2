/-!
# Decimal text of words

Numbers are 64-bit words, but their text is decimal and of any length, so the
two directions are not inverse to each other: a run of digits is folded into a
word modulo `2⁶⁴` and read as a signed number, while a word is written as the
shortest signed decimal. The fold wraps at every digit, and since `x ↦ 10 x + d`
respects congruence modulo `2⁶⁴`, where it wraps makes no difference to the word
that comes out.

`ofNat` and `ofInt` are the only places where this library turns a number into
text; every message, trace field and written value goes through them.

## Main results

- `toDigits_inj`: digits tell numbers apart, in any base up to sixteen.
- `ofNat_inj`, `ofInt_inj`: numbers are told apart by their text.
-/

namespace Reckon.Decimal

/-- The weight of a digit character: its distance from `'0'`. -/
def digit (c : Char) : Nat :=
  c.toNat - '0'.toNat

/-- The magnitude of a run of digits, modulo `2⁶⁴`. -/
def magnitude (digits : List Char) : UInt64 :=
  digits.foldl (fun sum c => sum * 10 + (digit c).toUInt64) 0

/-- The word that a run of digits denotes: its magnitude modulo `2⁶⁴`, read as
a signed number, so `9223372036854775808` is the least word. -/
def word (digits : List Char) : Int64 :=
  (magnitude digits).toInt64

/-- The shortest decimal text of a natural number. -/
def ofNat (n : Nat) : String :=
  String.ofList (Nat.toDigits 10 n)

/-- The shortest decimal text of an integer, with a leading `-` below zero. -/
def ofInt : Int → String
  | .ofNat n => ofNat n
  | .negSucc n => "-" ++ ofNat (n + 1)

/-- Appending one digit scales what was read by ten and adds the digit. -/
theorem magnitude_concat (digits : List Char) (c : Char) :
    magnitude (digits ++ [c]) = magnitude digits * 10 + (digit c).toUInt64 := by
  simp [magnitude]

@[simp] theorem toList_ofNat (n : Nat) : (ofNat n).toList = Nat.toDigits 10 n := by
  simp [ofNat]

/-- The text of a natural number consists of digits only. -/
theorem isDigit_of_mem_ofNat {n : Nat} {c : Char} (h : c ∈ (ofNat n).toList) :
    c.isDigit := by
  rw [toList_ofNat] at h
  exact Nat.isDigit_of_mem_toDigits (by decide) (by decide) h

/-! ## Numbers are told apart by their text -/

/-- Digits up to the sixteenth are told apart. -/
private theorem digitChar_inj : ∀ m < 16, ∀ n < 16, Nat.digitChar m = Nat.digitChar n → m = n := by
  decide

/-- Numbers are told apart by their digits, decimal or hexadecimal. -/
theorem toDigits_inj {base : Nat} (hbase : 1 < base) (hle : base ≤ 16) {m n : Nat}
    (h : Nat.toDigits base m = Nat.toDigits base n) : m = n := by
  have hlt : ∀ k, k % base < 16 := fun k => Nat.lt_of_lt_of_le (Nat.mod_lt k (by omega)) hle
  induction m using Nat.strongRecOn generalizing n with
  | ind m ih =>
      -- One digit is never the same as several, since there is a digit before the last.
      rcases Nat.lt_or_ge m base with hm | hm
      · rw [Nat.toDigits_of_lt_base hm] at h
        rcases Nat.lt_or_ge n base with hn | hn
        · rw [Nat.toDigits_of_lt_base hn] at h
          exact digitChar_inj m (by omega) n (by omega) (List.singleton_inj.mp h)
        · rw [Nat.toDigits_of_base_le hbase hn] at h
          have hlength := congrArg List.length h
          simp [Nat.toDigits_ne_nil] at hlength
      · rw [Nat.toDigits_of_base_le hbase hm] at h
        rcases Nat.lt_or_ge n base with hn | hn
        · rw [Nat.toDigits_of_lt_base hn] at h
          have hlength := congrArg List.length h
          simp [Nat.toDigits_ne_nil] at hlength
        · rw [Nat.toDigits_of_base_le hbase hn, List.append_singleton_inj] at h
          have hdiv : m / base = n / base := ih _ (Nat.div_lt_self (by omega) hbase) h.1
          have hmod : m % base = n % base := digitChar_inj _ (hlt m) _ (hlt n) h.2
          rw [← Nat.div_add_mod m base, ← Nat.div_add_mod n base, hdiv, hmod]

theorem ofNat_inj {m n : Nat} (h : ofNat m = ofNat n) : m = n := by
  rw [← String.toList_inj, toList_ofNat, toList_ofNat] at h
  exact toDigits_inj (by decide) (by decide) h

/-- Integers are told apart by their text. -/
theorem ofInt_inj {m n : Int} (h : ofInt m = ofInt n) : m = n := by
  -- A number that is not negative begins with a digit, and the sign is none.
  have hsign : ∀ k l, ofNat k ≠ "-" ++ ofNat l := by
    intro k l h
    have hmem : '-' ∈ (ofNat k).toList := by
      rw [h, String.toList_append]
      exact List.mem_append_left _ (by decide)
    exact absurd (isDigit_of_mem_ofNat hmem) (by decide)
  cases m with
  | ofNat m =>
      cases n with
      | ofNat n => exact congrArg Int.ofNat (ofNat_inj h)
      | negSucc n => exact absurd h (hsign m (n + 1))
  | negSucc m =>
      cases n with
      | ofNat n => exact absurd h.symm (hsign n (m + 1))
      | negSucc n =>
          have hsucc : m + 1 = n + 1 := ofNat_inj ((String.append_right_inj "-").mp h)
          exact congrArg Int.negSucc (Nat.succ.inj hsucc)

end Reckon.Decimal
