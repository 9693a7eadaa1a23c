import Mathlib.Data.Nat.Bitwise

/-!
# KvmHost.Lib.Masks

Masks of machine words as arithmetic: keeping the bits from `k` on, clearing one bit, and setting
bits below `k` of a multiple of `2 ^ k`.
-/

namespace Masks

theorem testBit_of_lt {x n i : Nat} (hx : x < 2 ^ n) (hi : n ≤ i) : x.testBit i = false :=
  Nat.testBit_lt_two_pow (Nat.lt_of_lt_of_le hx (Nat.pow_le_pow_right (by decide) hi))

/-- Bits are added to a word that has none of them. -/
theorem or_low {v o k : Nat} (hv : v % 2 ^ k = 0) (ho : o < 2 ^ k) : v ||| o = v + o := by
  obtain ⟨q, rfl⟩ := Nat.dvd_of_mod_eq_zero hv
  rw [Nat.two_pow_add_eq_or_of_lt ho]

/-- `x & ~(2 ^ k - 1)` for an `n`-bit word. -/
theorem and_high {x n k : Nat} (hx : x < 2 ^ n) (hk : k ≤ n) :
    x &&& (2 ^ n - 2 ^ k) = x / 2 ^ k * 2 ^ k := by
  have hpos := Nat.two_pow_pos k
  have hle := Nat.pow_le_pow_right (n := 2) (by decide) hk
  have hm : 2 ^ n - 2 ^ k = 2 ^ n - (2 ^ k - 1 + 1) := by omega
  have he : x / 2 ^ k * 2 ^ k = (x >>> k) <<< k := by
    rw [Nat.shiftLeft_eq, Nat.shiftRight_eq_div_pow]
  apply Nat.eq_of_testBit_eq
  intro i
  rw [hm, he, Nat.testBit_and, Nat.testBit_two_pow_sub_succ (by omega), Nat.testBit_shiftLeft,
    Nat.testBit_shiftRight, Nat.testBit_two_pow_sub_one]
  by_cases hik : i < k
  · simp [hik]
  · rw [Nat.add_sub_cancel' (Nat.not_lt.mp hik)]
    by_cases hin : i < n
    · simp [hin, hik, Nat.not_lt.mp hik]
    · simp [testBit_of_lt hx (Nat.not_lt.mp hin)]

/-- `x & ~(1 << j)` for a word whose highest bit is `j`. -/
theorem and_clear_top {x n j : Nat} (hx : x < 2 ^ (j + 1)) (hj : j < n) :
    x &&& (2 ^ n - 1 - 2 ^ j) = x % 2 ^ j := by
  have hlt := Nat.pow_lt_pow_right (a := 2) (by decide) hj
  have hm : 2 ^ n - 1 - 2 ^ j = 2 ^ n - (2 ^ j + 1) := by omega
  apply Nat.eq_of_testBit_eq
  intro i
  rw [hm, Nat.testBit_and, Nat.testBit_two_pow_sub_succ hlt, Nat.testBit_two_pow,
    Nat.testBit_mod_two_pow]
  rcases Nat.lt_trichotomy i j with hij | rfl | hij
  · simp [hij, Nat.ne_of_gt hij, Nat.lt_trans hij hj]
  · simp
  · simp [testBit_of_lt hx hij]

end Masks
