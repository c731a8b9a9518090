import AbiLayout.Quantity.Basic
import Mathlib.Algebra.Order.Ring.Nat
import Mathlib.Tactic.Common

/-!
# Rounding up to an alignment

`nextMultiple x a` is the least multiple of `a` that is not below `x`, for natural numbers without
bound. The checked rounding of quantities computes it for every power of two, and answers nothing
exactly where the result does not fit in 64 bits (`Quantity.roundUp?_eq`).

## Main definitions

* `nextMultiple`: rounding on natural numbers.

## Main results

* `le_nextMultiple`, `dvd_nextMultiple`, `nextMultiple_le`: `nextMultiple x a` is the least
  multiple.
* `Quantity.isPowerOfTwo_iff`: the test for powers of two, in terms of powers.
* `Quantity.roundUp?_eq_some_iff_clearLow`: what the checked rounding gives, for any alignment.
* `Quantity.roundUp?_eq`: for a power of two it is `nextMultiple`, where that fits.
-/

namespace AbiLayout

/-- The least multiple of `a` that is not below `x`. -/
def nextMultiple (x a : Nat) : Nat := (x + (a - 1)) / a * a

section NextMultiple

variable {x y a b : Nat}

theorem dvd_nextMultiple (x a : Nat) : a ∣ nextMultiple x a := Nat.dvd_mul_left a _

theorem le_nextMultiple (x : Nat) (ha : 0 < a) : x ≤ nextMultiple x a := by
  have hdiv := Nat.div_add_mod (x + (a - 1)) a
  have hmod := Nat.mod_lt (x + (a - 1)) ha
  rw [nextMultiple, Nat.mul_comm]
  omega

theorem nextMultiple_lt (x : Nat) (ha : 0 < a) : nextMultiple x a < x + a := by
  have hle : nextMultiple x a ≤ x + (a - 1) := Nat.div_mul_le_self _ _
  omega

/-- Rounding takes the least multiple. -/
theorem nextMultiple_le (ha : 0 < a) (hy : a ∣ y) (hxy : x ≤ y) : nextMultiple x a ≤ y := by
  obtain ⟨k, rfl⟩ := hy
  rw [nextMultiple, Nat.mul_comm a k]
  refine Nat.mul_le_mul_right a (Nat.le_of_lt_succ ?_)
  rw [Nat.div_lt_iff_lt_mul ha, Nat.succ_mul, Nat.mul_comm k a]
  omega

theorem nextMultiple_of_dvd (ha : 0 < a) (hx : a ∣ x) : nextMultiple x a = x :=
  Nat.le_antisymm (nextMultiple_le ha hx le_rfl) (le_nextMultiple x ha)

theorem nextMultiple_mono (ha : 0 < a) (hxy : x ≤ y) : nextMultiple x a ≤ nextMultiple y a :=
  nextMultiple_le ha (dvd_nextMultiple y a) (hxy.trans (le_nextMultiple y ha))

end NextMultiple

/-! ### Powers of two -/

theorem two_pow_dvd_of_le {i j : Nat} (h : 2 ^ i ≤ 2 ^ j) : 2 ^ i ∣ 2 ^ j :=
  Nat.pow_dvd_pow 2 ((Nat.pow_le_pow_iff_right Nat.one_lt_two).mp h)

/-- Of two powers of two the smaller divides the larger. -/
theorem dvd_of_isPowerOfTwo_of_le {a b : Nat} (ha : a.isPowerOfTwo) (hb : b.isPowerOfTwo)
    (h : a ≤ b) : a ∣ b := by
  obtain ⟨i, rfl⟩ := ha
  obtain ⟨j, rfl⟩ := hb
  exact two_pow_dvd_of_le h

/-- Every power of two below `2 ^ 64` divides it. -/
theorem dvd_two_pow_of_lt {a : Nat} (ha : a.isPowerOfTwo) (h : a < 2 ^ 64) : a ∣ 2 ^ 64 :=
  dvd_of_isPowerOfTwo_of_le ha ⟨64, rfl⟩ h.le

/-- A multiple of a power of two that is below `2 ^ 64` leaves room for the power itself. -/
theorem add_le_two_pow_of_dvd {m a : Nat} (ha : a.isPowerOfTwo) (h : a < 2 ^ 64) (hdvd : a ∣ m)
    (hm : m < 2 ^ 64) : m + a ≤ 2 ^ 64 :=
  Nat.le_of_lt_add_of_dvd (Nat.add_lt_add_right hm a) (Nat.dvd_add hdvd (Nat.dvd_refl a))
    (dvd_two_pow_of_lt ha h)

/-- The larger of two powers of two is one. -/
theorem isPowerOfTwo_max {a b : Nat} (ha : a.isPowerOfTwo) (hb : b.isPowerOfTwo) :
    (max a b).isPowerOfTwo := by
  rcases Nat.le_total a b with h | h
  · rwa [Nat.max_eq_right h]
  · rwa [Nat.max_eq_left h]

theorem isPowerOfTwo_eight_mul {a : Nat} (ha : a.isPowerOfTwo) : (8 * a).isPowerOfTwo := by
  obtain ⟨k, rfl⟩ := ha
  exact ⟨k + 3, by rw [Nat.pow_add, Nat.mul_comm]⟩

namespace Quantity

variable {g : Granule}

theorem isPowerOfTwo_iff {x : Quantity g} : x.isPowerOfTwo = true ↔ x.count.isPowerOfTwo := by
  rw [isPowerOfTwo, ← Nat.ne_zero_and_sub_one_eq_zero_iff_isPowerOfTwo]
  simp

/-- For a power of two, clearing the low bits rounds down to a multiple. -/
theorem clearLow_eq {a : Nat} (x : Nat) (ha : a.isPowerOfTwo) : clearLow x a = x / a * a := by
  obtain ⟨k, rfl⟩ := ha
  have hdiv := Nat.div_add_mod' x (2 ^ k)
  rw [clearLow, Nat.and_two_pow_sub_one_eq_mod]
  omega

/-- The rounded count leaves the range exactly where the sum under the mask does. -/
theorem nextMultiple_lt_two_pow_iff {x a : Nat} (ha : a.isPowerOfTwo) (h : a < 2 ^ 64) :
    nextMultiple x a < 2 ^ 64 ↔ x + (a - 1) < 2 ^ 64 := by
  have hpos : 0 < a := Nat.pos_of_isPowerOfTwo ha
  constructor
  · intro hlt
    have hroom := add_le_two_pow_of_dvd ha h (dvd_nextMultiple x a) hlt
    have := le_nextMultiple x hpos
    omega
  · intro hlt
    have := nextMultiple_lt x hpos
    omega

theorem fit?_eq_some {n : Nat} (h : n < 2 ^ 64) : fit? (g := g) n = some ⟨n, h⟩ := dif_pos h

theorem fit?_eq_none {n : Nat} (h : ¬n < 2 ^ 64) : fit? (g := g) n = none := dif_neg h

/-- What the checked rounding gives, also where the alignment is no power of two. -/
theorem roundUp?_eq_some_iff_clearLow {x a y : Quantity g} :
    x.roundUp? a = .ok (some y) ↔ 0 < a.count ∧ x.count + (a.count - 1) < 2 ^ 64 ∧
      clearLow (x.count + (a.count - 1)) a.count = y.count := by
  rw [roundUp?]
  by_cases hzero : a.isZero = true
  · rw [if_pos hzero]
    exact iff_of_false (by simp) fun h => h.1.ne' (isZero_iff.mp hzero)
  · have hpos : 0 < a.count := Nat.pos_of_ne_zero (mt isZero_iff.mpr hzero)
    rw [if_neg hzero, Except.ok.injEq]
    by_cases hroom : x.count + (a.count - 1) < 2 ^ 64
    · rw [fit?_eq_some hroom, Option.map_some, Option.some.injEq, Quantity.ext_iff]
      simp only [hpos, hroom, true_and]
    · rw [fit?_eq_none hroom, Option.map_none]
      exact iff_of_false (by simp) fun h => hroom h.2.1

/-- **Checked rounding is exact.** For a power of two it gives the least multiple that is not below
the quantity, and nothing where that multiple does not fit. -/
theorem roundUp?_eq {a : Quantity g} (x : Quantity g) (ha : a.count.isPowerOfTwo) :
    x.roundUp? a = .ok (fit? (nextMultiple x.count a.count)) := by
  have hpos : 0 < a.count := Nat.pos_of_isPowerOfTwo ha
  have hzero : ¬a.isZero = true := by
    rw [isZero_iff]
    omega
  have hiff := nextMultiple_lt_two_pow_iff (x := x.count) ha a.count_lt
  rw [roundUp?, if_neg hzero]
  congr 1
  by_cases hlt : x.count + (a.count - 1) < 2 ^ 64
  · rw [fit?_eq_some hlt, fit?_eq_some (hiff.mpr hlt), Option.map_some]
    exact congrArg some (Quantity.ext (clearLow_eq _ ha))
  · rw [fit?_eq_none hlt, fit?_eq_none (mt hiff.mp hlt), Option.map_none]

theorem toBits_eq_ok_iff {x : ByteCount} {y : BitCount} :
    x.toBits = .ok y ↔ y.count = 8 * x.count := by
  rw [toBits, fit_eq_ok_iff, bitsPerByte, Nat.mul_comm]

/-- The bits of a size that fits. -/
theorem toBits_eq_ok {x : ByteCount} (h : 8 * x.count < 2 ^ 64) : x.toBits = .ok ⟨8 * x.count, h⟩ :=
  toBits_eq_ok_iff.mpr rfl

theorem fitsInBits_eq_false_iff {x : ByteCount} :
    x.fitsInBits = false ↔ 2 ^ 64 ≤ 8 * x.count := by
  rw [← Bool.not_eq_true, fitsInBits_iff]
  exact Nat.not_lt

theorem toBits_eq_overflow {x : ByteCount} (h : 2 ^ 64 ≤ 8 * x.count) :
    x.toBits = .error .overflow := fit_eq_error (h.trans_eq (Nat.mul_comm 8 x.count))

end Quantity

end AbiLayout
