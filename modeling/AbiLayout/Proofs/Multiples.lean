import AbiLayout.Proofs.Outcome
import AbiLayout.Proofs.Rounding
import Mathlib.Order.Bounds.Basic

/-!
# The least multiple of an alignment

The checked rounding answers with a multiple, or with nothing. For a power of two the answer is the
least multiple of the alignment that is not below the quantity, and there is none exactly where
that multiple leaves the 64-bit range. The laws of rounding are those of least multiples: rounding
twice is rounding once, rounding keeps the order, and rounding to a smaller power of two on the way
to a larger one changes nothing. They hold up to the end of the range, where an answer turns into
none.

The plain rounding starts from a sum that is larger by one. That sum leaves the range one quantity
too early: the last multiple of the alignment stays where it is under the checked rounding, and
traps under the plain one. Everywhere else the two agree.

## Main definitions

* `Quantity.RoundsAlike`: the two roundings agree on a quantity and an alignment.

## Main results

* `isLeast_nextMultiple`, `nextMultiple_nextMultiple`: least multiples of natural numbers.
* `isGreatest_multiple_iff`: the last multiple of a power of two below `2 ^ 64`.
* `Quantity.roundUp?_eq_some_iff`, `Quantity.roundUp?_eq_none_iff`: what the checked rounding
  answers.
* `Quantity.roundUp?_exact`: the laws of the checked rounding.
* `Quantity.roundsAlike_iff`: where the two roundings agree, for any alignment.
* `Quantity.roundsAlike_iff_not_isGreatest`: the same for powers of two, in terms of multiples.
-/

namespace AbiLayout

section NextMultiple

variable {x a b : Nat}

theorem isLeast_nextMultiple (x : Nat) (ha : 0 < a) :
    IsLeast {m | x ≤ m ∧ a ∣ m} (nextMultiple x a) :=
  ⟨⟨le_nextMultiple x ha, dvd_nextMultiple x a⟩, fun _ ⟨hx, hm⟩ => nextMultiple_le ha hm hx⟩

/-- Rounding to the multiples of `a` on the way to those of `b` changes nothing, if multiples of `b`
are multiples of `a`. -/
theorem nextMultiple_nextMultiple (x : Nat) (ha : 0 < a) (hb : 0 < b) (hab : a ∣ b) :
    nextMultiple (nextMultiple x a) b = nextMultiple x b := by
  refine Nat.le_antisymm ?_ (nextMultiple_mono hb (le_nextMultiple x ha))
  have hmultiple : a ∣ nextMultiple x b := hab.trans (dvd_nextMultiple x b)
  exact nextMultiple_le hb (dvd_nextMultiple x b)
    (nextMultiple_le ha hmultiple (le_nextMultiple x hb))

end NextMultiple

/-- The last multiple of a power of two below `2 ^ 64` is the one that the power completes. -/
theorem isGreatest_multiple_iff {m a : Nat} (ha : a.isPowerOfTwo) (h : a < 2 ^ 64) :
    IsGreatest {m | m < 2 ^ 64 ∧ a ∣ m} m ↔ m + a = 2 ^ 64 := by
  have hpos : 0 < a := Nat.pos_of_isPowerOfTwo ha
  have hrange : a ∣ 2 ^ 64 := dvd_two_pow_of_lt ha h
  constructor
  · rintro ⟨⟨hm, hdvd⟩, hgreatest⟩
    have hroom : m + a ≤ 2 ^ 64 := add_le_two_pow_of_dvd ha h hdvd hm
    have hlast : 2 ^ 64 - a ≤ m := hgreatest ⟨by omega, Nat.dvd_sub hrange dvd_rfl⟩
    omega
  · intro hend
    have hdvd : a ∣ m := (Nat.dvd_add_left dvd_rfl).mp (hend ▸ hrange)
    refine ⟨⟨by omega, hdvd⟩, fun n ⟨hn, hdvdn⟩ => ?_⟩
    have hroom : n + a ≤ 2 ^ 64 := add_le_two_pow_of_dvd ha h hdvdn hn
    omega

namespace Quantity

variable {g : Granule} {x x' y y' a b : Quantity g}

/-! ### Answers -/

section Answers

variable (ha : a.count.isPowerOfTwo)

include ha

/-- The checked rounding gives a quantity exactly where it is the least multiple. -/
theorem roundUp?_eq_some_iff :
    x.roundUp? a = .ok (some y) ↔ IsLeast {m | x.count ≤ m ∧ a.count ∣ m} y.count := by
  have hleast := isLeast_nextMultiple x.count (Nat.pos_of_isPowerOfTwo ha)
  rw [roundUp?_eq x ha, Except.ok.injEq, fit?_eq_some_iff]
  exact ⟨fun h => h ▸ hleast, fun h => h.unique hleast⟩

/-- The checked rounding gives nothing exactly where all multiples that are not below the quantity
leave the range. -/
theorem roundUp?_eq_none_iff :
    x.roundUp? a = .ok none ↔ ∀ m, x.count ≤ m → a.count ∣ m → 2 ^ 64 ≤ m := by
  have hleast := isLeast_nextMultiple x.count (Nat.pos_of_isPowerOfTwo ha)
  rw [roundUp?_eq x ha, Except.ok.injEq, fit?_eq_none_iff]
  exact ⟨fun h m hx hm => h.trans (hleast.2 ⟨hx, hm⟩), fun h => h _ hleast.1.1 hleast.1.2⟩

/-- A multiple stays where it is. -/
theorem roundUp?_eq_self (hx : a.count ∣ x.count) : x.roundUp? a = .ok (some x) :=
  (roundUp?_eq_some_iff ha).mpr ⟨⟨le_rfl, hx⟩, fun _ hm => hm.1⟩

/-- What has been rounded is not moved by rounding it again. -/
theorem roundUp?_idem (h : x.roundUp? a = .ok (some y)) : y.roundUp? a = .ok (some y) :=
  roundUp?_eq_self ha ((roundUp?_eq_some_iff ha).mp h).1.2

/-- If a quantity can be rounded, so can every smaller one, and to no larger multiple. -/
theorem roundUp?_mono (hx : x ≤ x') (h : x'.roundUp? a = .ok (some y')) :
    ∃ y, x.roundUp? a = .ok (some y) ∧ y ≤ y' := by
  have hleast := (roundUp?_eq_some_iff ha).mp h
  have hle : nextMultiple x.count a.count ≤ y'.count :=
    (isLeast_nextMultiple x.count (Nat.pos_of_isPowerOfTwo ha)).2
      ⟨(le_iff.mp hx).trans hleast.1.1, hleast.1.2⟩
  refine ⟨⟨_, hle.trans_lt y'.count_lt⟩, ?_, hle⟩
  rw [roundUp?_eq x ha, fit?_eq_some]

/-- Rounding to a power of two on the way to a larger one changes nothing: neither the answer, nor
whether there is one. -/
theorem roundUp?_bind_roundUp? (hb : b.count.isPowerOfTwo) (hab : a ≤ b) :
    (x.roundUp? a >>= fun rounded => match rounded with
      | none => .ok none
      | some y => y.roundUp? b) = x.roundUp? b := by
  have hdvd : a.count ∣ b.count := dvd_of_isPowerOfTwo_of_le ha hb hab
  have hstep := nextMultiple_nextMultiple x.count (Nat.pos_of_isPowerOfTwo ha)
    (Nat.pos_of_isPowerOfTwo hb) hdvd
  rw [roundUp?_eq x ha, roundUp?_eq x hb]
  cases hrounded : fit? (g := g) (nextMultiple x.count a.count) with
  | none =>
    -- the multiple of `b` is one of `a`, so it is out of range as well
    have hover : 2 ^ 64 ≤ nextMultiple x.count b.count :=
      (fit?_eq_none_iff.mp hrounded).trans
        (hstep ▸ le_nextMultiple _ (Nat.pos_of_isPowerOfTwo hb))
    rw [fit?_eq_none (Nat.not_lt.mpr hover)]
    rfl
  | some y =>
    rw [fit?_eq_some_iff] at hrounded
    change y.roundUp? b = _
    rw [roundUp?_eq y hb, hrounded, hstep]

end Answers

/-! ### Laws -/

/-- **Checked rounding is exact.** The powers of two pass the test, and nothing else. For a power of
two `a`, the checked rounding of `x` does not trap; it gives `y` exactly where `y` is the least
multiple of `a` that is not below `x`, and nothing exactly where that multiple leaves the range. It
leaves what it gives where it is, it keeps the order, and it may be done on the way to a larger
power of two. -/
theorem roundUp?_exact :
    (∀ a : Quantity g, a.isPowerOfTwo = true ↔ ∃ k, a.count = 2 ^ k) ∧
    ∀ x a : Quantity g, a.isPowerOfTwo = true →
      (∃ rounded, x.roundUp? a = .ok rounded) ∧
      (∀ y, x.roundUp? a = .ok (some y) ↔
        IsLeast {m | x.count ≤ m ∧ a.count ∣ m} y.count) ∧
      (x.roundUp? a = .ok none ↔ ∀ m, x.count ≤ m → a.count ∣ m → 2 ^ 64 ≤ m) ∧
      (∀ y, x.roundUp? a = .ok (some y) → y.roundUp? a = .ok (some y)) ∧
      (∀ x' y', x ≤ x' → x'.roundUp? a = .ok (some y') →
        ∃ y, x.roundUp? a = .ok (some y) ∧ y ≤ y') ∧
      ∀ b : Quantity g, b.isPowerOfTwo = true → a ≤ b →
        (x.roundUp? a >>= fun rounded => match rounded with
          | none => .ok none
          | some y => y.roundUp? b) = x.roundUp? b := by
  refine ⟨fun a => isPowerOfTwo_iff, fun x a hpower => ?_⟩
  have ha : a.count.isPowerOfTwo := isPowerOfTwo_iff.mp hpower
  exact ⟨⟨_, roundUp?_eq x ha⟩, fun y => roundUp?_eq_some_iff ha, roundUp?_eq_none_iff ha,
    fun y => roundUp?_idem ha, fun x' y' => roundUp?_mono ha,
    fun b hb => roundUp?_bind_roundUp? ha (isPowerOfTwo_iff.mp hb)⟩

/-- Nine bits before the end of the range, there is a multiple of 8, but none of 16. -/
theorem roundUp?_exact_end :
    (of 8 : BitCount).isPowerOfTwo = true ∧ (of 16 : BitCount).isPowerOfTwo = true ∧
    IsLeast {m | 0xFFFF_FFFF_FFFF_FFF7 ≤ m ∧ 8 ∣ m} 0xFFFF_FFFF_FFFF_FFF8 ∧
    (of 0xFFFF_FFFF_FFFF_FFF8 : BitCount).roundUp? (of 8) =
      .ok (some (of 0xFFFF_FFFF_FFFF_FFF8)) ∧
    (of 0xFFFF_FFFF_FFFF_FFF8 : BitCount).roundUp? (of 16) =
      (of 0xFFFF_FFFF_FFFF_FFF7 : BitCount).roundUp? (of 16) ∧
    ∀ m, 0xFFFF_FFFF_FFFF_FFF7 ≤ m → 16 ∣ m → 2 ^ 64 ≤ m := by
  obtain ⟨-, hlaws⟩ := roundUp?_exact (g := .bit)
  have hrounded : (of 0xFFFF_FFFF_FFFF_FFF7 : BitCount).roundUp? (of 8) =
      .ok (some (of 0xFFFF_FFFF_FFFF_FFF8)) := rfl
  obtain ⟨-, hleast, -, hidem, -, hlarger⟩ := hlaws (of 0xFFFF_FFFF_FFFF_FFF7) (of 8) rfl
  obtain ⟨-, -, hnone, -⟩ := hlaws (of 0xFFFF_FFFF_FFFF_FFF7) (of 16) rfl
  refine ⟨rfl, rfl, (hleast _).mp hrounded, hidem _ hrounded, ?_, hnone.mp rfl⟩
  have hstep := hlarger (of 16) rfl (by decide)
  rwa [hrounded] at hstep

/-! ### The plain rounding -/

/-- The two roundings of `x` to the alignment `a` agree: one gives a quantity exactly where the
other does, and then the same. -/
def RoundsAlike (x a : Quantity g) : Prop :=
  ∀ y, x.roundUp a = .ok y ↔ x.roundUp? a = .ok (some y)

/-- Where the sum is out of range, the plain rounding traps. -/
theorem roundUp_eq_overflow (ha : 0 < a.count) (h : 2 ^ 64 ≤ x.count + a.count) :
    x.roundUp a = .error .overflow := by
  rw [roundUp, if_neg (mt isZero_iff.mp ha.ne'), fit_eq_error h]
  rfl

/-- The plain rounding needs the sum of the quantity and the alignment in range. -/
theorem roundUp_eq_ok_iff :
    x.roundUp a = .ok y ↔ 0 < a.count ∧ x.count + a.count < 2 ^ 64 ∧
      clearLow (x.count + (a.count - 1)) a.count = y.count := by
  by_cases hzero : a.isZero = true
  · rw [roundUp, if_pos hzero]
    exact iff_of_false (by simp) fun h => h.1.ne' (isZero_iff.mp hzero)
  · have hpos : 0 < a.count := Nat.pos_of_ne_zero (mt isZero_iff.mpr hzero)
    by_cases hroom : x.count + a.count < 2 ^ 64
    · have hmask : x.count + a.count - 1 = x.count + (a.count - 1) := by omega
      rw [roundUp, if_neg hzero, fit_eq_ok hroom, except_ok_bind, Except.ok.injEq, Quantity.ext_iff]
      simp only [hmask, hpos, hroom, true_and]
    · rw [roundUp_eq_overflow hpos (Nat.le_of_not_lt hroom)]
      exact iff_of_false (by simp) fun h => hroom h.2.1

/-- The plain rounding never gives anything else than the checked one. -/
theorem roundUp?_eq_some_of_roundUp_eq_ok (h : x.roundUp a = .ok y) :
    x.roundUp? a = .ok (some y) := by
  obtain ⟨hpos, hroom, hy⟩ := roundUp_eq_ok_iff.mp h
  exact roundUp?_eq_some_iff_clearLow.mpr ⟨hpos, by omega, hy⟩

/-- For any alignment, the two roundings agree except where the sum is the first number out of
range. -/
theorem roundsAlike_iff : RoundsAlike x a ↔ x.count + a.count ≠ 2 ^ 64 := by
  constructor
  · intro halike hend
    have hpos : 0 < a.count := by
      have := x.count_lt
      omega
    -- the sum under the mask is the last number in range
    have hroom : x.count + (a.count - 1) < 2 ^ 64 := by omega
    let y : Quantity g := ⟨_, (clearLow_le _ a.count).trans_lt hroom⟩
    have hchecked : x.roundUp? a = .ok (some y) :=
      roundUp?_eq_some_iff_clearLow.mpr ⟨hpos, hroom, rfl⟩
    obtain ⟨-, hplain, -⟩ := roundUp_eq_ok_iff.mp ((halike y).mpr hchecked)
    omega
  · intro hend y
    rw [roundUp_eq_ok_iff, roundUp?_eq_some_iff_clearLow]
    refine and_congr_right fun hpos => and_congr_left fun _ => ?_
    omega

/-- **The plain rounding misses the last multiple.** For a power of two `a`, the two roundings of
`x` agree exactly if `x` is not the last multiple of `a` in the range. The plain rounding never
gives anything else than the checked one, and it traps where that gives nothing. At the last
multiple the checked rounding leaves `x` where it is, and the plain one traps. -/
theorem roundsAlike_iff_not_isGreatest (x a : Quantity g) (hpower : a.isPowerOfTwo = true) :
    (RoundsAlike x a ↔ ¬IsGreatest {m | m < 2 ^ 64 ∧ a.count ∣ m} x.count) ∧
    (∀ y, x.roundUp a = .ok y → x.roundUp? a = .ok (some y)) ∧
    (x.roundUp? a = .ok none → x.roundUp a = .error .overflow) ∧
    (IsGreatest {m | m < 2 ^ 64 ∧ a.count ∣ m} x.count →
      x.roundUp? a = .ok (some x) ∧ x.roundUp a = .error .overflow) := by
  have ha : a.count.isPowerOfTwo := isPowerOfTwo_iff.mp hpower
  have hpos : 0 < a.count := Nat.pos_of_isPowerOfTwo ha
  have hlast := isGreatest_multiple_iff (m := x.count) ha a.count_lt
  refine ⟨?_, fun y => roundUp?_eq_some_of_roundUp_eq_ok, fun hnone => ?_, fun hgreatest => ?_⟩
  · rw [roundsAlike_iff, hlast]
  · -- the multiple that is out of range is below the sum of the plain rounding
    rw [roundUp?_eq x ha, Except.ok.injEq, fit?_eq_none_iff] at hnone
    exact roundUp_eq_overflow hpos (hnone.trans (nextMultiple_lt x.count hpos).le)
  · exact ⟨roundUp?_eq_self ha hgreatest.1.2,
      roundUp_eq_overflow hpos (hlast.mp hgreatest).ge⟩

/-- One byte below the last multiple of 8 both roundings reach it, on it only the checked rounding
stays there, and one byte above it neither gives anything. -/
theorem roundsAlike_around_last :
    (of 8 : ByteCount).isPowerOfTwo = true ∧
    RoundsAlike (of 0xFFFF_FFFF_FFFF_FFF7 : ByteCount) (of 8) ∧
    (of 0xFFFF_FFFF_FFFF_FFF7 : ByteCount).roundUp (of 8) =
      .ok (of 0xFFFF_FFFF_FFFF_FFF8) ∧
    (of 0xFFFF_FFFF_FFFF_FFF7 : ByteCount).roundUp? (of 8) =
      .ok (some (of 0xFFFF_FFFF_FFFF_FFF8)) ∧
    IsGreatest {m | m < 2 ^ 64 ∧ 8 ∣ m} 0xFFFF_FFFF_FFFF_FFF8 ∧
    (of 0xFFFF_FFFF_FFFF_FFF8 : ByteCount).roundUp? (of 8) =
      .ok (some (of 0xFFFF_FFFF_FFFF_FFF8)) ∧
    (of 0xFFFF_FFFF_FFFF_FFF8 : ByteCount).roundUp (of 8) = .error .overflow ∧
    (of 0xFFFF_FFFF_FFFF_FFF9 : ByteCount).roundUp? (of 8) = .ok none ∧
    (of 0xFFFF_FFFF_FFFF_FFF9 : ByteCount).roundUp (of 8) = .error .overflow := by
  have hgreatest : IsGreatest {m | m < 2 ^ 64 ∧ 8 ∣ m} 0xFFFF_FFFF_FFFF_FFF8 :=
    (isGreatest_multiple_iff ⟨3, rfl⟩ (by decide)).mpr rfl
  have hplain : (of 0xFFFF_FFFF_FFFF_FFF7 : ByteCount).roundUp (of 8) =
      .ok (of 0xFFFF_FFFF_FFFF_FFF8) := rfl
  obtain ⟨halike, hchecked, -, -⟩ :=
    roundsAlike_iff_not_isGreatest (of 0xFFFF_FFFF_FFFF_FFF7 : ByteCount) (of 8) rfl
  obtain ⟨-, -, -, hlast⟩ :=
    roundsAlike_iff_not_isGreatest (of 0xFFFF_FFFF_FFFF_FFF8 : ByteCount) (of 8) rfl
  obtain ⟨-, -, hnone, -⟩ :=
    roundsAlike_iff_not_isGreatest (of 0xFFFF_FFFF_FFFF_FFF9 : ByteCount) (of 8) rfl
  exact ⟨rfl, halike.mpr fun h => absurd (h.unique hgreatest) (by decide), hplain,
    hchecked _ hplain, hgreatest, (hlast hgreatest).1, (hlast hgreatest).2, rfl, hnone rfl⟩

/-- The last multiple of 8 in the range is rounded already, but the plain rounding to 8 bytes traps
on it. -/
theorem not_roundsAlike_last :
    (of 8 : ByteCount).isPowerOfTwo = true ∧
    ¬RoundsAlike (of 0xFFFF_FFFF_FFFF_FFF8 : ByteCount) (of 8) :=
  ⟨rfl, fun halike => nomatch (halike (of 0xFFFF_FFFF_FFFF_FFF8)).mpr rfl⟩

end Quantity

end AbiLayout
