import Mathlib.Algebra.BigOperators.Group.Finset.Piecewise
import Mathlib.Algebra.Order.BigOperators.Group.Finset
import Mathlib.Order.Interval.Finset.Nat
import AbiLayout.Proofs.Checking
import AbiLayout.Proofs.WellFormed

/-!
# What the check of a layout grants

The check reads a struct as two lists of lengths, not as a set of bits: the lengths add up to the
size, so as many places are taken as there are bits. That settles where they lie as soon as one half
of it is known. If no bit of the size is left out, then each is taken once and none behind the size;
and the same holds if no bit is taken twice and none behind the size. Without either half, one bit
may be taken twice in place of another, and a member may lie behind the size. In a union the
members start at zero, and the check does not look at their ends.

## Main definitions

* `RecordLayout.coverage`, `RecordLayout.share`: how often a bit is taken, and how often it should
  be.
* `RecordLayout.padded`, `RecordLayout.doubled`, `RecordLayout.overlong`: three layouts that pass.

## Main results

* `RecordLayout.Accounted.sum_coverage`: in a struct that passes, as many places are taken as the
  size has bits.
* `RecordLayout.accounted_of_flaw?_eq_none`: what is known of a layout that passes.
-/

open Finset (range)

namespace AbiLayout

namespace RecordLayout

/-- How many members and padding regions a bit lies in. -/
def coverage (l : RecordLayout) (b : Nat) : Nat :=
  l.members.countP (·.covers b) + l.padding.countP (·.covers b)

/-- How many members and padding regions a bit should lie in: one, if it belongs to the size. -/
def share (l : RecordLayout) (b : Nat) : Nat := if b < 8 * l.size.count then 1 else 0

end RecordLayout

/-! ### Counting bits -/

section Counting

variable {α : Type} {start length : α → Nat} {bound : Nat}

/-- The bits of a run, one by one. -/
theorem sum_range_run {s n : Nat} (h : s + n ≤ bound) :
    ∑ b ∈ range bound, (if (decide (s ≤ b) && decide (b < s + n)) = true then 1 else 0) = n := by
  have hrun : (range bound).filter (fun b => (decide (s ≤ b) && decide (b < s + n)) = true) =
      Finset.Ico s (s + n) := by
    ext b
    simp only [Finset.mem_filter, Finset.mem_range, Finset.mem_Ico, Bool.and_eq_true,
      decide_eq_true_iff]
    omega
  rw [← Finset.card_filter, hrun, Nat.card_Ico]
  omega

/-- Runs that end within a bound take as many bits below it as their lengths add up to. -/
theorem sum_range_countP {xs : List α} (h : ∀ x ∈ xs, start x + length x ≤ bound) :
    ∑ b ∈ range bound,
      xs.countP (fun x => decide (start x ≤ b) && decide (b < start x + length x)) =
    (xs.map length).sum := by
  induction xs with
  | nil => simp
  | cons x xs ih =>
    obtain ⟨hhead, htail⟩ := List.forall_mem_cons.mp h
    simp only [List.countP_cons, Finset.sum_add_distrib]
    rw [ih htail, sum_range_run hhead, List.map_cons, List.sum_cons, Nat.add_comm]

/-- Runs that end within a bound take no bit behind it. -/
theorem countP_eq_zero_of_stop_le {xs : List α} {b : Nat}
    (h : ∀ x ∈ xs, start x + length x ≤ bound) (hb : bound ≤ b) :
    xs.countP (fun x => decide (start x ≤ b) && decide (b < start x + length x)) = 0 := by
  rw [List.countP_eq_zero]
  intro x hx
  have := h x hx
  simp only [Bool.and_eq_true, decide_eq_true_iff]
  omega

end Counting

/-! ### The count of a struct -/

namespace RecordLayout

variable {l : RecordLayout}

namespace Accounted

/-- The padding of a layout that passes ends within the range. -/
theorem padding_stop_le_bound (h : l.Accounted) :
    ∀ p ∈ l.padding, p.offset.count + p.length.count ≤ 2 ^ 64 :=
  fun p hp => (h.padding_stop_le p hp).trans h.bits_lt.le

/-- No bit out of range is taken. -/
theorem coverage_eq_share_of_le (h : l.Accounted) (hkind : l.kind = .struct) {b : Nat}
    (hb : 2 ^ 64 ≤ b) : l.coverage b = l.share b := by
  have hsize := h.bits_lt
  rw [coverage, share, if_neg (by omega)]
  have hmembers := countP_eq_zero_of_stop_le (fun m hm => ((h.tallied hkind).stop_lt m hm).le) hb
  have hpadding := countP_eq_zero_of_stop_le h.padding_stop_le_bound hb
  exact congrArg₂ (· + ·) hmembers hpadding

/-- As many places are taken in a struct that passes as its size has bits. -/
theorem sum_coverage (h : l.Accounted) (hkind : l.kind = .struct) :
    ∑ b ∈ range (2 ^ 64), l.coverage b = 8 * l.size.count := by
  have hmembers := sum_range_countP fun m hm => ((h.tallied hkind).stop_lt m hm).le
  have hpadding := sum_range_countP h.padding_stop_le_bound
  rw [← (h.tallied hkind).lengths_sum, ← hmembers, ← hpadding, ← Finset.sum_add_distrib]
  rfl

theorem sum_share (h : l.Accounted) : ∑ b ∈ range (2 ^ 64), l.share b = 8 * l.size.count := by
  have hle : 0 + 8 * l.size.count ≤ 2 ^ 64 := by
    rw [Nat.zero_add]
    exact h.bits_lt.le
  rw [← sum_range_run hle]
  refine Finset.sum_congr rfl fun b _ => ?_
  simp [share]

/-- If no bit of the size is left out, each is taken once, and no other bit is taken. -/
theorem coverage_eq_of_share_le (h : l.Accounted) (hkind : l.kind = .struct)
    (hle : ∀ b, l.share b ≤ l.coverage b) (b : Nat) : l.coverage b = l.share b := by
  have hsum := h.sum_share.trans (h.sum_coverage hkind).symm
  have heq := (Finset.sum_eq_sum_iff_of_le fun b _ => hle b).mp hsum
  rcases Nat.lt_or_ge b (2 ^ 64) with hb | hb
  · exact (heq b (Finset.mem_range.mpr hb)).symm
  · exact h.coverage_eq_share_of_le hkind hb

/-- If no bit is taken twice, and none behind the size, each bit of the size is taken. -/
theorem coverage_eq_of_le_share (h : l.Accounted) (hkind : l.kind = .struct)
    (hle : ∀ b, l.coverage b ≤ l.share b) (b : Nat) : l.coverage b = l.share b := by
  have hsum := (h.sum_coverage hkind).trans h.sum_share.symm
  have heq := (Finset.sum_eq_sum_iff_of_le fun b _ => hle b).mp hsum
  rcases Nat.lt_or_ge b (2 ^ 64) with hb | hb
  · exact heq b (Finset.mem_range.mpr hb)
  · exact h.coverage_eq_share_of_le hkind hb

end Accounted

/-! ### What the check grants -/

/-- **What is known of a layout that passes the check.** Its alignment is a power of two that
divides the size, and no padding ends behind the size. In a struct, each member starts behind all
that come before it, and the lengths of members and padding add up to the bits of the size; if no
bit of the size is left out, or if no bit is taken twice and none behind the size, then each bit of
the size lies in exactly one member or padding region, and no other bit in any. In a union, all
members start at zero. -/
theorem accounted_of_flaw?_eq_none (h : l.flaw? = .ok none) :
    l.Accounted ∧
    (l.kind = .struct → (∀ b, l.share b ≤ l.coverage b) ∨ (∀ b, l.coverage b ≤ l.share b) →
      ∀ b, l.coverage b = l.share b) := by
  have haccounted := flaw?_eq_none_iff.mp h
  refine ⟨haccounted, ?_⟩
  rintro hkind (hle | hle)
  · exact haccounted.coverage_eq_of_share_le hkind hle
  · exact haccounted.coverage_eq_of_le_share hkind hle

/-- A struct of two members with padding behind them. -/
def padded : RecordLayout where
  kind := .struct
  size := .of 8
  alignment := .of 4
  dataSize := .of 40
  members := [⟨.field 0, .of 0, .bits (.of 32)⟩, ⟨.field 1, .of 32, .bits (.of 8)⟩]
  padding := [⟨.of 40, .of 24⟩]
  hasFlexibleTail := false

theorem coverage_padded : padded.flaw? = .ok none ∧ padded.kind = .struct ∧
    padded.Accounted ∧ ∀ b, padded.coverage b = if b < 64 then 1 else 0 := by
  have hflaw : padded.flaw? = .ok none := by decide
  obtain ⟨haccounted, htiles⟩ := accounted_of_flaw?_eq_none hflaw
  refine ⟨hflaw, rfl, haccounted, htiles rfl (.inl fun b => ?_)⟩
  simp only [share, coverage, padded, List.countP_cons, List.countP_nil, PlacedMember.covers,
    BitRange.covers, Extent.counted, Quantity.of]
  grind

/-- A struct whose padding lies under its only member. -/
def doubled : RecordLayout where
  kind := .struct
  size := .of 8
  alignment := .of 4
  dataSize := .of 32
  members := [⟨.field 0, .of 0, .bits (.of 32)⟩]
  padding := [⟨.of 0, .of 32⟩]
  hasFlexibleTail := false

/-- A union with a member that is longer than its size. -/
def overlong : RecordLayout where
  kind := .union
  size := .of 4
  alignment := .of 4
  dataSize := .of 64
  members := [⟨.field 0, .of 0, .bits (.of 64)⟩]
  padding := []
  hasFlexibleTail := false

/-- The check takes a struct with bits that are taken twice and bits that are left out, and a union
with a member that ends behind the size. -/
theorem passes_doubled_and_overlong :
    (doubled.flaw? = .ok none ∧ doubled.kind = .struct ∧
      doubled.coverage 0 = 2 ∧ doubled.coverage 32 = 0 ∧ 32 < 8 * doubled.size.count) ∧
    (overlong.flaw? = .ok none ∧ overlong.kind = .union ∧
      ¬∀ m ∈ overlong.members,
        m.offset.count + m.extent.counted.count ≤ 8 * overlong.size.count) := by
  decide

end RecordLayout

end AbiLayout
