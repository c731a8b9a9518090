import AbiLayout.Proofs.Ideal.Basic
import Mathlib.Data.List.Basic

/-!
# Members and padding tile a struct

The gaps are computed from the list of members alone. Where the members follow each other and end
within the size, the gaps are exactly what the members leave free: every bit lies in one member or
in one gap, and in no two.

## Main definitions

* `Ideal.Slot.covers`, `Ideal.Region.covers`: the bits of a member and of a region.

## Main results

* `Ideal.countP_covers_gapsFrom`: every bit is covered once.
* `Ideal.sum_gapsFrom`: the lengths of members and gaps add up to the size.
* `Ideal.gapsFrom_pairwise`, `Ideal.mem_gapsFrom`: the gaps are not empty, and follow each other.
-/

namespace AbiLayout.Ideal

/-- Whether a bit belongs to the member. -/
def Slot.covers (s : Slot) (b : Nat) : Bool := decide (s.offset ≤ b) && decide (b < s.stop)

/-- Whether a bit belongs to the region. -/
def Region.covers (p : Region) (b : Nat) : Bool := decide (p.offset ≤ b) && decide (b < p.stop)

/-! ### One gap -/

section Gap

variable {start stop : Nat}

theorem mem_gap {p : Region} (h : p ∈ gap start stop) :
    p.offset = start ∧ p.stop = stop ∧ 0 < p.length := by
  unfold gap at h
  split at h
  · rw [List.mem_singleton.mp h, Region.stop]
    simp only [true_and]
    omega
  · cases h

theorem gap_pairwise (start stop : Nat) :
    (gap start stop).Pairwise fun p q => p.stop ≤ q.offset := by
  unfold gap
  split
  · exact List.pairwise_singleton _ _
  · exact List.Pairwise.nil

/-- A gap covers its bits once. -/
theorem countP_covers_gap (start stop b : Nat) :
    (gap start stop).countP (·.covers b) = if start ≤ b ∧ b < stop then 1 else 0 := by
  unfold gap
  by_cases hlt : start < stop
  · have hiff : Region.covers ⟨start, stop - start⟩ b = true ↔ start ≤ b ∧ b < stop := by
      change (decide (start ≤ b) && decide (b < start + (stop - start))) = true ↔ _
      rw [Bool.and_eq_true, decide_eq_true_eq, decide_eq_true_eq]
      omega
    rw [if_pos hlt, List.countP_singleton]
    by_cases h : start ≤ b ∧ b < stop
    · rw [if_pos h, if_pos (hiff.mpr h)]
    · rw [if_neg h, if_neg (mt hiff.mp h)]
  · rw [if_neg hlt, List.countP_nil, if_neg]
    omega

theorem sum_gap (h : start ≤ stop) : ((gap start stop).map Region.length).sum = stop - start := by
  unfold gap
  split
  · simp
  · simp only [List.map_nil, List.sum_nil]
    omega

end Gap

/-! ### All gaps of a struct -/

variable {size reached : Nat}

theorem offset_le_stop (s : Slot) : s.offset ≤ s.stop := Nat.le_add_right _ _

/-- Behind a member that starts at the reached bit or later, the gaps go on at its end. -/
theorem gapsFrom_cons {m : Slot} {ms : List Slot} (h : reached ≤ m.offset) :
    gapsFrom size reached (m :: ms) = gap reached m.offset ++ gapsFrom size m.stop ms := by
  rw [gapsFrom, Nat.max_eq_right (h.trans (offset_le_stop m))]

/-- The members behind the reached bit follow each other, and end within the size. -/
structure Ordered (size reached : Nat) (ms : List Slot) : Prop where
  sorted : ms.Pairwise fun a b => a.stop ≤ b.offset
  reached_le : ∀ m ∈ ms, reached ≤ m.offset
  stop_le : ∀ m ∈ ms, m.stop ≤ size
  reached_le_size : reached ≤ size

theorem Ordered.head {m : Slot} {ms : List Slot} (h : Ordered size reached (m :: ms)) :
    reached ≤ m.offset ∧ m.stop ≤ size :=
  ⟨h.reached_le m List.mem_cons_self, h.stop_le m List.mem_cons_self⟩

theorem Ordered.tail {m : Slot} {ms : List Slot} (h : Ordered size reached (m :: ms)) :
    Ordered size m.stop ms := by
  obtain ⟨hhead, htail⟩ := List.pairwise_cons.mp h.sorted
  exact ⟨htail, hhead, fun s hs => h.stop_le s (List.mem_cons_of_mem m hs), h.head.2⟩

/-- **Members and gaps tile.** Every bit between the reached one and the size belongs to exactly one
member or gap, and no other bit to any. -/
theorem countP_covers_gapsFrom {ms : List Slot} (h : Ordered size reached ms) (b : Nat) :
    ms.countP (·.covers b) + (gapsFrom size reached ms).countP (·.covers b) =
      if reached ≤ b ∧ b < size then 1 else 0 := by
  induction ms generalizing reached with
  | nil =>
    rw [List.countP_nil, Nat.zero_add, gapsFrom]
    exact countP_covers_gap reached size b
  | cons m ms ih =>
    obtain ⟨hoffset, hstop⟩ := h.head
    have hle := offset_le_stop m
    have hrest := ih h.tail
    have hmember : (if m.covers b = true then 1 else 0) =
        if m.offset ≤ b ∧ b < m.stop then 1 else 0 := by
      simp only [Slot.covers, Bool.and_eq_true, decide_eq_true_eq]
    rw [gapsFrom_cons hoffset, List.countP_append, List.countP_cons, countP_covers_gap, hmember]
    split_ifs at hrest ⊢ <;> omega

/-- The lengths of the members and of the gaps add up. -/
theorem sum_gapsFrom {ms : List Slot} (h : Ordered size reached ms) :
    (ms.map Slot.counted).sum + ((gapsFrom size reached ms).map Region.length).sum =
      size - reached := by
  induction ms generalizing reached with
  | nil =>
    rw [gapsFrom, sum_gap h.reached_le_size]
    exact Nat.zero_add _
  | cons m ms ih =>
    obtain ⟨hoffset, hstop⟩ := h.head
    have hrest := ih h.tail
    have hcounted : m.stop = m.offset + m.counted := rfl
    rw [gapsFrom_cons hoffset, List.map_append, List.sum_append, List.map_cons, List.sum_cons,
      sum_gap hoffset]
    omega

/-- A gap is not empty, and lies between the reached bit and the size. -/
theorem mem_gapsFrom {ms : List Slot} (h : Ordered size reached ms) {p : Region}
    (hp : p ∈ gapsFrom size reached ms) : reached ≤ p.offset ∧ p.stop ≤ size ∧ 0 < p.length := by
  induction ms generalizing reached with
  | nil =>
    obtain ⟨rfl, hstop, hpos⟩ := mem_gap hp
    exact ⟨le_rfl, hstop.le, hpos⟩
  | cons m ms ih =>
    obtain ⟨hoffset, hstop⟩ := h.head
    have hle := offset_le_stop m
    rw [gapsFrom_cons hoffset] at hp
    rcases List.mem_append.mp hp with hp | hp
    · obtain ⟨rfl, hend, hpos⟩ := mem_gap hp
      omega
    · obtain ⟨hreached, hend, hpos⟩ := ih h.tail hp
      omega

/-- The gaps follow each other. -/
theorem gapsFrom_pairwise {ms : List Slot} (h : Ordered size reached ms) :
    (gapsFrom size reached ms).Pairwise fun p q => p.stop ≤ q.offset := by
  induction ms generalizing reached with
  | nil => exact gap_pairwise reached size
  | cons m ms ih =>
    have hle := offset_le_stop m
    rw [gapsFrom_cons h.head.1]
    refine List.pairwise_append.mpr ⟨gap_pairwise _ _, ih h.tail, ?_⟩
    intro p hp q hq
    obtain ⟨-, hstop, -⟩ := mem_gap hp
    obtain ⟨hoffset, -, -⟩ := mem_gapsFrom h.tail hq
    omega

end AbiLayout.Ideal
