import AbiLayout.Layout.Check
import AbiLayout.Proofs.Outcome
import AbiLayout.Proofs.Rounding

/-!
# The layouts that pass the check

The check of a layout works through its padding and its members and stops at the first rule that is
broken. It says nothing about a layout exactly when the layout keeps all rules. Each scan of the
check has one lemma here, which says what it means that the scan finds nothing; a sum or an end out
of range is a trap, so a layout that passes has none.

## Main definitions

* `RecordLayout.Tallied`, `RecordLayout.Accounted`: the rules.

## Main results

* `RecordLayout.flaw?_eq_none_iff`: a layout passes exactly where it keeps the rules.
-/

namespace AbiLayout

/-! ### Sums and scans -/

namespace Quantity

variable {g : Granule}

/-- Numbers added up one by one have a sum exactly where their total is in range. -/
theorem foldlM_add_eq_ok_iff {xs : List (Quantity g)} {x y : Quantity g} :
    xs.foldlM add x = .ok y ↔ x.count + (xs.map count).sum = y.count := by
  induction xs generalizing x with
  | nil => exact ⟨fun h => congrArg count (Except.ok.inj h), fun h => congrArg _ (ext h)⟩
  | cons z zs ih =>
    simp only [List.foldlM_cons, except_bind_eq_ok_iff, add, fit_eq_ok_iff, ih, List.map_cons,
      List.sum_cons]
    constructor
    · rintro ⟨w, hw, h⟩
      omega
    · intro h
      have hlt := y.count_lt
      exact ⟨⟨x.count + z.count, by omega⟩, rfl, by rw [← h, Nat.add_assoc]⟩

theorem sum_eq_ok_iff {xs : List (Quantity g)} {y : Quantity g} :
    sum xs = .ok y ↔ (xs.map count).sum = y.count := by
  rw [sum, foldlM_add_eq_ok_iff, count_zero, Nat.zero_add]

end Quantity

/-- No padding reaches past the size exactly where all of it ends within. -/
theorem regionPast?_eq_none_iff {size : BitCount} {ps : List BitRange} :
    regionPast? size ps = .ok none ↔ ∀ p ∈ ps, p.offset.count + p.length.count ≤ size.count := by
  induction ps with
  | nil => exact ⟨fun _ _ hp => (nomatch hp), fun _ => rfl⟩
  | cons p ps ih =>
    rw [regionPast?, except_bind_eq_ok_iff, List.forall_mem_cons, ← ih]
    constructor
    · rintro ⟨stop, hstop, h⟩
      have hcount := Quantity.fit_eq_ok_iff.mp hstop
      by_cases hlt : size < stop
      · rw [if_pos hlt] at h
        cases h
      · rw [if_neg hlt] at h
        rw [Quantity.lt_iff, Nat.not_lt, hcount] at hlt
        exact ⟨hlt, h⟩
    · rintro ⟨hle, h⟩
      have hnot : ¬size < (⟨_, hle.trans_lt size.count_lt⟩ : BitCount) := Nat.not_lt.mpr hle
      exact ⟨_, Quantity.fit_eq_ok_iff.mpr rfl, (if_neg hnot).trans h⟩

/-- No member starts in front of the end of another one exactly where each starts behind all that
come before it. The ends are in range then. -/
theorem overlapFrom?_eq_none_iff {reached : BitCount} {ms : List PlacedMember} :
    overlapFrom? reached ms = .ok none ↔
      (∀ m ∈ ms, reached.count ≤ m.offset.count) ∧
      (∀ m ∈ ms, m.offset.count + m.extent.counted.count < 2 ^ 64) ∧
      ms.Pairwise fun m m' => m.offset.count + m.extent.counted.count ≤ m'.offset.count := by
  induction ms generalizing reached with
  | nil => simp [overlapFrom?]
  | cons m ms ih =>
    rw [List.pairwise_cons, List.forall_mem_cons, List.forall_mem_cons, overlapFrom?]
    by_cases hlt : m.offset < reached
    · rw [if_pos hlt]
      exact ⟨fun h => (nomatch h), fun h => absurd hlt (Nat.not_lt.mpr h.1.1)⟩
    · rw [if_neg hlt, except_bind_eq_ok_iff]
      have hle : reached.count ≤ m.offset.count := Nat.not_lt.mp hlt
      constructor
      · rintro ⟨stop, hstop, h⟩
        have hcount := Quantity.fit_eq_ok_iff.mp hstop
        obtain ⟨hbehind, hrange, hsorted⟩ := ih.mp h
        rw [hcount] at hbehind
        have hbehind' (m' : PlacedMember) (hm' : m' ∈ ms) : reached.count ≤ m'.offset.count := by
          have := hbehind m' hm'
          omega
        exact ⟨⟨hle, hbehind'⟩, ⟨hcount ▸ stop.count_lt, hrange⟩, hbehind, hsorted⟩
      · rintro ⟨-, ⟨hrange, hranges⟩, hbehind, hsorted⟩
        exact ⟨⟨_, hrange⟩, Quantity.fit_eq_ok_iff.mpr rfl, ih.mpr ⟨hbehind, hranges, hsorted⟩⟩

/-! ### The layouts that pass -/

namespace RecordLayout

/-- The rules about the members of a struct: each starts behind all that come before it, and the
lengths of members and padding add up to the bits of the size. -/
structure Tallied (l : RecordLayout) : Prop where
  stop_lt : ∀ m ∈ l.members, m.offset.count + m.extent.counted.count < 2 ^ 64
  members_sorted : l.members.Pairwise fun m m' =>
    m.offset.count + m.extent.counted.count ≤ m'.offset.count
  lengths_sum : (l.members.map (·.extent.counted.count)).sum +
    (l.padding.map (·.length.count)).sum = 8 * l.size.count

/-- The rules of the check: the alignment is a power of two that divides the size, the bits of the
size are in range, no padding ends behind them, the members of a struct are tallied, and those of a
union start at zero. -/
structure Accounted (l : RecordLayout) : Prop where
  alignment_isPowerOfTwo : l.alignment.count.isPowerOfTwo
  alignment_dvd : l.alignment.count ∣ l.size.count
  bits_lt : 8 * l.size.count < 2 ^ 64
  padding_stop_le : ∀ p ∈ l.padding, p.offset.count + p.length.count ≤ 8 * l.size.count
  tallied : l.kind = .struct → l.Tallied
  offset_eq : l.kind = .union → ∀ m ∈ l.members, m.offset.count = 0

variable {l : RecordLayout}

theorem structFlaw?_eq_none_iff (hbits : 8 * l.size.count < 2 ^ 64) :
    l.structFlaw? ⟨_, hbits⟩ = .ok none ↔ l.Tallied := by
  have hmap : ((l.members.map fun m => m.extent.counted).map Quantity.count).sum =
      (l.members.map (·.extent.counted.count)).sum := by
    rw [List.map_map]
    rfl
  have hmap' : ((l.padding.map BitRange.length).map Quantity.count).sum =
      (l.padding.map (·.length.count)).sum := by
    rw [List.map_map]
    rfl
  rw [structFlaw?, except_bind_eq_ok_iff]
  constructor
  · rintro ⟨found, hscan, h⟩
    cases found with
    | some m => cases h
    | none =>
      obtain ⟨-, hrange, hsorted⟩ := overlapFrom?_eq_none_iff.mp hscan
      obtain ⟨members, hmembers, h⟩ := except_bind_eq_ok_iff.mp h
      obtain ⟨padding, hpadding, h⟩ := except_bind_eq_ok_iff.mp h
      obtain ⟨total, htotal, h⟩ := except_bind_eq_ok_iff.mp h
      rw [Quantity.sum_eq_ok_iff, hmap] at hmembers
      rw [paddingBits, Quantity.sum_eq_ok_iff, hmap'] at hpadding
      have hcount := Quantity.fit_eq_ok_iff.mp htotal
      by_cases heq : total = ⟨_, hbits⟩
      · exact ⟨hrange, hsorted, by rw [hmembers, hpadding, ← hcount, heq]⟩
      · rw [if_neg heq] at h
        cases h
  · rintro ⟨hrange, hsorted, hsum⟩
    refine ⟨none, overlapFrom?_eq_none_iff.mpr ⟨fun _ _ => Nat.zero_le _, hrange, hsorted⟩, ?_⟩
    have hmembers : Quantity.sum (l.members.map fun m => m.extent.counted) =
        .ok ⟨(l.members.map (·.extent.counted.count)).sum, by omega⟩ :=
      Quantity.sum_eq_ok_iff.mpr hmap
    have hpadding : l.paddingBits = .ok ⟨(l.padding.map (·.length.count)).sum, by omega⟩ :=
      Quantity.sum_eq_ok_iff.mpr hmap'
    have htotal : Quantity.add ⟨(l.members.map (·.extent.counted.count)).sum, by omega⟩
        ⟨(l.padding.map (·.length.count)).sum, by omega⟩ = .ok (⟨_, hbits⟩ : BitCount) :=
      Quantity.fit_eq_ok_iff.mpr hsum.symm
    dsimp only
    rw [hmembers, except_ok_bind, hpadding, except_ok_bind, htotal, except_ok_bind, if_pos rfl]
    rfl

theorem unionFlaw?_eq_none_iff :
    l.unionFlaw? = none ↔ ∀ m ∈ l.members, m.offset.count = 0 := by
  simp [unionFlaw?]

/-- The rules that are left when the alignment and the size are in order. -/
theorem flaw?_eq (hpow : l.alignment.count.isPowerOfTwo) (hdvd : l.alignment.count ∣ l.size.count)
    (hbits : 8 * l.size.count < 2 ^ 64) : l.flaw? = (regionPast? ⟨_, hbits⟩ l.padding >>= fun
      | some region => .ok (some (.paddingPastSize region l.size))
      | none =>
        match l.kind with
        | .union => .ok l.unionFlaw?
        | .struct => l.structFlaw? ⟨_, hbits⟩) := by
  have heven : l.alignment.isPowerOfTwo = true := Quantity.isPowerOfTwo_iff.mpr hpow
  have hzero : ¬l.alignment.isZero = true :=
    mt Quantity.isZero_iff.mp (Nat.pos_of_isPowerOfTwo hpow).ne'
  rw [flaw?, heven, Quantity.rem, if_neg hzero]
  simp only [Bool.not_true, Bool.false_eq_true, if_false, except_ok_bind, Quantity.isZero,
    Nat.mod_eq_zero_of_dvd hdvd, beq_self_eq_true, if_true, Quantity.toBits_eq_ok hbits]
  rfl

/-- Only an even size whose bits are in range passes. -/
theorem of_flaw?_eq_none (h : l.flaw? = .ok none) : l.alignment.count.isPowerOfTwo ∧
    l.alignment.count ∣ l.size.count ∧ 8 * l.size.count < 2 ^ 64 := by
  rw [flaw?] at h
  by_cases heven : l.alignment.isPowerOfTwo = true
  · rw [heven, Bool.not_true, if_neg Bool.false_ne_true] at h
    have hpow := Quantity.isPowerOfTwo_iff.mp heven
    obtain ⟨rest, hrest, h⟩ := except_bind_eq_ok_iff.mp h
    have hzero := mt Quantity.isZero_iff.mp (Nat.pos_of_isPowerOfTwo hpow).ne'
    rw [Quantity.rem, if_neg hzero] at hrest
    cases hrest
    by_cases hdvd : l.alignment.count ∣ l.size.count
    · rw [if_pos (Quantity.isZero_iff.mpr (Nat.mod_eq_zero_of_dvd hdvd))] at h
      obtain ⟨size, hsize, -⟩ := except_bind_eq_ok_iff.mp h
      exact ⟨hpow, hdvd, Quantity.toBits_eq_ok_iff.mp hsize ▸ size.count_lt⟩
    · rw [if_neg (mt Quantity.isZero_iff.mp (mt Nat.dvd_of_mod_eq_zero hdvd))] at h
      cases h
  · rw [Bool.eq_false_iff.mpr heven, Bool.not_false, if_pos rfl] at h
    cases h

/-- **A layout passes the check exactly where it keeps the rules.** -/
theorem flaw?_eq_none_iff : l.flaw? = .ok none ↔ l.Accounted := by
  constructor
  · intro h
    obtain ⟨hpow, hdvd, hbits⟩ := of_flaw?_eq_none h
    rw [flaw?_eq hpow hdvd hbits] at h
    obtain ⟨found, hfound, h⟩ := except_bind_eq_ok_iff.mp h
    cases found with
    | some region => cases h
    | none =>
      have hpadding := regionPast?_eq_none_iff.mp hfound
      refine ⟨hpow, hdvd, hbits, hpadding, fun hkind => ?_, fun hkind => ?_⟩
      · rw [hkind] at h
        exact (structFlaw?_eq_none_iff hbits).mp h
      · rw [hkind] at h
        exact unionFlaw?_eq_none_iff.mp (Except.ok.inj h)
  · intro h
    rw [flaw?_eq h.alignment_isPowerOfTwo h.alignment_dvd h.bits_lt,
      regionPast?_eq_none_iff.mpr h.padding_stop_le, except_ok_bind]
    cases hkind : l.kind with
    | struct => exact (structFlaw?_eq_none_iff h.bits_lt).mpr (h.tallied hkind)
    | union => exact congrArg Except.ok (unionFlaw?_eq_none_iff.mpr (h.offset_eq hkind))

end RecordLayout

end AbiLayout
