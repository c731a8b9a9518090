import AbiLayout.Proofs.Ideal.Cursor
import AbiLayout.Proofs.Outcome

/-!
# The cursor agrees with the ideal one

A step of the cursor does what the ideal step does, as long as it can, and fails exactly where the
frontier of the ideal cursor is no longer in the 64-bit range. On a valid cursor, with usable base
types and alignments that fit, no step traps.

## Main definitions

* `Cursor.Reaches`, `Cursor.Agrees`: the outcome of a step agrees with an ideal one.

## Main results

* `Cursor.endRun_reaches`, `Cursor.breakRun_reaches`.
* `Cursor.placeWhole_agrees`, `Cursor.placeBits_agrees`.
* `Cursor.frontier_toIdeal_lt`: the frontier of a cursor is in range.
-/

namespace AbiLayout.Cursor

/-- The cursor behind a step is the ideal one, unless the frontier of that is out of range. -/
def Reaches (policy : BitfieldPolicy) (out : Option Cursor) (ideal : Ideal.Cursor) : Prop :=
  match out with
  | none => 2 ^ 64 ≤ ideal.frontier
  | some c => c.policy = policy ∧ c.toIdeal = ideal

/-- A placement is at the ideal offset, unless the frontier of the ideal cursor is out of range. -/
def Agrees (policy : BitfieldPolicy) (out : Option BitCount × Cursor)
    (ideal : Nat × Ideal.Cursor) : Prop :=
  match out with
  | (none, _) => 2 ^ 64 ≤ ideal.2.frontier
  | (some offset, c) => offset.count = ideal.1 ∧ c.policy = policy ∧ c.toIdeal = ideal.2

variable {c : Cursor}

@[simp] theorem toIdeal_dataSize : c.toIdeal.dataSize = c.dataSize.count := rfl

theorem toIdeal_openUnit : c.toIdeal.openUnit = c.openUnit.map StorageUnit.toIdeal := rfl

@[simp] theorem toIdeal_moveTo (x : BitCount) :
    (c.moveTo x).toIdeal = { c.toIdeal with dataSize := x.count } := rfl

@[simp] theorem policy_moveTo (x : BitCount) : (c.moveTo x).policy = c.policy := rfl

theorem toIdeal_openUnit_of_some {u : StorageUnit} (h : c.openUnit = some u) :
    c.toIdeal.openUnit = some u.toIdeal := by
  rw [toIdeal_openUnit, h, Option.map_some]

theorem toIdeal_openUnit_of_none (h : c.openUnit = none) : c.toIdeal.openUnit = none := by
  rw [toIdeal_openUnit, h, Option.map_none]

/-- The frontier of a cursor is in range. -/
theorem frontier_toIdeal_lt (c : Cursor) : c.toIdeal.frontier < 2 ^ 64 := by
  cases h : c.openUnit with
  | none =>
    rw [Ideal.Cursor.frontier_of_none (toIdeal_openUnit_of_none h)]
    exact c.dataSize.count_lt
  | some u =>
    rw [Ideal.Cursor.frontier_of_some (toIdeal_openUnit_of_some h)]
    exact u.stop.count_lt

/-- Moving the cursor to a rounded position, where that fits. -/
theorem reaches_roundUp {ideal : Ideal.Cursor} (alignment : BitCount)
    (ha : alignment.count.isPowerOfTwo)
    (hideal : ideal = { c.toIdeal with
      dataSize := nextMultiple c.dataSize.count alignment.count })
    (hle : ideal.dataSize ≤ ideal.frontier) :
    ∃ out, (c.dataSize.roundUp? alignment).map (Option.map c.moveTo) = .ok out ∧
      Reaches c.policy out ideal := by
  refine ⟨_, by rw [Quantity.roundUp?_eq _ ha]; rfl, ?_⟩
  cases hfit : Quantity.fit? (g := .bit) (nextMultiple c.dataSize.count alignment.count) with
  | none =>
    rw [Quantity.fit?_eq_none_iff] at hfit
    rw [hideal] at hle ⊢
    exact hfit.trans hle
  | some x =>
    rw [Quantity.fit?_eq_some_iff] at hfit
    exact ⟨rfl, by rw [toIdeal_moveTo, hfit, hideal]⟩

/-! ### Ending a run -/

/-- Ending a run agrees with the ideal step, and does not trap. -/
theorem endRun_reaches (hc : c.toIdeal.Valid c.policy) :
    ∃ out, c.endRun = .ok out ∧ Reaches c.policy out (c.toIdeal.endRun c.policy) := by
  cases hpolicy : c.policy with
  | itanium =>
    have hle := Ideal.Cursor.dataSize_le_frontier (Ideal.Cursor.valid_endRun hc)
    rw [hpolicy] at hle
    obtain ⟨out, hout, hreaches⟩ := reaches_roundUp (c := c) (.of 8) ⟨3, rfl⟩ rfl hle
    rw [hpolicy] at hreaches
    refine ⟨out, ?_, hreaches⟩
    rw [endRun, hpolicy]
    exact hout
  | strictUnits =>
    rw [hpolicy] at hc
    cases hunit : c.openUnit with
    | none =>
      refine ⟨some c, by rw [endRun, hpolicy, hunit], hpolicy, ?_⟩
      rw [Ideal.Cursor.endRun, toIdeal_openUnit_of_none hunit]
    | some u =>
      have hstart : u.start.count ≤ c.dataSize.count :=
        hc.start_le _ (toIdeal_openUnit_of_some hunit)
      refine ⟨some { c with dataSize := u.stop, openUnit := none }, ?_, hpolicy, ?_⟩
      · rw [endRun, hpolicy, hunit]
        exact if_neg (Nat.not_lt.mpr hstart)
      · rw [Ideal.Cursor.endRun, toIdeal_openUnit_of_some hunit]
        rfl

/-! ### Members of whole bytes -/

/-- Placing bits at an offset that fits agrees with the ideal step. -/
theorem placeAt_agrees {policy : BitfieldPolicy} {offset width : BitCount}
    (hpolicy : c.policy = policy)
    (hvalid : (c.toIdeal.placeAt offset.count width.count).2.Valid policy) :
    Agrees policy (c.placeAt offset width) (c.toIdeal.placeAt offset.count width.count) := by
  unfold placeAt
  cases hfit : offset.add? width with
  | none =>
    exact (Quantity.fit?_eq_none_iff.mp hfit).trans (Ideal.Cursor.dataSize_le_frontier hvalid)
  | some stop =>
    have hstop := Quantity.fit?_eq_some_iff.mp hfit
    exact ⟨rfl, hpolicy, by rw [toIdeal_moveTo, hstop]; rfl⟩

/-- Placing bits at the next multiple of an alignment agrees with the ideal step. -/
theorem placeAligned_agrees {policy : BitfieldPolicy} {alignment width : BitCount}
    (hpolicy : c.policy = policy) (ha : alignment.count.isPowerOfTwo)
    (hvalid : (c.toIdeal.placeAt (nextMultiple c.dataSize.count alignment.count)
      width.count).2.Valid policy) :
    ∃ out, c.placeAligned alignment width = .ok out ∧
      Agrees policy out
        (c.toIdeal.placeAt (nextMultiple c.dataSize.count alignment.count) width.count) := by
  rw [placeAligned, Quantity.roundUp?_eq _ ha]
  cases hfit : Quantity.fit? (g := .bit) (nextMultiple c.dataSize.count alignment.count) with
  | none =>
    refine ⟨(none, c), rfl, ?_⟩
    have hle := Ideal.Cursor.dataSize_le_frontier hvalid
    rw [Quantity.fit?_eq_none_iff] at hfit
    exact (hfit.trans (Nat.le_add_right _ width.count)).trans hle
  | some offset =>
    rw [Quantity.fit?_eq_some_iff] at hfit
    rw [← hfit] at hvalid ⊢
    exact ⟨c.placeAt offset width, rfl, placeAt_agrees hpolicy hvalid⟩

/-- Placing a member of whole bytes agrees with the ideal step, and does not trap. -/
theorem placeWhole_agrees (alignment width : BitCount) (hc : c.toIdeal.Valid c.policy)
    (ha : alignment.count.isPowerOfTwo) (h8 : 8 ∣ alignment.count) (hw : 8 ∣ width.count) :
    ∃ out, c.placeWhole alignment width = .ok out ∧
      Agrees c.policy out (c.toIdeal.placeWhole c.policy alignment.count width.count) := by
  obtain ⟨out, hout, hreaches⟩ := endRun_reaches hc
  have hvalid : (c.toIdeal.placeWhole c.policy alignment.count width.count).2.Valid c.policy :=
    Ideal.Cursor.valid_placeWhole hc h8 hw
  rw [placeWhole, hout]
  cases out with
  | none =>
    have hroom : c.toIdeal.room c.policy ≤
        (c.toIdeal.placeWhole c.policy alignment.count width.count).1 :=
      Ideal.Cursor.room_le_placeWhole (Nat.pos_of_isPowerOfTwo ha)
    refine ⟨(none, c), rfl, hreaches.trans ?_⟩
    rw [Ideal.Cursor.frontier_endRun hc]
    exact (hroom.trans (Nat.le_add_right _ width.count)).trans
      (Ideal.Cursor.dataSize_le_frontier hvalid)
  | some closed =>
    obtain ⟨hpolicy, hclosed⟩ := hreaches
    have hsize : closed.dataSize.count = c.toIdeal.room c.policy :=
      congrArg Ideal.Cursor.dataSize hclosed
    have hstep : closed.toIdeal.placeAt (nextMultiple closed.dataSize.count alignment.count)
        width.count = c.toIdeal.placeWhole c.policy alignment.count width.count := by
      rw [hclosed, hsize]
      rfl
    rw [← hstep] at hvalid
    obtain ⟨out, hplaced, hagrees⟩ := placeAligned_agrees hpolicy ha hvalid
    exact ⟨out, hplaced, hstep ▸ hagrees⟩

/-! ### Bit-fields -/

section Bits

variable {p : Primitive} {width : BitCount}

/-- Under the Itanium policy, placing a bit-field agrees with the ideal step. The sum of the residue
and the width stays in range because the size is a multiple of a power of two. -/
theorem placeShared_agrees (hpolicy : c.policy = .itanium) (hc : c.toIdeal.Valid .itanium)
    (hp : p.Usable) (hw : width.count ≤ p.bitSize) {alignment unit : BitCount}
    (ha : alignment.count = p.bitAlignment) (hunit : unit.count = p.bitSize) :
    ∃ out, c.placeShared alignment unit width = .ok out ∧
      Agrees .itanium out (c.toIdeal.placeShared p width.count) := by
  have hpow : alignment.count.isPowerOfTwo := ha ▸ hp.bitAlignment_isPowerOfTwo
  have hzero : ¬alignment.isZero = true := by
    rw [Quantity.isZero_iff]
    have := hp.bitAlignment_pos
    omega
  have hunits : c.toIdeal.openUnit = none := hc.shared rfl
  have hmod : c.dataSize.count % alignment.count < alignment.count :=
    Nat.mod_lt _ (Nat.pos_of_isPowerOfTwo hpow)
  -- the size and `2 ^ 64` are both multiples of the alignment, so they are that far apart
  have hroom : p.bitSize + alignment.count ≤ 2 ^ 64 :=
    add_le_two_pow_of_dvd hpow alignment.count_lt (ha ▸ hp.bitAlignment_dvd_bitSize) hp.bitSize_lt
  have hsum : c.dataSize.count % alignment.count + width.count < 2 ^ 64 := by omega
  rw [placeShared, Quantity.rem, if_neg hzero, except_ok_bind, Quantity.add,
    Quantity.fit_eq_ok hsum, except_ok_bind, Ideal.Cursor.placeShared]
  have hcond : (unit < (⟨_, hsum⟩ : BitCount)) ↔
      p.bitSize < c.toIdeal.dataSize % p.bitAlignment + width.count := by
    rw [Quantity.lt_iff, hunit, ← ha]
    rfl
  by_cases hlt : unit < (⟨_, hsum⟩ : BitCount)
  · rw [if_pos hlt, if_pos (hcond.mp hlt), ← ha]
    exact placeAligned_agrees hpolicy hpow (Ideal.Cursor.valid_itanium hunits)
  · rw [if_neg hlt, if_neg (mt hcond.mpr hlt)]
    exact ⟨_, rfl, placeAt_agrees hpolicy (Ideal.Cursor.valid_itanium hunits)⟩

/-- Opening a fresh unit agrees with the ideal step. -/
theorem placeInFreshUnit_agrees (hpolicy : c.policy = .strictUnits)
    (hc : c.toIdeal.Valid .strictUnits) (hp : p.Usable) (hw : width.count ≤ p.bitSize)
    {alignment unit : BitCount} (ha : alignment.count = p.bitAlignment)
    (hunit : unit.count = p.bitSize) :
    ∃ out, c.placeInFreshUnit p alignment unit width = .ok out ∧
      Agrees .strictUnits out (c.toIdeal.placeInFreshUnit p width.count) := by
  have hpow : alignment.count.isPowerOfTwo := ha ▸ hp.bitAlignment_isPowerOfTwo
  obtain ⟨out, hout, hreaches⟩ := endRun_reaches (hpolicy ▸ hc)
  rw [hpolicy] at hreaches
  have hle : c.toIdeal.room .strictUnits ≤
      nextMultiple (c.toIdeal.room .strictUnits) p.bitAlignment :=
    le_nextMultiple _ hp.bitAlignment_pos
  rw [placeInFreshUnit, hout]
  cases out with
  | none =>
    refine ⟨(none, c), rfl, hreaches.trans ?_⟩
    rw [Ideal.Cursor.frontier_endRun hc]
    exact hle.trans (Nat.le_add_right _ _)
  | some closed =>
    obtain ⟨hpolicy', hclosed⟩ := hreaches
    have hsize : closed.dataSize.count = c.toIdeal.room .strictUnits :=
      congrArg Ideal.Cursor.dataSize hclosed
    rw [except_ok_bind]
    simp only [Quantity.roundUp?_eq _ hpow, except_ok_bind, hsize, ha]
    cases hstart : Quantity.fit? (g := .bit)
        (nextMultiple (c.toIdeal.room .strictUnits) p.bitAlignment) with
    | none =>
      refine ⟨(none, closed), rfl, ?_⟩
      exact (Quantity.fit?_eq_none_iff.mp hstart).trans (Nat.le_add_right _ _)
    | some start =>
      rw [Quantity.fit?_eq_some_iff] at hstart
      cases hstop : start.add? unit with
      | none =>
        refine ⟨(none, closed), by simp only [hstop, except_pure], ?_⟩
        rw [Quantity.add?, Quantity.fit?_eq_none_iff, hstart, hunit] at hstop
        exact hstop
      | some stop =>
        simp only [hstop]
        rw [Quantity.add?, Quantity.fit?_eq_some_iff, hstart, hunit] at hstop
        have hstep : ({ closed with openUnit := some ⟨p, start, stop⟩ } : Cursor).toIdeal.placeAt
            start.count width.count = c.toIdeal.placeInFreshUnit p width.count := by
          change (start.count, (⟨start.count + width.count,
            some ⟨p, start.count, stop.count⟩⟩ : Ideal.Cursor)) = _
          rw [hstop, hstart]
          rfl
        refine ⟨_, rfl, hstep ▸ placeAt_agrees hpolicy' ?_⟩
        rw [hstep]
        exact Ideal.Cursor.valid_placeInFreshUnit hw

/-- The test for room in the open unit is the ideal one; where it fails, the bit-field would reach
past all counts. -/
theorem fitsOpenUnit?_eq_some {fits : Bool} (h : c.fitsOpenUnit? p width = some fits) :
    c.toIdeal.fitsOpenUnit p width.count = fits := by
  unfold fitsOpenUnit? at h
  cases hunit : c.openUnit with
  | none =>
    simp only [hunit, Option.some.injEq] at h
    rw [Ideal.Cursor.fitsOpenUnit, toIdeal_openUnit_of_none hunit, ← h]
  | some u =>
    simp only [hunit] at h
    rw [Ideal.Cursor.fitsOpenUnit, toIdeal_openUnit_of_some hunit]
    by_cases hp : u.underlying = p
    · rw [if_pos hp] at h
      obtain ⟨stop, hstop, rfl⟩ := Option.map_eq_some_iff.mp h
      rw [Quantity.add?, Quantity.fit?_eq_some_iff] at hstop
      simp [StorageUnit.toIdeal, hp, Quantity.le_iff, hstop]
    · rw [if_neg hp] at h
      cases h
      simp [StorageUnit.toIdeal, hp]

theorem fitsOpenUnit?_eq_none (h : c.fitsOpenUnit? p width = none) :
    ∃ u, c.openUnit = some u ∧ u.underlying = p ∧ 2 ^ 64 ≤ c.dataSize.count + width.count := by
  unfold fitsOpenUnit? at h
  cases hunit : c.openUnit with
  | none => simp [hunit] at h
  | some u =>
    simp only [hunit] at h
    by_cases hp : u.underlying = p
    · rw [if_pos hp, Option.map_eq_none_iff, Quantity.add?, Quantity.fit?_eq_none_iff] at h
      exact ⟨u, rfl, hp, h⟩
    · rw [if_neg hp] at h
      cases h

/-- Placing a bit-field agrees with the ideal step, and does not trap. -/
theorem placeBits_agrees (hc : c.toIdeal.Valid c.policy) (hp : p.Usable)
    (hpos : 0 < width.count) (hw : width.count ≤ p.bitSize) :
    ∃ out, c.placeBits p width = .ok out ∧
      Agrees c.policy out (c.toIdeal.placeBits c.policy p width.count) := by
  have hsize : 0 < p.bitSize := hpos.trans_le hw
  have halign := hp.bitAlignment_lt hsize
  rw [placeBits, hp.bits_eq_ok, except_ok_bind, Quantity.toBits_eq_ok halign, except_ok_bind]
  cases hpolicy : c.policy with
  | itanium => 
    rw [hpolicy] at hc
    exact placeShared_agrees hpolicy hc hp hw rfl rfl
  | strictUnits =>
    rw [hpolicy] at hc
    have hvalid := Ideal.Cursor.valid_placeBits hc hw
    have hideal : c.toIdeal.placeBits .strictUnits p width.count =
        if c.toIdeal.fitsOpenUnit p width.count then
          c.toIdeal.placeAt c.dataSize.count width.count
        else c.toIdeal.placeInFreshUnit p width.count := rfl
    cases hfits : c.fitsOpenUnit? p width with
    | none =>
      -- the open unit ends within the range, so the bit-field goes to a unit past the range
      obtain ⟨u, hu, rfl, hover⟩ := fitsOpenUnit?_eq_none hfits
      have hu' := toIdeal_openUnit_of_some hu
      have hle : c.dataSize.count ≤ u.stop.count := hc.dataSize_le _ hu'
      have hroom : c.toIdeal.room .strictUnits = u.stop.count :=
        Ideal.Cursor.room_strictUnits_of_some hu'
      have hstart : u.stop.count ≤
          nextMultiple (c.toIdeal.room .strictUnits) u.underlying.bitAlignment :=
        hroom.symm.trans_le (le_nextMultiple _ hp.bitAlignment_pos)
      have hnot : c.toIdeal.fitsOpenUnit u.underlying width.count = false := by
        have hlt := u.stop.count_lt
        have hover' : ¬c.dataSize.count + width.count ≤ u.stop.count := by omega
        rw [Ideal.Cursor.fitsOpenUnit, hu']
        simp [StorageUnit.toIdeal, hover']
      refine ⟨(none, c), rfl, ?_⟩
      rw [hideal, hnot]
      change 2 ^ 64 ≤ nextMultiple (c.toIdeal.room .strictUnits) u.underlying.bitAlignment +
        u.underlying.bitSize
      omega
    | some fits =>
      have hfits' := fitsOpenUnit?_eq_some hfits
      rw [hideal, hfits'] at hvalid ⊢
      cases fits with
      | true => exact ⟨_, rfl, placeAt_agrees hpolicy hvalid⟩
      | false => exact placeInFreshUnit_agrees hpolicy hc hp hw rfl rfl

end Bits

/-! ### Zero-width bit-fields -/

/-- A zero-width bit-field agrees with the ideal step, and does not trap where the alignment of its
type fits in bits. -/
theorem breakRun_reaches (hc : c.toIdeal.Valid c.policy) {p : Primitive} (hp : p.Usable)
    (hfits : p.bitAlignment < 2 ^ 64) :
    ∃ out, c.breakRun p = .ok out ∧ Reaches c.policy out (c.toIdeal.breakRun c.policy p) := by
  have hle := Ideal.Cursor.dataSize_le_frontier (Ideal.Cursor.valid_breakRun hc p)
  cases hpolicy : c.policy with
  | itanium =>
    rw [hpolicy] at hle
    obtain ⟨out, hout, hreaches⟩ := reaches_roundUp (c := c) ⟨p.bitAlignment, hfits⟩
      hp.bitAlignment_isPowerOfTwo rfl hle
    rw [hpolicy] at hreaches
    refine ⟨out, ?_, hreaches⟩
    rw [breakRun, hpolicy]
    simp only [Quantity.toBits_eq_ok (x := p.alignment) hfits, except_ok_bind]
    exact hout
  | strictUnits =>
    obtain ⟨out, hout, hreaches⟩ := endRun_reaches hc
    rw [hpolicy] at hreaches
    refine ⟨out, ?_, hreaches⟩
    rw [breakRun, hpolicy]
    exact hout

end AbiLayout.Cursor
