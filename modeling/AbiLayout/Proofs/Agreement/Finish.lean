import AbiLayout.Proofs.Agreement.Struct
import AbiLayout.Proofs.Evaluation
import AbiLayout.Proofs.Ideal.Layout

/-!
# Finished layouts agree with ideal ones

The size, the alignment and the padding of a finished draft are those of the ideal draft, if the
bits of the ideal size fit in 64 bits. Otherwise the record is reported as too large. Nothing traps
on the way: all sums are bounded by the size.

## Main definitions

* `RecordAgrees`: the outcome for a record agrees with an ideal layout.

## Main results

* `Profile.recordSize?_eq`: the checked size of a record.
* `gapsFrom_eq_ok`: the gaps are the ideal ones.
* `StructDraft.finish_agrees`, `UnionDraft.finish_agrees`.
-/

namespace AbiLayout

/-- The outcome for a record is the ideal layout where the bits of its size fit in 64 bits, and
otherwise the report that the record is too large. -/
def RecordAgrees (record : Record) (ideal : Ideal.Layout) : Except LayoutError RecordLayout → Prop
  | .ok l => l.toIdeal = ideal ∧ 8 * ideal.size < 2 ^ 64
  | .error e => (∃ member, e = .pastRange record member) ∧ 2 ^ 64 ≤ 8 * ideal.size

/-! ### Sizes -/

/-- The checked size of a record is the ideal one, where its bits fit in 64 bits. -/
theorem Profile.recordSize?_eq (p : Profile) (unpadded : ByteCount) {alignment : ByteCount}
    (ha : alignment.count.isPowerOfTwo) :
    p.recordSize? unpadded alignment =
      .ok ((Quantity.fit? (Ideal.recordSize p unpadded.count alignment.count)).filter
        Quantity.fitsInBits) := by
  rw [recordSize?]
  by_cases hzero : unpadded.isZero = true
  · rw [if_pos hzero, Quantity.roundUp?_eq _ ha, Ideal.recordSize,
      if_pos (Quantity.isZero_iff.mp hzero)]
    rfl
  · rw [if_neg hzero, Quantity.roundUp?_eq _ ha, Ideal.recordSize,
      if_neg (mt Quantity.isZero_iff.mpr hzero)]
    rfl

theorem fit?_filter_eq_some {n : Nat} {x : ByteCount}
    (h : (Quantity.fit? n).filter Quantity.fitsInBits = some x) :
    x.count = n ∧ 8 * x.count < 2 ^ 64 := by
  obtain ⟨hfit, hbits⟩ := Option.filter_eq_some_iff.mp h
  exact ⟨Quantity.fit?_eq_some_iff.mp hfit, Quantity.fitsInBits_iff.mp hbits⟩

theorem fit?_filter_eq_none {n : Nat}
    (h : (Quantity.fit? (g := .byte) n).filter Quantity.fitsInBits = none) : 2 ^ 64 ≤ 8 * n := by
  by_contra hlt
  have hn : n < 2 ^ 64 := by omega
  have hfit : Quantity.fit? (g := .byte) n = some ⟨n, hn⟩ := Quantity.fit?_eq_some_iff.mpr rfl
  rw [hfit, Option.filter_some_eq_none] at h
  exact h (Quantity.fitsInBits_iff.mpr (Nat.lt_of_not_le hlt))

/-! ### Gaps -/

theorem gap_toIdeal (start stop : BitCount) :
    (gap start stop).map BitRange.toIdeal = Ideal.gap start.count stop.count := by
  unfold gap Ideal.gap
  by_cases h : start < stop
  · rw [if_pos h, if_pos (Quantity.lt_iff.mp h)]
    rfl
  · rw [if_neg h, if_neg (mt Quantity.lt_iff.mpr h)]
    rfl

@[simp] theorem PlacedMember.toIdeal_offset (m : PlacedMember) :
    m.toIdeal.offset = m.offset.count := rfl

@[simp] theorem PlacedMember.toIdeal_member (m : PlacedMember) : m.toIdeal.member = m.member := rfl

/-- A flexible array counts as no bits, also among numbers. -/
@[simp] theorem PlacedMember.toIdeal_counted (m : PlacedMember) :
    m.toIdeal.counted = m.extent.counted.count := by
  rw [toIdeal]
  cases m.extent <;> rfl

/-- A member that ends within the range has an end. -/
theorem PlacedMember.stop_eq_ok {m : PlacedMember} (h : m.toIdeal.stop < 2 ^ 64) :
    m.stop = .ok ⟨m.toIdeal.stop, h⟩ := by
  rw [stop, Quantity.add, Quantity.fit_eq_ok_iff, ← toIdeal_counted]
  rfl

/-- The gaps between members that are ordered within the size are the ideal ones. -/
theorem gapsFrom_eq_ok (size reached : BitCount) {ms : List PlacedMember}
    (h : Ideal.Ordered size.count reached.count (ms.map PlacedMember.toIdeal)) :
    ∃ ps, gapsFrom size reached ms = .ok ps ∧ ps.map BitRange.toIdeal =
      Ideal.gapsFrom size.count reached.count (ms.map PlacedMember.toIdeal) := by
  induction ms generalizing reached with
  | nil => exact ⟨_, rfl, gap_toIdeal reached size⟩
  | cons m ms ih =>
    obtain ⟨hoffset, hle⟩ := h.head
    have hstop := m.stop_eq_ok (hle.trans_lt size.count_lt)
    have hreached : (max reached ⟨m.toIdeal.stop, hle.trans_lt size.count_lt⟩ : BitCount).count =
        m.toIdeal.stop := by
      rw [Quantity.count_max]
      exact Nat.max_eq_right (hoffset.trans (Ideal.offset_le_stop m.toIdeal))
    have htail := h.tail
    rw [← hreached] at htail
    obtain ⟨later, hlater, hmap⟩ := ih _ htail
    refine ⟨gap reached m.offset ++ later, ?_, ?_⟩
    · rw [gapsFrom, hstop, except_ok_bind, hlater]
      rfl
    · rw [List.map_append, gap_toIdeal, hmap, hreached, List.map_cons,
        Ideal.gapsFrom_cons hoffset, PlacedMember.toIdeal_offset]

/-! ### Structs -/

namespace StructDraft

variable {d : StructDraft} {c : LayoutContext}
  {bases : List ResolvedBase} {fields : List Field} {placements : List Placement}

/-- A draft whose closed cursor, size and gaps are in range has a layout. -/
theorem value_finish (answer : RecordId → Except Trap Answer) {record : Record} {closed : Cursor}
    {size : ByteCount} {bits : BitCount} {padding : List BitRange}
    (hclosed : d.cursor.endRun = .ok (some closed))
    (hsize : c.profile.recordSize? closed.dataSize.coveringBytes d.alignment = .ok (some size))
    (hbits : size.toBits = .ok bits) (hgaps : gapsBetween d.members bits = .ok padding) :
    LayoutT.value answer (d.finish c record) = .ok (.ok
      ⟨.struct, size, d.alignment, d.cursor.dataSize, d.members, padding, d.hasFlexibleTail⟩) := by
  rw [finish]
  simp only [LayoutT.value_bind, LayoutT.value_liftM, hclosed, hsize, hbits, except_ok_bind]
  split
  · rename_i hlt
    have hsub : bits.sub d.cursor.dataSize = .ok ⟨bits.count - d.cursor.dataSize.count, _⟩ :=
      if_neg (Nat.lt_asymm hlt)
    simp only [LayoutT.value_bind, LayoutT.value_liftM, LayoutT.value_lift, LayoutM.value_notify,
      LayoutT.value_pure, hsub, hgaps, except_ok_bind]
  · simp only [LayoutT.value_bind, LayoutT.value_liftM, LayoutT.value_pure, hgaps,
      except_ok_bind]

/-- Finishing a draft agrees with the ideal draft, and does not trap. -/
theorem finish_agrees (answer : RecordId → Except Trap Answer) (record : Record)
    (hpolicy : d.cursor.policy = c.profile.bitfieldPolicy)
    (hd : d.toIdeal.Filled c.profile.bitfieldPolicy bases fields placements) :
    ∃ out, LayoutT.value answer (d.finish c record) = .ok out ∧
      RecordAgrees record (d.toIdeal.finish c.profile) out := by
  have hpow : d.alignment.count.isPowerOfTwo := hd.alignment_isPowerOfTwo
  have hroom := Ideal.StructDraft.room_le_size c.profile hd.alignment_isPowerOfTwo
  have hideal : (d.toIdeal.finish c.profile).size = Ideal.recordSize c.profile
    ((d.cursor.toIdeal.room c.profile.bitfieldPolicy + 7) / 8) d.alignment.count := rfl
  obtain ⟨closed, hclosed, hreaches⟩ := Cursor.endRun_reaches (hpolicy ▸ hd.valid)
  rw [hpolicy] at hreaches
  cases closed with
  | none =>
    have hroom' : 2 ^ 64 ≤ (d.toIdeal.cursor.endRun c.profile.bitfieldPolicy).frontier := hreaches
    rw [Ideal.Cursor.frontier_endRun hd.valid] at hroom'
    refine ⟨.error (.pastRange record LayoutError.tailName), ?_, ⟨_, rfl⟩, hroom'.trans hroom⟩
    rw [finish]
    simp only [LayoutT.value_bind, LayoutT.value_liftM, LayoutT.value_throw, hclosed,
      except_ok_bind]
  | some closed =>
    obtain ⟨-, hideal'⟩ := hreaches
    have hcover : closed.dataSize.coveringBytes.count =
        (d.cursor.toIdeal.room c.profile.bitfieldPolicy + 7) / 8 := by
      rw [← Ideal.Cursor.dataSize_endRun, ← hideal']
      rfl
    have hsize := c.profile.recordSize?_eq closed.dataSize.coveringBytes hpow
    rw [hcover, ← hideal] at hsize
    cases hfit : (Quantity.fit? (g := .byte) (d.toIdeal.finish c.profile).size).filter
        Quantity.fitsInBits with
    | none =>
      refine ⟨.error (.pastRange record LayoutError.tailName), ?_, ⟨_, rfl⟩,
        fit?_filter_eq_none hfit⟩
      rw [finish]
      simp only [LayoutT.value_bind, LayoutT.value_liftM, LayoutT.value_throw, hclosed, hsize,
        hfit, except_ok_bind]
    | some size =>
      obtain ⟨hcount, hbits⟩ := fit?_filter_eq_some hfit
      have hordered : Ideal.Ordered (8 * size.count) 0 (d.members.map PlacedMember.toIdeal) :=
        hcount ▸ hd.ordered
      obtain ⟨padding, hgaps, hmap⟩ := gapsFrom_eq_ok ⟨_, hbits⟩ .zero hordered
      refine ⟨_, value_finish answer hclosed (hfit ▸ hsize) (Quantity.toBits_eq_ok hbits) hgaps,
        ?_, hcount ▸ hbits⟩
      rw [Ideal.StructDraft.finish, RecordLayout.toIdeal, hmap]
      simp only [hcount, Quantity.count_zero]
      rfl

end StructDraft

/-! ### Unions -/

/-- The size of a member of whole bytes fits in bits. -/
def Placement.Bounded : Placement → Prop
  | bytes layout => 8 * layout.width.count < 2 ^ 64
  | _ => True

namespace UnionDraft

variable {d : UnionDraft}

/-- Placing a field in a union does not trap where its size fits in bits. -/
theorem place_eq_ok (i : Nat) (isNamed : Bool) :
    {placement : Placement} → placement.Bounded → ∃ d', d.place i isNamed placement = .ok d'
  | .zeroWidth _, _ => ⟨d, rfl⟩
  | .bitfield _, _ => ⟨_, rfl⟩
  | .bytes _, h => ⟨_, by rw [place, Quantity.toBits_eq_ok h, except_ok_bind]; rfl⟩

/-- It traps where its size does not. -/
theorem place_eq_overflow {i : Nat} {isNamed : Bool} :
    {placement : Placement} → ¬placement.Bounded → d.place i isNamed placement = .error .overflow
  | .zeroWidth _, h | .bitfield _, h => absurd trivial h
  | .bytes layout, h => by
    rw [place, Quantity.toBits_eq_overflow (Nat.not_lt.mp h)]
    rfl

/-- A field placed in a union is where the ideal step puts it. -/
theorem place_agrees {i : Nat} {isNamed : Bool} {d' : UnionDraft} :
    {placement : Placement} → d.place i isNamed placement = .ok d' →
      d'.toIdeal = d.toIdeal.place i isNamed placement
  | .zeroWidth _, h => by
    cases h
    rfl
  | .bitfield b, h => by
    cases h
    simp [toIdeal, push, Ideal.UnionDraft.place, Ideal.UnionDraft.push, PlacedMember.toIdeal,
      Extent.toIdeal]
  | .bytes layout, h => by
    obtain ⟨length, hlength, h⟩ := except_bind_eq_ok_iff.mp h
    rw [Quantity.toBits_eq_ok_iff] at hlength
    cases h
    simp [toIdeal, push, Ideal.UnionDraft.place, Ideal.UnionDraft.push, PlacedMember.toIdeal,
      Extent.toIdeal, hlength]

/-- The padding between the largest member and the size is the ideal gap. -/
theorem padding_eq_ok {size : ByteCount} (hbits : 8 * size.count < 2 ^ 64) :
    ∃ ps, d.padding size = .ok ps ∧
      ps.map BitRange.toIdeal = Ideal.gap (8 * d.size.count) (8 * size.count) := by
  rw [padding]
  by_cases hlt : d.size < size
  · have hlt' := Quantity.lt_iff.mp hlt
    have hsub : size.sub d.size = .ok ⟨size.count - d.size.count, _⟩ := if_neg (Nat.lt_asymm hlt)
    have hrest : 8 * (size.count - d.size.count) < 2 ^ 64 := by omega
    have hstart : 8 * d.size.count < 2 ^ 64 := by omega
    refine ⟨[⟨⟨_, hstart⟩, ⟨_, hrest⟩⟩], ?_, ?_⟩
    · rw [if_pos hlt, Quantity.toBits_eq_ok hstart, hsub]
      simp only [except_ok_bind, Quantity.toBits_eq_ok (x := ⟨_, _⟩) hrest]
      rfl
    · rw [Ideal.gap, if_pos (by omega)]
      simp only [List.map_cons, List.map_nil, BitRange.toIdeal, Nat.mul_sub]
  · rw [Quantity.lt_iff] at hlt
    refine ⟨[], if_neg hlt, ?_⟩
    rw [Ideal.gap, if_neg (by omega)]
    rfl

/-- Finishing a draft agrees with the ideal draft, and does not trap. -/
theorem finish_agrees (answer : RecordId → Except Trap Answer) (c : LayoutContext)
    (record : Record) (hd : d.alignment.count.isPowerOfTwo) :
    ∃ out, LayoutT.value answer (d.finish c record) = .ok out ∧
      RecordAgrees record (d.toIdeal.finish c.profile) out := by
  have hsize := c.profile.recordSize?_eq d.size hd
  have hideal : (d.toIdeal.finish c.profile).size =
    Ideal.recordSize c.profile d.size.count d.alignment.count := rfl
  rw [finish]
  simp only [LayoutT.value_bind, LayoutT.value_liftM, hsize, except_ok_bind]
  cases hfit : (Quantity.fit? (g := .byte) (Ideal.recordSize c.profile d.size.count
      d.alignment.count)).filter Quantity.fitsInBits with
  | none => exact ⟨_, LayoutT.value_throw answer _, ⟨_, rfl⟩, fit?_filter_eq_none hfit⟩
  | some size =>
    obtain ⟨hcount, hbits⟩ := fit?_filter_eq_some hfit
    obtain ⟨padding, hpadding, hmap⟩ := padding_eq_ok (d := d) hbits
    let l : RecordLayout :=
      ⟨.union, size, d.alignment, d.dataSize, d.members, padding, d.hasFlexibleTail⟩
    have hl : l.toIdeal = d.toIdeal.finish c.profile := by
      rw [Ideal.UnionDraft.finish, RecordLayout.toIdeal, hmap, hcount]
      rfl
    refine ⟨.ok l, ?_, hl, hideal ▸ hcount ▸ hbits⟩
    simp only [LayoutT.value_bind, LayoutT.value_liftM, hpadding, except_ok_bind,
      LayoutT.value_pure, l]

end UnionDraft

end AbiLayout
