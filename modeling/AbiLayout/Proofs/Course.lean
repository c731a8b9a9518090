import AbiLayout.Proofs.Acceptance
import AbiLayout.Proofs.Checking

/-!
# The course of a layout

The layout of a struct is put together in drafts, one in front of each base and of each field, and a
last one that is finished. What a member does to the layout is what its step does to the draft, so a
property of layouts is proved step by step along these drafts. A union has such drafts, too.

No alignment has to be a power of two for this. Where the base types of bit-fields are usable, the
cursor of every draft is valid, whatever the other members ask for: rounding up never moves the
cursor back, and a multiple of eight bits stays one.

## Main definitions

* `StructDraft.Places`, `StructDraft.PlacesBase`: a step that places a member, or skips it.
* `StructDraft.Finishes`, `UnionDraft.Finishes`: a draft and its layout.
* `StructDraft.Course`, `UnionDraft.Course`: the drafts of a layout.
* `Placement.Framed`: the base type of a bit-field is usable.

## Main results

* `Cursor.placeWhole_eq_some`, `Cursor.placeBits_eq_some`, `Cursor.breakRun_eq_some`: the steps of
  the cursor, as numbers.
* `LayoutContext.Resolves.nonempty_course`, `LayoutContext.Resolves.nonempty_unionCourse`: every
  layout has a course.
-/

namespace AbiLayout

/-! ### Rounding to any alignment -/

namespace Quantity

variable {g : Granule} {x a y : Quantity g}

/-- Rounding up never moves back. -/
theorem le_of_roundUp?_eq_some (h : x.roundUp? a = .ok (some y)) : x.count ≤ y.count := by
  obtain ⟨-, -, hy⟩ := roundUp?_eq_some_iff_clearLow.mp h
  have hmask : (x.count + (a.count - 1)) &&& (a.count - 1) ≤ a.count - 1 := Nat.and_le_right
  rw [← hy, clearLow]
  omega

/-- Rounding up to a multiple of eight gives one: the mask covers the last three bits. -/
theorem eight_dvd_of_roundUp?_eq_some (h : x.roundUp? a = .ok (some y)) (ha : 8 ∣ a.count) :
    8 ∣ y.count := by
  obtain ⟨hpos, -, hy⟩ := roundUp?_eq_some_iff_clearLow.mp h
  have hlow : ((x.count + (a.count - 1)) &&& (a.count - 1)) % 2 ^ 3 =
      (x.count + (a.count - 1)) % 2 ^ 3 := by
    have hmask : (a.count - 1) % 2 ^ 3 = 2 ^ 3 - 1 := by omega
    rw [Nat.and_mod_two_pow, hmask, Nat.and_two_pow_sub_one_eq_mod, Nat.mod_mod]
  have hmask : (x.count + (a.count - 1)) &&& (a.count - 1) ≤ x.count + (a.count - 1) :=
    Nat.and_le_left
  rw [← hy, clearLow]
  omega

/-- Rounding up to a power of two gives the next multiple. -/
theorem eq_nextMultiple_of_roundUp?_eq_some (h : x.roundUp? a = .ok (some y))
    (ha : a.count.isPowerOfTwo) : y.count = nextMultiple x.count a.count := by
  rw [roundUp?_eq x ha] at h
  exact fit?_eq_some_iff.mp (Except.ok.inj h)

end Quantity

/-- The size of a record covers what its members take. -/
theorem Profile.le_of_recordSize?_eq_some {p : Profile} {unpadded alignment size : ByteCount}
    (h : p.recordSize? unpadded alignment = .ok (some size)) : unpadded.count ≤ size.count := by
  obtain ⟨rounded, hrounded, h⟩ := except_bind_eq_ok_iff.mp h
  obtain ⟨rfl, -⟩ := Option.filter_eq_some_iff.mp (Except.ok.inj h)
  have hle := Quantity.le_of_roundUp?_eq_some hrounded
  split at hle
  · rename_i hzero
    rw [Quantity.isZero_iff.mp hzero]
    exact Nat.zero_le _
  · exact hle

/-- The size of a record that is aligned to a power of two is the ideal one. -/
theorem Profile.eq_of_recordSize?_eq_some {p : Profile} {unpadded alignment size : ByteCount}
    (h : p.recordSize? unpadded alignment = .ok (some size)) (ha : alignment.count.isPowerOfTwo) :
    size.count = Ideal.recordSize p unpadded.count alignment.count := by
  obtain ⟨rounded, hrounded, h⟩ := except_bind_eq_ok_iff.mp h
  obtain ⟨rfl, -⟩ := Option.filter_eq_some_iff.mp (Except.ok.inj h)
  rw [Quantity.eq_nextMultiple_of_roundUp?_eq_some hrounded ha, Ideal.recordSize]
  by_cases hzero : unpadded.count = 0
  · rw [if_pos (Quantity.isZero_iff.mpr hzero), if_pos hzero]
  · rw [if_neg (mt Quantity.isZero_iff.mp hzero), if_neg hzero]

/-! ### Steps of the cursor -/

namespace Cursor

variable {c c' : Cursor}

/-- Ending a run is the ideal step. -/
theorem endRun_eq_some (hc : c.toIdeal.Valid c.policy) (h : c.endRun = .ok (some c')) :
    c'.policy = c.policy ∧ c'.toIdeal = c.toIdeal.endRun c.policy := by
  obtain ⟨out, hout, hreaches⟩ := endRun_reaches hc
  cases hout.symm.trans h
  exact hreaches

/-- A member of whole bytes starts behind the room taken so far, at the next multiple if its
alignment is a power of two, and leaves no unit open. -/
theorem placeWhole_eq_some (hc : c.toIdeal.Valid c.policy) {alignment width offset : BitCount}
    (ha : 8 ∣ alignment.count) (h : c.placeWhole alignment width = .ok (some offset, c')) :
    c'.policy = c.policy ∧ c.toIdeal.room c.policy ≤ offset.count ∧ 8 ∣ offset.count ∧
      (alignment.count.isPowerOfTwo →
        offset.count = nextMultiple (c.toIdeal.room c.policy) alignment.count) ∧
      c'.toIdeal = ⟨offset.count + width.count, none⟩ := by
  obtain ⟨closed, hclosed, h⟩ := except_bind_eq_ok_iff.mp h
  cases closed with
  | none => cases h
  | some closed =>
    obtain ⟨hpolicy, hideal⟩ := endRun_eq_some hc hclosed
    obtain ⟨rounded, hrounded, h⟩ := except_bind_eq_ok_iff.mp h
    cases rounded with
    | none => cases h
    | some rounded =>
      have hle := Quantity.le_of_roundUp?_eq_some hrounded
      have hdvd := Quantity.eight_dvd_of_roundUp?_eq_some hrounded ha
      have hroom : closed.dataSize.count = c.toIdeal.room c.policy :=
        congrArg Ideal.Cursor.dataSize hideal
      have hunit : closed.toIdeal.openUnit = none := by
        rw [hideal]
        exact Ideal.Cursor.openUnit_endRun hc
      have hplaced : closed.placeAt rounded width = (some offset, c') := Except.ok.inj h
      rw [placeAt] at hplaced
      split at hplaced
      · cases hplaced
      · rename_i stop hstop
        rw [Quantity.add?, Quantity.fit?_eq_some_iff] at hstop
        cases hplaced
        exact ⟨hpolicy, hroom ▸ hle, hdvd,
          hroom ▸ Quantity.eq_nextMultiple_of_roundUp?_eq_some hrounded,
          congrArg₂ Ideal.Cursor.mk hstop hunit⟩

/-- Over a usable base type, placing a bit-field is the ideal step. -/
theorem placeBits_eq_some (hc : c.toIdeal.Valid c.policy) {p : Primitive} (hp : p.Usable)
    {width offset : BitCount} (hpos : 0 < width.count) (hw : width.count ≤ p.bitSize)
    (h : c.placeBits p width = .ok (some offset, c')) :
    c'.policy = c.policy ∧ offset.count = (c.toIdeal.placeBits c.policy p width.count).1 ∧
      c'.toIdeal = (c.toIdeal.placeBits c.policy p width.count).2 := by
  obtain ⟨out, hout, hagrees⟩ := placeBits_agrees hc hp hpos hw
  cases hout.symm.trans h
  exact ⟨hagrees.2.1, hagrees.1, hagrees.2.2⟩

/-- Over a usable base type, a zero-width bit-field is the ideal step. -/
theorem breakRun_eq_some (hc : c.toIdeal.Valid c.policy) {p : Primitive} (hp : p.Usable)
    (h : c.breakRun p = .ok (some c')) :
    c'.policy = c.policy ∧ c'.toIdeal = c.toIdeal.breakRun c.policy p := by
  cases hpolicy : c.policy with
  | itanium =>
    have hfits : p.bitAlignment < 2 ^ 64 := by
      rw [breakRun, hpolicy] at h
      obtain ⟨alignment, halign, -⟩ := except_bind_eq_ok_iff.mp h
      rw [Quantity.toBits_eq_ok_iff] at halign
      exact halign.symm.trans_lt alignment.count_lt
    obtain ⟨out, hout, hreaches⟩ := breakRun_reaches hc hp hfits
    cases hout.symm.trans h
    rwa [hpolicy] at hreaches
  | strictUnits =>
    rw [breakRun, hpolicy] at h
    have hended := endRun_eq_some hc h
    rwa [hpolicy] at hended

end Cursor

/-! ### Placements -/

namespace Placement

/-- The extent of a member that is placed. An array of unknown length is unbounded, and anything
else is as long as its type. -/
def Reaches : Placement → Extent → Prop
  | zeroWidth _, _ => False
  | bitfield b, extent => extent = .bits b.width
  | bytes layout, .bits length =>
    layout.completeness ≠ .incomplete ∧ length.count = 8 * layout.width.count
  | bytes layout, .unbounded => layout.completeness = .incomplete

/-- What the placement of the field at position `i` adds to the members of a draft. -/
def Adds (placement : Placement) (i : Nat) (ms ms' : List PlacedMember) : Prop :=
  match placement with
  | zeroWidth _ => ms' = ms
  | placement => ∃ offset extent, placement.Reaches extent ∧
      ms' = ms ++ [⟨.field i, offset, extent⟩]

/-- Whether the type of the field has no known size. -/
def isTrailingOnly : Placement → Bool
  | bytes layout => layout.isTrailingOnly
  | _ => false

/-- The alignment that the field asks for. A zero-width bit-field asks for none. -/
def asked (isNamed : Bool) : Placement → Nat
  | zeroWidth _ => 0
  | bitfield b => (b.askedAlignment isNamed).count
  | bytes layout => layout.alignment.count

/-- The base type of a bit-field is usable, and a bit-field with bits is no wider than it. -/
def Framed : Placement → Prop
  | zeroWidth underlying => underlying.Usable
  | bitfield b =>
    b.underlying.Usable ∧ 0 < b.width.count ∧ b.width.count ≤ b.underlying.bitSize
  | bytes _ => True

/-- No step moves a member. -/
theorem Adds.isPrefix {placement : Placement} {i : Nat} {ms ms' : List PlacedMember}
    (h : placement.Adds i ms ms') : ms <+: ms' := by
  cases placement with
  | zeroWidth p => exact (h : ms' = ms) ▸ List.prefix_rfl
  | bitfield | bytes =>
    obtain ⟨offset, extent, -, rfl⟩ := h
    exact List.prefix_append ms _

/-- A member of whole bytes counts as whole bytes. -/
theorem Reaches.eight_dvd_counted {layout : TypeLayout} :
    {extent : Extent} → (bytes layout).Reaches extent → 8 ∣ extent.counted.count
  | .bits _, h => h.2 ▸ Nat.dvd_mul_right 8 _
  | .unbounded, _ => Nat.dvd_zero 8

end Placement

/-! ### Steps of drafts -/

/-- A first step, in front of the states that the later steps go through, gives the states that all
steps go through. -/
theorem exists_states {σ : Type} {R : Nat → σ → σ → Prop} {first next last : σ} {n : Nat}
    (hfirst : R 0 first next)
    (hlater : ∃ states : Nat → σ, states 0 = next ∧ states n = last ∧
      ∀ j, R (j + 1) (states j) (states (j + 1))) :
    ∃ states : Nat → σ, states 0 = first ∧ states (n + 1) = last ∧
      ∀ j, R j (states j) (states (j + 1)) := by
  obtain ⟨states, rfl, rfl, hlater⟩ := hlater
  refine ⟨Nat.rec first fun j _ => states j, rfl, rfl, fun j => ?_⟩
  cases j with
  | zero => exact hfirst
  | succ j => exact hlater j

namespace StructDraft

variable {d d' : StructDraft} {i : Nat} {isNamed : Bool}

/-- The field at position `i` is placed, or takes no place, and leads to the draft `d'`. -/
def Places (d : StructDraft) (i : Nat) (isNamed : Bool) (placement : Placement)
    (d' : StructDraft) : Prop :=
  ∃ step, step ≠ .tooLarge ∧ d.place i isNamed placement = .ok (step, d')

/-- The base at position `i` is placed and leads to the draft `d'`. -/
def PlacesBase (d : StructDraft) (i : Nat) (layout : RecordLayout) (d' : StructDraft) : Prop :=
  ∃ step, step ≠ .tooLarge ∧ d.placeBase i layout = .ok (step, d')

/-- The draft `d'` has gained one member that asks for an alignment, behind a step of the cursor. -/
def Gains (d : StructDraft) (member : Member) (offset : BitCount) (extent : Extent)
    (asked : ByteCount) (tail : Bool) (cursor : Cursor) (d' : StructDraft) : Prop :=
  ∃ alignment : ByteCount, alignment.count = max d.alignment.count asked.count ∧
    d' = ⟨cursor, alignment, d.members ++ [⟨member, offset, extent⟩], tail⟩

/-- The larger of two alignments is taken. -/
theorem count_eq_of_raiseAlignment {alignment asked raised : ByteCount}
    (h : raiseAlignment alignment asked = .ok raised) :
    raised.count = max alignment.count asked.count := by
  rw [raiseAlignment] at h
  split at h
  · rename_i hlt
    split at h
    · cases h
      exact (Nat.max_eq_right (Nat.le_of_lt hlt)).symm
    · cases h
  · rename_i hlt
    cases h
    exact (Nat.max_eq_left (Nat.le_of_not_lt hlt)).symm

/-- A placement that is settled has an offset, is told with it, and the draft gains the member
there. -/
theorem settle_eq_ok {member : Member} {extent : Extent} {asked : ByteCount} {tail : Bool}
    {placed : Option BitCount × Cursor} {step : PlaceStep} (hstep : step ≠ .tooLarge)
    (h : d.settle member extent asked tail placed = .ok (step, d')) :
    ∃ offset cursor, placed = (some offset, cursor) ∧ step = .placedAt offset ∧
      d.Gains member offset extent asked tail cursor d' := by
  obtain ⟨offset, cursor⟩ := placed
  cases offset with
  | none =>
    cases h
    exact absurd rfl hstep
  | some offset =>
    obtain ⟨alignment, hraise, h⟩ := except_bind_eq_ok_iff.mp h
    cases h
    exact ⟨offset, cursor, rfl, rfl, alignment, count_eq_of_raiseAlignment hraise, rfl⟩

theorem PlacesBase.gains {layout : RecordLayout} (h : d.PlacesBase i layout d') :
    ∃ (alignment size offset : BitCount) (cursor : Cursor),
      alignment.count = 8 * layout.alignment.count ∧ size.count = 8 * layout.size.count ∧
      d.cursor.placeWhole alignment size = .ok (some offset, cursor) ∧
      d.Gains (.base i) offset (.bits size) layout.alignment layout.hasFlexibleTail cursor d' := by
  obtain ⟨step, hstep, h⟩ := h
  obtain ⟨alignment, halign, h⟩ := except_bind_eq_ok_iff.mp h
  obtain ⟨size, hsize, h⟩ := except_bind_eq_ok_iff.mp h
  obtain ⟨placed, hplaced, h⟩ := except_bind_eq_ok_iff.mp h
  obtain ⟨offset, cursor, rfl, -, hgains⟩ := settle_eq_ok hstep h
  rw [Quantity.toBits_eq_ok_iff] at halign hsize
  exact ⟨alignment, size, offset, cursor, halign, hsize, hplaced, hgains⟩

theorem Places.zeroWidth {p : Primitive} (h : d.Places i isNamed (.zeroWidth p) d') :
    ∃ cursor, d.cursor.breakRun p = .ok (some cursor) ∧ d' = { d with cursor } := by
  obtain ⟨step, hstep, h⟩ := h
  obtain ⟨out, hout, h⟩ := except_bind_eq_ok_iff.mp h
  cases out with
  | none =>
    cases h
    exact absurd rfl hstep
  | some cursor =>
    cases h
    exact ⟨cursor, hout, rfl⟩

theorem Places.bitfield {b : Bitfield} (h : d.Places i isNamed (.bitfield b) d') :
    ∃ offset cursor, d.cursor.placeBits b.underlying b.width = .ok (some offset, cursor) ∧
      d.Gains (.field i) offset (.bits b.width) (b.askedAlignment isNamed) d.hasFlexibleTail cursor
        d' := by
  obtain ⟨step, hstep, h⟩ := h
  obtain ⟨placed, hplaced, h⟩ := except_bind_eq_ok_iff.mp h
  obtain ⟨offset, cursor, rfl, -, hgains⟩ := settle_eq_ok hstep h
  exact ⟨offset, cursor, hplaced, hgains⟩

theorem Places.bytes {layout : TypeLayout} (h : d.Places i isNamed (.bytes layout) d') :
    ∃ (alignment offset : BitCount) (extent : Extent) (cursor : Cursor),
      alignment.count = 8 * layout.alignment.count ∧ (Placement.bytes layout).Reaches extent ∧
      d.cursor.placeWhole alignment extent.counted = .ok (some offset, cursor) ∧
      d.Gains (.field i) offset extent layout.alignment
        (d.hasFlexibleTail || layout.isTrailingOnly) cursor d' := by
  obtain ⟨step, hstep, h⟩ := h
  obtain ⟨alignment, halign, h⟩ := except_bind_eq_ok_iff.mp h
  obtain ⟨size, hsize, h⟩ := except_bind_eq_ok_iff.mp h
  obtain ⟨placed, hplaced, h⟩ := except_bind_eq_ok_iff.mp h
  obtain ⟨offset, cursor, rfl, -, hgains⟩ := settle_eq_ok hstep h
  rw [Quantity.toBits_eq_ok_iff] at halign hsize
  by_cases hc : layout.completeness = .incomplete
  · have hflexible : (layout.completeness == .incomplete) = true := beq_iff_eq.mpr hc
    rw [if_pos hflexible] at hsize hgains
    obtain rfl : size = .zero := Quantity.ext hsize
    exact ⟨alignment, offset, .unbounded, cursor, halign, hc, hplaced, hgains⟩
  · have hflexible : ¬(layout.completeness == .incomplete) = true := mt beq_iff_eq.mp hc
    rw [if_neg hflexible] at hsize hgains
    exact ⟨alignment, offset, .bits size, cursor, halign, ⟨hc, hsize⟩, hplaced, hgains⟩

/-! ### What a step adds -/

theorem PlacesBase.members_eq {layout : RecordLayout} (h : d.PlacesBase i layout d') :
    ∃ (offset size : BitCount), size.count = 8 * layout.size.count ∧
      d'.members = d.members ++ [⟨.base i, offset, .bits size⟩] := by
  obtain ⟨-, size, offset, cursor, -, hsize, -, alignment, -, rfl⟩ := h.gains
  exact ⟨offset, size, hsize, rfl⟩

theorem PlacesBase.hasFlexibleTail_eq {layout : RecordLayout} (h : d.PlacesBase i layout d') :
    d'.hasFlexibleTail = layout.hasFlexibleTail := by
  obtain ⟨-, -, -, -, -, -, -, alignment, -, rfl⟩ := h.gains
  rfl

theorem Places.adds {placement : Placement} (h : d.Places i isNamed placement d') :
    placement.Adds i d.members d'.members := by
  cases placement with
  | zeroWidth p =>
    obtain ⟨cursor, -, rfl⟩ := h.zeroWidth
    rfl
  | bitfield b =>
    obtain ⟨offset, cursor, -, alignment, -, rfl⟩ := h.bitfield
    exact ⟨offset, _, rfl, rfl⟩
  | bytes layout =>
    obtain ⟨-, offset, extent, cursor, -, hreaches, -, alignment, -, rfl⟩ := h.bytes
    exact ⟨offset, extent, hreaches, rfl⟩

theorem Places.hasFlexibleTail_eq {placement : Placement} (h : d.Places i isNamed placement d') :
    d'.hasFlexibleTail = (d.hasFlexibleTail || placement.isTrailingOnly) := by
  cases placement with
  | zeroWidth p =>
    obtain ⟨cursor, -, rfl⟩ := h.zeroWidth
    exact (Bool.or_false _).symm
  | bitfield b =>
    obtain ⟨-, -, -, -, -, rfl⟩ := h.bitfield
    exact (Bool.or_false _).symm
  | bytes layout =>
    obtain ⟨-, -, -, -, -, -, -, -, -, rfl⟩ := h.bytes
    rfl

theorem PlacesBase.alignment_eq {layout : RecordLayout} (h : d.PlacesBase i layout d') :
    d'.alignment.count = max d.alignment.count layout.alignment.count := by
  obtain ⟨-, -, -, -, -, -, -, alignment, hraised, rfl⟩ := h.gains
  exact hraised

theorem Places.alignment_eq {placement : Placement} (h : d.Places i isNamed placement d') :
    d'.alignment.count = max d.alignment.count (placement.asked isNamed) := by
  cases placement with
  | zeroWidth p =>
    obtain ⟨cursor, -, rfl⟩ := h.zeroWidth
    exact (Nat.max_zero _).symm
  | bitfield b =>
    obtain ⟨-, -, -, alignment, hraised, rfl⟩ := h.bitfield
    exact hraised
  | bytes layout =>
    obtain ⟨-, -, -, -, -, -, -, alignment, hraised, rfl⟩ := h.bytes
    exact hraised

/-! ### Valid cursors -/

theorem PlacesBase.valid {layout : RecordLayout} (h : d.PlacesBase i layout d')
    (hd : d.cursor.toIdeal.Valid d.cursor.policy) :
    d'.cursor.policy = d.cursor.policy ∧ d'.cursor.toIdeal.Valid d'.cursor.policy := by
  obtain ⟨alignment, size, offset, cursor, halign, hsize, hplaced, asked, -, rfl⟩ := h.gains
  obtain ⟨hpolicy, -, hoffset, -, hideal⟩ :=
    Cursor.placeWhole_eq_some hd (halign ▸ Nat.dvd_mul_right 8 _) hplaced
  refine ⟨hpolicy, ?_⟩
  rw [hideal]
  exact Ideal.Cursor.valid_of_openUnit_eq_none rfl
    (Nat.dvd_add hoffset (hsize ▸ Nat.dvd_mul_right 8 _))

/-- A step keeps the policy and the validity of the cursor, if bit-fields are over usable base
types. -/
theorem Places.valid {placement : Placement} (h : d.Places i isNamed placement d')
    (hframed : placement.Framed) (hd : d.cursor.toIdeal.Valid d.cursor.policy) :
    d'.cursor.policy = d.cursor.policy ∧ d'.cursor.toIdeal.Valid d'.cursor.policy := by
  cases placement with
  | zeroWidth p =>
    obtain ⟨cursor, hbreak, rfl⟩ := h.zeroWidth
    obtain ⟨hpolicy, hideal⟩ := Cursor.breakRun_eq_some hd hframed hbreak
    refine ⟨hpolicy, ?_⟩
    rw [hideal, hpolicy]
    exact Ideal.Cursor.valid_breakRun hd p
  | bitfield b =>
    obtain ⟨hp, hpos, hw⟩ := hframed
    obtain ⟨offset, cursor, hplaced, alignment, -, rfl⟩ := h.bitfield
    obtain ⟨hpolicy, -, hideal⟩ := Cursor.placeBits_eq_some hd hp hpos hw hplaced
    refine ⟨hpolicy, ?_⟩
    rw [hideal, hpolicy]
    exact Ideal.Cursor.valid_placeBits hd hw
  | bytes layout =>
    obtain ⟨alignment, offset, extent, cursor, halign, hreaches, hplaced, asked, -, rfl⟩ := h.bytes
    obtain ⟨hpolicy, -, hoffset, -, hideal⟩ :=
      Cursor.placeWhole_eq_some hd (halign ▸ Nat.dvd_mul_right 8 _) hplaced
    refine ⟨hpolicy, ?_⟩
    rw [hideal]
    exact Ideal.Cursor.valid_of_openUnit_eq_none rfl
      (Nat.dvd_add hoffset hreaches.eight_dvd_counted)

/-! ### The course of a struct -/

/-- The draft is that of the layout. The size covers the closed cursor, and the padding is what the
members leave free. -/
structure Finishes (profile : Profile) (d : StructDraft) (l : RecordLayout) : Prop where
  kind_eq : l.kind = .struct
  alignment_eq : l.alignment = d.alignment
  dataSize_eq : l.dataSize = d.cursor.dataSize
  members_eq : l.members = d.members
  hasFlexibleTail_eq : l.hasFlexibleTail = d.hasFlexibleTail
  size_eq : ∃ closed, d.cursor.endRun = .ok (some closed) ∧
    profile.recordSize? closed.dataSize.coveringBytes d.alignment = .ok (some l.size)
  padding_eq : ∃ bits, l.size.toBits = .ok bits ∧ gapsBetween d.members bits = .ok l.padding

/-- The drafts of a struct with a layout: `based i` stands in front of the base at position `i`, and
`filled i` in front of the field at position `i`. -/
structure Course (profile : Profile) (record : Record) (bases : List ResolvedBase)
    (placements : List Placement) (l : RecordLayout) where
  based : Nat → StructDraft
  filled : Nat → StructDraft
  based_zero : based 0 = .start profile.bitfieldPolicy
  placesBase : ∀ {i : Nat} {base : ResolvedBase}, bases[i]? = some base →
    (based i).PlacesBase i base.layout (based (i + 1))
  filled_zero : filled 0 = based bases.length
  places : ∀ {i : Nat} {field : Field} {placement : Placement}, record.fields[i]? = some field →
    placements[i]? = some placement → (filled i).Places i field.isNamed placement (filled (i + 1))
  finishes : (filled record.fields.length).Finishes profile l

variable {c : LayoutContext} {answer : RecordId → Except Trap Answer} {record : Record}
  {l : RecordLayout}

theorem finish_eq_ok (h : LayoutT.value answer (d.finish c record) = .ok (.ok l)) :
    d.Finishes c.profile l := by
  rw [finish] at h
  obtain ⟨closed, hclosed, h⟩ := (LayoutT.value_bind_eq_ok_iff answer).mp h
  rw [LayoutT.value_liftM_eq_ok_iff] at hclosed
  cases closed with
  | none => cases h
  | some closed =>
    obtain ⟨size, hsize, h⟩ := (LayoutT.value_bind_eq_ok_iff answer).mp h
    rw [LayoutT.value_liftM_eq_ok_iff] at hsize
    cases size with
    | none => cases h
    | some size =>
      obtain ⟨bits, hbits, h⟩ := (LayoutT.value_bind_eq_ok_iff answer).mp h
      rw [LayoutT.value_liftM_eq_ok_iff] at hbits
      have hrest : ∃ padding, gapsBetween d.members bits = .ok padding ∧ l = ⟨.struct, size,
          d.alignment, d.cursor.dataSize, d.members, padding, d.hasFlexibleTail⟩ := by
        dsimp only at h
        split at h
        · obtain ⟨rest, -, h⟩ := (LayoutT.value_bind_eq_ok_iff answer).mp h
          obtain ⟨⟨⟩, -, h⟩ := (LayoutT.value_bind_eq_ok_iff answer).mp h
          obtain ⟨padding, hpadding, h⟩ := (LayoutT.value_bind_eq_ok_iff answer).mp h
          rw [LayoutT.value_liftM_eq_ok_iff] at hpadding
          cases h
          exact ⟨padding, hpadding, rfl⟩
        · obtain ⟨padding, hpadding, h⟩ := (LayoutT.value_bind_eq_ok_iff answer).mp h
          rw [LayoutT.value_liftM_eq_ok_iff] at hpadding
          cases h
          exact ⟨padding, hpadding, rfl⟩
      obtain ⟨padding, hpadding, rfl⟩ := hrest
      exact ⟨rfl, rfl, rfl, rfl, rfl, ⟨closed, hclosed, hsize⟩, bits, hbits, hpadding⟩

/-- The size covers the room that the members take. -/
theorem Finishes.room_le {profile : Profile} (h : d.Finishes profile l)
    (hd : d.cursor.toIdeal.Valid d.cursor.policy) :
    d.cursor.toIdeal.room d.cursor.policy ≤ 8 * l.size.count := by
  obtain ⟨closed, hclosed, hsize⟩ := h.size_eq
  obtain ⟨-, hideal⟩ := Cursor.endRun_eq_some hd hclosed
  have hroom : closed.dataSize.count = d.cursor.toIdeal.room d.cursor.policy :=
    congrArg Ideal.Cursor.dataSize hideal
  have hcover : (closed.dataSize.count + 7) / 8 ≤ l.size.count :=
    Profile.le_of_recordSize?_eq_some hsize
  omega

/-- The size is that of a record whose members take the room, if its alignment is a power of two. -/
theorem Finishes.size_count_eq {profile : Profile} (h : d.Finishes profile l)
    (hd : d.cursor.toIdeal.Valid d.cursor.policy) (hpow : l.alignment.count.isPowerOfTwo) :
    l.size.count = Ideal.recordSize profile ((d.cursor.toIdeal.room d.cursor.policy + 7) / 8)
      l.alignment.count := by
  obtain ⟨closed, hclosed, hsize⟩ := h.size_eq
  obtain ⟨-, hideal⟩ := Cursor.endRun_eq_some hd hclosed
  have hroom : closed.dataSize.count = d.cursor.toIdeal.room d.cursor.policy :=
    congrArg Ideal.Cursor.dataSize hideal
  rw [← h.alignment_eq] at hsize
  rw [← hroom]
  exact Profile.eq_of_recordSize?_eq_some hsize hpow

/-- Bases that are all placed begin with one that is. -/
theorem placeBases_cons_eq_ok {base : ResolvedBase} {bases : List ResolvedBase} {i : Nat}
    {d d' : StructDraft} (h : placeBases record i (base :: bases) d = .ok (.ok (), d')) :
    ∃ after, d.PlacesBase i base.layout after ∧
      placeBases record (i + 1) bases after = .ok (.ok (), d') := by
  obtain ⟨⟨step, after⟩, hplace, h⟩ := except_bind_eq_ok_iff.mp h
  cases step with
  | tooLarge => cases h
  | skipped | placedAt => exact ⟨after, ⟨_, by rintro ⟨⟩, hplace⟩, h⟩

/-- Bases that are all placed are placed step by step. -/
theorem exists_based {bases : List ResolvedBase} {i : Nat} {d d' : StructDraft}
    (h : placeBases record i bases d = .ok (.ok (), d')) :
    ∃ based : Nat → StructDraft, based 0 = d ∧ based bases.length = d' ∧
      ∀ j base, bases[j]? = some base →
        (based j).PlacesBase (i + j) base.layout (based (j + 1)) := by
  induction bases generalizing i d with
  | nil =>
    cases h
    exact ⟨fun _ => d', rfl, rfl, fun j base hget => by simp at hget⟩
  | cons base bases ih =>
    obtain ⟨after, hplaces, h⟩ := placeBases_cons_eq_ok h
    obtain ⟨based, hstart, hlast, hbased⟩ := ih h
    refine exists_states
      (R := fun j d d' => ∀ base', (base :: bases)[j]? = some base' →
        d.PlacesBase (i + j) base'.layout d') ?_
      ⟨based, hstart, hlast, fun j base' hget => ?_⟩
    · rintro _ ⟨⟩
      exact hplaces
    · have hlater := hbased j base' hget
      rwa [Nat.add_right_comm i 1 j] at hlater

/-- A field that is added is resolved, and the step that places it is no failure. -/
theorem addField_eq_ok {i : Nat} {field : Field} {d d' : StructDraft}
    (h : (addField c record i field d).value answer = .ok (.ok (), d')) :
    ∃ placement step, LayoutT.value answer (c.resolveField record i field) = .ok (.ok placement) ∧
      step ≠ .tooLarge ∧ d.place i field.isNamed placement = .ok (step, d') := by
  rw [value_addField] at h
  obtain ⟨resolved, hvalue, h⟩ := except_bind_eq_ok_iff.mp h
  cases resolved with
  | error e => cases h
  | ok placement =>
    obtain ⟨⟨step, after⟩, hplace, h⟩ := except_bind_eq_ok_iff.mp h
    cases step with
    | tooLarge => cases h
    | skipped | placedAt =>
      cases h
      exact ⟨placement, _, hvalue, by rintro ⟨⟩, hplace⟩

/-- Fields that are all added are added step by step. -/
theorem exists_filled {fields : List Field} {i : Nat} {placements : List Placement}
    (hresolve : c.FieldsResolve answer record i fields placements) {d d' : StructDraft}
    (h : (addFieldsFrom c record i fields d).value answer = .ok (.ok (), d')) :
    ∃ filled : Nat → StructDraft, filled 0 = d ∧ filled fields.length = d' ∧
      ∀ j field placement, fields[j]? = some field → placements[j]? = some placement →
        (filled j).Places (i + j) field.isNamed placement (filled (j + 1)) := by
  induction fields generalizing i placements d with
  | nil =>
    cases h
    exact ⟨fun _ => d', rfl, rfl, fun j field placement hget => by simp at hget⟩
  | cons field fields ih =>
    cases placements with
    | nil => exact hresolve.elim
    | cons placement placements =>
      obtain ⟨hvalue, hresolve⟩ := hresolve
      rw [addFieldsFrom, LayoutM.value_bind] at h
      obtain ⟨⟨result, after⟩, hfield, h⟩ := except_bind_eq_ok_iff.mp h
      obtain ⟨rfl, h⟩ : result = .ok () ∧
          (addFieldsFrom c record (i + 1) fields after).value answer = .ok (.ok (), d') := by
        cases result with
        | error e => cases h
        | ok => exact ⟨rfl, h⟩
      obtain ⟨placement', step, hvalue', hstep, hplace⟩ := addField_eq_ok hfield
      cases hvalue.symm.trans hvalue'
      obtain ⟨filled, hstart, hlast, hfilled⟩ := ih hresolve h
      refine exists_states
        (R := fun j d d' => ∀ field' placement', (field :: fields)[j]? = some field' →
          (placement :: placements)[j]? = some placement' →
            d.Places (i + j) field'.isNamed placement' d') ?_
        ⟨filled, hstart, hlast, fun j field' placement' hget hget' => ?_⟩
      · rintro _ _ ⟨⟩ ⟨⟩
        exact ⟨step, hstep, hplace⟩
      · have hlater := hfilled j field' placement' hget hget'
        rwa [Nat.add_right_comm i 1 j] at hlater

end StructDraft

/-! ### The course of a union -/

namespace UnionDraft

/-- The draft is that of the layout. -/
structure Finishes (profile : Profile) (d : UnionDraft) (l : RecordLayout) : Prop where
  kind_eq : l.kind = .union
  alignment_eq : l.alignment = d.alignment
  dataSize_eq : l.dataSize = d.dataSize
  members_eq : l.members = d.members
  hasFlexibleTail_eq : l.hasFlexibleTail = d.hasFlexibleTail
  size_eq : profile.recordSize? d.size d.alignment = .ok (some l.size)
  padding_eq : d.padding l.size = .ok l.padding

/-- The drafts of a union with a layout: `filled i` stands in front of the field at position `i`. -/
structure Course (profile : Profile) (record : Record) (placements : List Placement)
    (l : RecordLayout) where
  filled : Nat → UnionDraft
  filled_zero : filled 0 = .start
  place : ∀ {i : Nat} {field : Field} {placement : Placement}, record.fields[i]? = some field →
    placements[i]? = some placement →
      (filled i).place i field.isNamed placement = .ok (filled (i + 1))
  finishes : (filled record.fields.length).Finishes profile l

variable {c : LayoutContext} {answer : RecordId → Except Trap Answer} {record : Record}
  {l : RecordLayout}

theorem finish_eq_ok_iff {d : UnionDraft} :
    LayoutT.value answer (d.finish c record) = .ok (.ok l) ↔ d.Finishes c.profile l := by
  rw [finish, LayoutT.value_bind_eq_ok_iff]
  constructor
  · rintro ⟨size, hsize, h⟩
    rw [LayoutT.value_liftM_eq_ok_iff] at hsize
    cases size with
    | none => cases h
    | some size =>
      obtain ⟨padding, hpadding, h⟩ := (LayoutT.value_bind_eq_ok_iff answer).mp h
      rw [LayoutT.value_liftM_eq_ok_iff] at hpadding
      cases h
      exact ⟨rfl, rfl, rfl, rfl, rfl, hsize, hpadding⟩
  · intro h
    obtain ⟨kind, size, alignment, dataSize, members, padding, tail⟩ := l
    obtain ⟨rfl, rfl, rfl, rfl, rfl, hsize, hpadding⟩ := h
    exact ⟨some size, (LayoutT.value_liftM_eq_ok_iff answer).mpr hsize,
      (LayoutT.value_bind_eq_ok_iff answer).mpr
        ⟨padding, (LayoutT.value_liftM_eq_ok_iff answer).mpr hpadding, rfl⟩⟩

/-- Fields that are all added to a union are added step by step. -/
theorem exists_filled {fields : List Field} {i : Nat} {placements : List Placement}
    (hresolve : c.FieldsResolve answer record i fields placements) {d d' : UnionDraft}
    (h : LayoutT.value answer (addFieldsFrom c record i fields d) = .ok (.ok d')) :
    ∃ filled : Nat → UnionDraft, filled 0 = d ∧ filled fields.length = d' ∧
      ∀ j field placement, fields[j]? = some field → placements[j]? = some placement →
        (filled j).place (i + j) field.isNamed placement = .ok (filled (j + 1)) := by
  induction fields generalizing i placements d with
  | nil =>
    cases h
    exact ⟨fun _ => d', rfl, rfl, fun j field placement hget => by simp at hget⟩
  | cons field fields ih =>
    cases placements with
    | nil => exact hresolve.elim
    | cons placement placements =>
      obtain ⟨hvalue, hresolve⟩ := hresolve
      obtain ⟨resolved, hresolved, h⟩ := (LayoutT.value_bind_eq_ok_iff answer).mp h
      cases hvalue.symm.trans hresolved
      obtain ⟨after, hafter, h⟩ := (LayoutT.value_bind_eq_ok_iff answer).mp h
      rw [LayoutT.value_liftM_eq_ok_iff] at hafter
      obtain ⟨filled, hstart, hlast, hfilled⟩ := ih hresolve h
      refine exists_states
        (R := fun j d d' => ∀ field' placement', (field :: fields)[j]? = some field' →
          (placement :: placements)[j]? = some placement' →
            d.place (i + j) field'.isNamed placement' = .ok d') ?_
        ⟨filled, hstart, hlast, fun j field' placement' hget hget' => ?_⟩
      · rintro _ _ ⟨⟩ ⟨⟩
        exact hafter
      · have hlater := hfilled j field' placement' hget hget'
        rwa [Nat.add_right_comm i 1 j] at hlater

end UnionDraft

/-! ### Every layout has a course -/

namespace LayoutContext

variable {c : LayoutContext} {answer : RecordId → Except Trap Answer} {record : Record}
  {bases : List StructDraft.ResolvedBase} {placements : List Placement} {l : RecordLayout}

/-- **The layout of a struct has a course.** -/
theorem Resolves.nonempty_course (hresolves : c.Resolves answer record bases placements)
    (hkind : record.kind = .struct)
    (h : LayoutT.value answer (c.layoutByKind record) = .ok (.ok l)) :
    Nonempty (StructDraft.Course c.profile record bases placements l) := by
  rw [layoutByKind, hkind] at h
  dsimp only at h
  rw [StructDraft.value_structLayout, hresolves.value_addBases hkind] at h
  obtain ⟨⟨result, d⟩, hbases, h⟩ := except_bind_eq_ok_iff.mp h
  cases result with
  | error e => cases h
  | ok =>
    obtain ⟨⟨result, d'⟩, hfields, h⟩ := except_bind_eq_ok_iff.mp h
    cases result with
    | error e => cases h
    | ok =>
      obtain ⟨based, hstart, hturn, hbased⟩ := StructDraft.exists_based hbases
      obtain ⟨filled, rfl, rfl, hfilled⟩ :=
        StructDraft.exists_filled hresolves.fieldsResolve hfields
      refine ⟨based, filled, hstart, fun {i base} hget => ?_, hturn.symm,
        fun {i field placement} hget hget' => ?_, StructDraft.finish_eq_ok h⟩
      · have hplaces := hbased i base hget
        rwa [Nat.zero_add] at hplaces
      · have hplaces := hfilled i field placement hget hget'
        rwa [Nat.zero_add] at hplaces

/-- **The layout of a union has a course.** -/
theorem Resolves.nonempty_unionCourse (hresolves : c.Resolves answer record bases placements)
    (hkind : record.kind = .union)
    (h : LayoutT.value answer (c.layoutByKind record) = .ok (.ok l)) :
    Nonempty (UnionDraft.Course c.profile record placements l) := by
  rw [layoutByKind, hkind] at h
  obtain ⟨d, hadded, h⟩ := (LayoutT.value_bind_eq_ok_iff answer).mp h
  obtain ⟨filled, hstart, rfl, hfilled⟩ :=
    UnionDraft.exists_filled hresolves.fieldsResolve hadded
  refine ⟨filled, hstart, fun {i field placement} hget hget' => ?_,
    UnionDraft.finish_eq_ok_iff.mp h⟩
  have hplace := hfilled i field placement hget hget'
  rwa [Nat.zero_add] at hplace

end LayoutContext

end AbiLayout
