import AbiLayout.Proofs.Ideal.Union
import Mathlib.Data.List.Forall2

/-!
# The two policies side by side

Without zero-width bit-fields, the Itanium policy never puts a member past the place that the strict
policy gives it. A bit-field fits at its strict place by the rule of the Itanium policy, which
takes the first place where it does; all that is rounded is rounded alike. Carried through the
members this compares whole layouts: the Itanium layout is no larger, and has no storage only where
the strict one has none. The latter keeps the size of an empty record, which is given in either
case, from turning the order around.

## Main definitions

* `Profile.withPolicy`: profiles that differ in the bit-field policy alone.
* `Below`: a count is at most another one, and zero only where that is.
* `RecordLayout.Within`, `TypeLayout.Within`, `Placement.Within`: a layout within another one.
* `Ideal.Cursor.Precedes`, `Ideal.StructDraft.Precedes`, `Ideal.UnionDraft.Precedes`: the Itanium
  policy has come no further than the strict one.

## Main results

* `Ideal.Cursor.placeShared_le`: the Itanium policy takes the first place where a bit-field fits.
* `Ideal.recordLayout_within`: the Itanium layout of a record is within the strict one.
-/

namespace AbiLayout

/-- The profile with another bit-field policy. -/
def Profile.withPolicy (p : Profile) (policy : BitfieldPolicy) : Profile :=
  { p with bitfieldPolicy := policy }

/-- The count `n` is at most `n'`, and zero only where `n'` is. -/
structure Below (n n' : Nat) : Prop where
  le : n ≤ n'
  eq_zero : n = 0 → n' = 0

namespace Below

variable {m m' n n' : Nat}

theorem refl (n : Nat) : Below n n := ⟨le_rfl, id⟩

theorem add (h : Below m m') (h' : Below n n') : Below (m + n) (m' + n') where
  le := Nat.add_le_add h.le h'.le
  eq_zero hzero := by
    have hm := h.eq_zero (by omega)
    have hn := h'.eq_zero (by omega)
    omega

theorem mul_left (k : Nat) (h : Below n n') : Below (k * n) (k * n') where
  le := Nat.mul_le_mul_left k h.le
  eq_zero hzero := by
    rcases Nat.mul_eq_zero.mp hzero with rfl | hn
    · exact Nat.zero_mul _
    · rw [h.eq_zero hn, Nat.mul_zero]

theorem max (h : Below m m') (h' : Below n n') : Below (Max.max m n) (Max.max m' n') where
  le := max_le_max h.le h'.le
  eq_zero hzero := by
    have hm := h.eq_zero (Nat.le_zero.mp ((Nat.le_max_left m n).trans hzero.le))
    have hn := h'.eq_zero (Nat.le_zero.mp ((Nat.le_max_right m n).trans hzero.le))
    rw [hm, hn]
    rfl

theorem nextMultiple {a : Nat} (ha : 0 < a) (h : Below n n') :
    Below (nextMultiple n a) (nextMultiple n' a) where
  le := nextMultiple_mono ha h.le
  eq_zero hzero := by
    have hn := h.eq_zero (Nat.le_zero.mp ((le_nextMultiple n ha).trans hzero.le))
    rw [hn]
    exact nextMultiple_of_dvd ha (Nat.dvd_zero a)

end Below

/-! ### Layouts within others -/

/-- A layout with the same members in the same order, none of them past its place in the other
layout, that is aligned alike, takes no more bytes, and is empty only where the other one is. -/
structure RecordLayout.Within (l l' : RecordLayout) : Prop where
  alignment_eq : l.alignment = l'.alignment
  hasFlexibleTail_eq : l.hasFlexibleTail = l'.hasFlexibleTail
  members : List.Forall₂ (fun m m' => m.member = m'.member ∧ m.offset.count ≤ m'.offset.count)
    l.members l'.members
  dataSize : Below l.dataSize.count l'.dataSize.count
  size : Below l.size.count l'.size.count

/-- The layout of a type that takes no more bytes than in the other layout, and none only where it
takes none there. -/
structure TypeLayout.Within (l l' : TypeLayout) : Prop where
  alignment_eq : l.alignment = l'.alignment
  completeness_eq : l.completeness = l'.completeness
  width : Below l.width.count l'.width.count

/-- A bit-field with bits, placed alike, or a member of whole bytes that takes no more of them. -/
inductive Placement.Within : Placement → Placement → Prop
  | bitfield (b : Bitfield) : Within (.bitfield b) (.bitfield b)
  | bytes {l l' : TypeLayout} (h : l.Within l') : Within (.bytes l) (.bytes l')

theorem TypeLayout.Within.refl (l : TypeLayout) : l.Within l := ⟨rfl, rfl, .refl _⟩

theorem TypeLayout.Within.isComplete_eq {l l' : TypeLayout} (h : l.Within l') :
    l.isComplete = l'.isComplete := by
  rw [isComplete, isComplete, h.completeness_eq]

theorem TypeLayout.Within.isTrailingOnly_eq {l l' : TypeLayout} (h : l.Within l') :
    l.isTrailingOnly = l'.isTrailingOnly := by
  rw [isTrailingOnly, isTrailingOnly, h.isComplete_eq]

/-- As a member, a record whose layout is within another one has a layout within that one. -/
theorem RecordLayout.Within.typeLayout {l l' : RecordLayout} (h : l.Within l') :
    l.typeLayout.Within l'.typeLayout where
  alignment_eq := h.alignment_eq
  completeness_eq := by
    rw [RecordLayout.typeLayout, RecordLayout.typeLayout, h.hasFlexibleTail_eq]
  width := h.size

/-- A layout within another one is empty exactly where that is. -/
theorem RecordLayout.Within.isEmpty_eq {l l' : RecordLayout} (h : l.Within l') :
    l.isEmpty = l'.isEmpty := by
  have hzero : l.dataSize.isZero = l'.dataSize.isZero := by
    rw [Bool.eq_iff_iff, Quantity.isZero_iff, Quantity.isZero_iff]
    exact ⟨h.dataSize.eq_zero, fun hzero => Nat.le_zero.mp (h.dataSize.le.trans hzero.le)⟩
  rw [isEmpty, isEmpty, hzero, h.hasFlexibleTail_eq]

namespace Ideal

/-! ### The cursor -/

namespace Cursor

/-- The Itanium cursor `c` has come no further than the strict cursor `c'`. -/
structure Precedes (c c' : Cursor) : Prop where
  valid : c.Valid .itanium
  valid' : c'.Valid .strictUnits
  dataSize : Below c.dataSize c'.dataSize
  /-- An open unit holds a bit-field. -/
  dataSize_pos : ∀ u, c'.openUnit = some u → 0 < c'.dataSize

variable {c c' : Cursor}

theorem precedes_start : Precedes {} {} where
  valid := valid_start .itanium
  valid' := valid_start .strictUnits
  dataSize := .refl 0
  dataSize_pos _ h := nomatch h

/-- The strict cursor takes at least as much room. -/
theorem Precedes.room (h : c.Precedes c') : Below (c.room .itanium) (c'.room .strictUnits) where
  le := nextMultiple_le (by decide) (eight_dvd_room h.valid')
    (h.dataSize.le.trans (dataSize_le_room h.valid'))
  eq_zero hzero := by
    have hdata := h.dataSize.eq_zero
      (Nat.le_zero.mp ((dataSize_le_room h.valid).trans hzero.le))
    cases hunit : c'.openUnit with
    | none => rw [room_strictUnits_of_none hunit, hdata]
    | some u =>
      have hpos := h.dataSize_pos u hunit
      omega

/-- A member of whole bytes is placed at its strict place or before, and so is the cursor. -/
theorem Precedes.placeWhole (h : c.Precedes c') {alignment width width' : Nat}
    (hpos : 0 < alignment) (halign : 8 ∣ alignment) (hw : 8 ∣ width) (hw' : 8 ∣ width')
    (hwidth : Below width width') :
    (c.placeWhole .itanium alignment width).1 ≤ (c'.placeWhole .strictUnits alignment width').1 ∧
      Precedes (c.placeWhole .itanium alignment width).2
        (c'.placeWhole .strictUnits alignment width').2 := by
  have hstart := h.room.nextMultiple hpos
  refine ⟨hstart.le, valid_placeWhole h.valid halign hw, valid_placeWhole h.valid' halign hw',
    hstart.add hwidth, fun u hu => ?_⟩
  rw [openUnit_placeWhole h.valid'] at hu
  cases hu

/-- **The Itanium policy takes the first place where a bit-field fits**: it does not pass any place
at the cursor or behind it from which the bit-field stays inside of an aligned unit of its type. -/
theorem placeShared_le {p : Primitive} (hp : p.Usable) {width x : Nat} (hx : c.dataSize ≤ x)
    (hfits : x % p.bitAlignment + width ≤ p.bitSize) : (c.placeShared p width).1 ≤ x := by
  rw [placeShared]
  split
  · rename_i hpast
    -- a place before the next unit is further into this one than the cursor
    refine Nat.le_of_not_lt fun hlt => ?_
    have hpos := hp.bitAlignment_pos
    have hdiv := Nat.div_add_mod c.dataSize p.bitAlignment
    have hmod := Nat.mod_lt c.dataSize hpos
    have hnext : nextMultiple c.dataSize p.bitAlignment ≤
        p.bitAlignment * (c.dataSize / p.bitAlignment + 1) := by
      refine nextMultiple_le hpos (Nat.dvd_mul_right _ _) ?_
      rw [Nat.mul_succ]
      omega
    have hunit : x / p.bitAlignment = c.dataSize / p.bitAlignment := by
      refine Nat.le_antisymm (Nat.le_of_lt_succ ?_) (Nat.div_le_div_right hx)
      rw [Nat.div_lt_iff_lt_mul hpos, Nat.mul_comm]
      exact hlt.trans_le hnext
    have hdiv' := Nat.div_add_mod x p.bitAlignment
    rw [hunit] at hdiv'
    omega
  · exact hx

/-- A bit-field with bits is placed at its strict place or before, and so is the cursor. -/
theorem Precedes.placeBits (h : c.Precedes c') {p : Primitive} (hp : p.Usable) {width : Nat}
    (hpos : 0 < width) (hw : width ≤ p.bitSize) :
    (c.placeBits .itanium p width).1 ≤ (c'.placeBits .strictUnits p width).1 ∧
      Precedes (c.placeBits .itanium p width).2 (c'.placeBits .strictUnits p width).2 := by
  have hle : (c.placeBits .itanium p width).1 ≤ (c'.placeBits .strictUnits p width).1 :=
    placeShared_le hp (h.dataSize.le.trans (dataSize_le_placeBits h.valid' hp))
      (placeBits_window h.valid' hp hw)
  have hdata : Below (c.placeBits .itanium p width).2.dataSize
      (c'.placeBits .strictUnits p width).2.dataSize := by
    rw [dataSize_placeBits, dataSize_placeBits]
    exact ⟨Nat.add_le_add_right hle width, fun hzero => by omega⟩
  refine ⟨hle, valid_placeBits h.valid hw, valid_placeBits h.valid' hw, hdata, fun _ _ => ?_⟩
  rw [dataSize_placeBits]
  omega

end Cursor

/-! ### Members -/

/-- The same member, not past its place in the other layout. -/
structure Slot.Within (s s' : Slot) : Prop where
  member_eq : s.member = s'.member
  offset_le : s.offset ≤ s'.offset

/-- What placing single fields keeps on both sides, placing all of them keeps. -/
theorem placeEach_related {δ δ' : Type} {R : δ → δ' → Prop}
    {place : δ → Nat → Bool → Placement → δ} {place' : δ' → Nat → Bool → Placement → δ'}
    (step : ∀ d d' i isNamed p p', Placement.Within p p' → p'.Sound → R d d' →
      R (place d i isNamed p) (place' d' i isNamed p')) :
    (fields : List Field) → {i : Nat} → {ps ps' : List Placement} →
      List.Forall₂ Placement.Within ps ps' → (∀ p' ∈ ps', p'.Sound) → {d : δ} → {d' : δ'} →
        R d d' → R (placeEach place i fields ps d) (placeEach place' i fields ps' d')
  | [], _, [], [], _, _, _, _, h => h
  | [], _, _ :: _, _ :: _, _, _, _, _, h => h
  | _ :: _, _, [], [], _, _, _, _, h => h
  | field :: fields, i, p :: _, p' :: _, .cons hwithin hrest, hsound, _, _, h => by
    obtain ⟨hhead, htail⟩ := List.forall_mem_cons.mp hsound
    exact placeEach_related step fields hrest htail (step _ _ i field.isNamed p p' hwithin hhead h)

namespace StructDraft

/-- The Itanium draft `d` has come no further than the strict draft `d'`. -/
structure Precedes (d d' : StructDraft) : Prop where
  cursor : d.cursor.Precedes d'.cursor
  alignment_eq : d.alignment = d'.alignment
  members : List.Forall₂ Slot.Within d.members d'.members
  hasFlexibleTail_eq : d.hasFlexibleTail = d'.hasFlexibleTail

variable {d d' : StructDraft}

theorem precedes_start : Precedes {} {} := ⟨Cursor.precedes_start, rfl, .nil, rfl⟩

/-- Placing a member at its strict place or before keeps the order of the drafts. -/
theorem Precedes.settle (h : d.Precedes d') {member : Member} {length length' : Option Nat}
    {asked asked' : Nat} {tail tail' : Bool} {placed placed' : Nat × Cursor}
    (hasked : asked = asked') (htail : tail = tail')
    (hplaced : placed.1 ≤ placed'.1 ∧ placed.2.Precedes placed'.2) :
    (d.settle member length asked tail placed).Precedes
      (d'.settle member length' asked' tail' placed') where
  cursor := hplaced.2
  alignment_eq := congrArg₂ max h.alignment_eq hasked
  members := List.rel_append h.members (.cons ⟨rfl, hplaced.1⟩ .nil)
  hasFlexibleTail_eq := htail

theorem Precedes.placeBase (h : d.Precedes d') (i : Nat) {l l' : RecordLayout} (hl : l.Within l')
    (hpow : l'.alignment.count.isPowerOfTwo) :
    (d.placeBase .itanium i l).Precedes (d'.placeBase .strictUnits i l') := by
  have hpos := Nat.pos_of_isPowerOfTwo (isPowerOfTwo_eight_mul hpow)
  refine h.settle (congrArg Quantity.count hl.alignment_eq) hl.hasFlexibleTail_eq ?_
  rw [hl.alignment_eq]
  exact h.cursor.placeWhole hpos (Nat.dvd_mul_right 8 _) (Nat.dvd_mul_right 8 _)
    (Nat.dvd_mul_right 8 _) (hl.size.mul_left 8)

theorem Precedes.placeBases {bases bases' : List AbiLayout.StructDraft.ResolvedBase}
    (hbases : List.Forall₂ (fun base base' => base.layout.Within base'.layout) bases bases')
    (hpow : ∀ base' ∈ bases', base'.layout.alignment.count.isPowerOfTwo) (i : Nat)
    (h : d.Precedes d') :
    (d.placeBases .itanium i bases).Precedes (d'.placeBases .strictUnits i bases') := by
  induction hbases generalizing i d d' with
  | nil => exact h
  | cons hbase _ ih =>
    obtain ⟨hhead, htail⟩ := List.forall_mem_cons.mp hpow
    exact ih htail (i + 1) (h.placeBase i hbase hhead)

theorem Precedes.place (h : d.Precedes d') (i : Nat) (isNamed : Bool) {p p' : Placement}
    (hp : p.Within p') (hsound : p'.Sound) :
    (d.place .itanium i isNamed p).Precedes (d'.place .strictUnits i isNamed p') := by
  cases hp with
  | bitfield b =>
    obtain ⟨husable, hpos, hw⟩ := hsound
    exact h.settle rfl h.hasFlexibleTail_eq (h.cursor.placeBits husable hpos hw)
  | @bytes l l' hl =>
    have hpow : l'.alignment.count.isPowerOfTwo := hsound
    have hpos := Nat.pos_of_isPowerOfTwo (isPowerOfTwo_eight_mul hpow)
    refine h.settle (congrArg Quantity.count hl.alignment_eq)
      (congrArg₂ or h.hasFlexibleTail_eq hl.isTrailingOnly_eq) ?_
    rw [hl.alignment_eq, hl.completeness_eq]
    by_cases hflexible : l'.completeness = .incomplete
    · rw [if_pos hflexible, if_pos hflexible]
      exact h.cursor.placeWhole hpos (Nat.dvd_mul_right 8 _) (Nat.dvd_zero 8) (Nat.dvd_zero 8)
        (.refl 0)
    · rw [if_neg hflexible, if_neg hflexible]
      exact h.cursor.placeWhole hpos (Nat.dvd_mul_right 8 _) (Nat.dvd_mul_right 8 _)
        (Nat.dvd_mul_right 8 _) (hl.width.mul_left 8)

end StructDraft

namespace UnionDraft

/-- The draft `d` over members under the Itanium policy takes no more than the draft `d'` under the
strict policy. -/
structure Precedes (d d' : UnionDraft) : Prop where
  size : Below d.size d'.size
  alignment_eq : d.alignment = d'.alignment
  dataSize : Below d.dataSize d'.dataSize
  members : List.Forall₂ Slot.Within d.members d'.members
  hasFlexibleTail_eq : d.hasFlexibleTail = d'.hasFlexibleTail

variable {d d' : UnionDraft}

theorem precedes_start : Precedes {} {} := ⟨.refl 0, rfl, .refl 0, .nil, rfl⟩

theorem Precedes.push (h : d.Precedes d') (i : Nat) {length length' size size' asked asked' : Nat}
    {tail tail' : Bool} (hlength : Below length length') (hsize : Below size size')
    (hasked : asked = asked') (htail : tail = tail') :
    (d.push i length size asked tail).Precedes (d'.push i length' size' asked' tail') where
  size := h.size.max hsize
  alignment_eq := congrArg₂ max h.alignment_eq hasked
  dataSize := h.dataSize.max hlength
  members := List.rel_append h.members (.cons ⟨rfl, le_rfl⟩ .nil)
  hasFlexibleTail_eq := htail

theorem Precedes.place (h : d.Precedes d') (i : Nat) (isNamed : Bool) {p p' : Placement}
    (hp : p.Within p') : (d.place i isNamed p).Precedes (d'.place i isNamed p') := by
  cases hp with
  | bitfield b => exact h.push i (.refl _) (.refl _) rfl h.hasFlexibleTail_eq
  | @bytes l l' hl =>
    refine h.push i (hl.width.mul_left 8) hl.width (congrArg Quantity.count hl.alignment_eq) ?_
    rw [h.hasFlexibleTail_eq, hl.completeness_eq]

end UnionDraft

/-! ### Layouts -/

/-- A layout with the same members in the same order, none of them past its place in the other
layout, that is aligned alike and no larger, and is empty only where the other one is. -/
structure Layout.Within (l l' : Layout) : Prop where
  alignment_eq : l.alignment = l'.alignment
  hasFlexibleTail_eq : l.hasFlexibleTail = l'.hasFlexibleTail
  members : List.Forall₂ Slot.Within l.members l'.members
  dataSize : Below l.dataSize l'.dataSize
  size : Below l.size l'.size

/-- Among records of the same alignment, one whose members take no more bytes is no larger. The size
of an empty record is taken on both sides or on neither. -/
theorem below_recordSize {profile profile' : Profile}
    (hempty : profile.emptyRecordSize = profile'.emptyRecordSize) {n n' alignment : Nat}
    (ha : 0 < alignment) (h : Below n n') :
    Below (recordSize profile n alignment) (recordSize profile' n' alignment) := by
  refine Below.nextMultiple ha ?_
  rw [hempty]
  by_cases hn : n = 0
  · rw [if_pos hn, if_pos (h.eq_zero hn)]
    exact .refl _
  · have hle := h.le
    rw [if_neg hn, if_neg (by omega)]
    exact h

variable {profile : Profile} {record : Record}
  {bases bases' : List AbiLayout.StructDraft.ResolvedBase} {placements placements' : List Placement}

theorem structLayout_within
    (hbases : List.Forall₂ (fun base base' => base.layout.Within base'.layout) bases bases')
    (hplacements : List.Forall₂ Placement.Within placements placements')
    (hpow : ∀ base' ∈ bases', base'.layout.alignment.count.isPowerOfTwo)
    (hsound : ∀ placement' ∈ placements', placement'.Sound) :
    (structLayout (profile.withPolicy .itanium) record bases placements).Within
      (structLayout (profile.withPolicy .strictUnits) record bases' placements') := by
  have hpre : (structDraft .itanium record bases placements).Precedes
      (structDraft .strictUnits record bases' placements') :=
    placeEach_related (fun _ _ i isNamed _ _ hp hs hd => hd.place i isNamed hp hs) _ hplacements
      hsound (StructDraft.precedes_start.placeBases hbases hpow 0)
  have hfilled : (structDraft .strictUnits record bases' placements').Filled .strictUnits bases'
      record.fields placements' := StructDraft.filled_structDraft hpow hsound
  have hpos := Nat.pos_of_isPowerOfTwo hfilled.alignment_isPowerOfTwo
  have hroom := hpre.cursor.room
  have hunpadded : Below
      (((structDraft .itanium record bases placements).cursor.room .itanium + 7) / 8)
      (((structDraft .strictUnits record bases' placements').cursor.room .strictUnits + 7) / 8) :=
    ⟨Nat.div_le_div_right (Nat.add_le_add_right hroom.le 7), fun hzero => by
      have := hroom.eq_zero (by omega)
      omega⟩
  refine ⟨hpre.alignment_eq, hpre.hasFlexibleTail_eq, hpre.members,
    hpre.cursor.dataSize, ?_⟩
  change Below (recordSize _ _ (structDraft .itanium record bases placements).alignment)
    (recordSize _ _ (structDraft .strictUnits record bases' placements').alignment)
  rw [hpre.alignment_eq]
  exact below_recordSize rfl hpos hunpadded

theorem unionLayout_within
    (hplacements : List.Forall₂ Placement.Within placements placements')
    (hsound : ∀ placement' ∈ placements', placement'.Sound)
    (hmatch : ∀ (i : Nat) (field : Field) (placement' : Placement),
      record.fields[i]? = some field → placements'[i]? = some placement' →
        placement'.Matches field) :
    (unionLayout (profile.withPolicy .itanium) record placements).Within
      (unionLayout (profile.withPolicy .strictUnits) record placements') := by
  have hpre : (unionDraft record placements).Precedes (unionDraft record placements') :=
    placeEach_related (fun _ _ i isNamed _ _ hp _ hd => hd.place i isNamed hp) _ hplacements hsound
      UnionDraft.precedes_start
  have hpos := Nat.pos_of_isPowerOfTwo
    (UnionDraft.filled_unionDraft hsound hmatch).alignment_isPowerOfTwo
  refine ⟨hpre.alignment_eq, hpre.hasFlexibleTail_eq, hpre.members, hpre.dataSize, ?_⟩
  change Below (recordSize _ _ (unionDraft record placements).alignment)
    (recordSize _ _ (unionDraft record placements').alignment)
  rw [hpre.alignment_eq]
  exact below_recordSize rfl hpos hpre.size

/-- **The Itanium layout of a record is within the strict one**, over bases and fields without
zero-width bit-fields that are within those of the strict layout. -/
theorem recordLayout_within
    (hbases : List.Forall₂ (fun base base' => base.layout.Within base'.layout) bases bases')
    (hplacements : List.Forall₂ Placement.Within placements placements')
    (hpow : ∀ base' ∈ bases', base'.layout.alignment.count.isPowerOfTwo)
    (hsound : ∀ placement' ∈ placements', placement'.Sound)
    (hmatch : ∀ (i : Nat) (field : Field) (placement' : Placement),
      record.fields[i]? = some field → placements'[i]? = some placement' →
        placement'.Matches field) :
    (recordLayout (profile.withPolicy .itanium) record bases placements).Within
      (recordLayout (profile.withPolicy .strictUnits) record bases' placements') := by
  rw [recordLayout, recordLayout]
  cases record.kind with
  | struct => exact structLayout_within hbases hplacements hpow hsound
  | union => exact unionLayout_within hplacements hsound hmatch

end Ideal

/-- A computed layout is within another one, if it is as an ideal layout. -/
theorem RecordLayout.within_of_toIdeal {l l' : RecordLayout} (h : l.toIdeal.Within l'.toIdeal) :
    l.Within l' where
  alignment_eq := Quantity.ext h.alignment_eq
  hasFlexibleTail_eq := h.hasFlexibleTail_eq
  members := by
    have hmembers := h.members
    rw [toIdeal, toIdeal, List.forall₂_map_left_iff, List.forall₂_map_right_iff] at hmembers
    exact hmembers.imp fun _ _ hm => ⟨hm.member_eq, hm.offset_le⟩
  dataSize := h.dataSize
  size := h.size

end AbiLayout
