import AbiLayout.Proofs.Scalars

/-!
# The ideal cursor

What every step of the cursor keeps, and where it puts a member. Under the strict policy an open
unit starts at an aligned position, is as long as its base type, and holds the cursor; without one
the cursor is on a byte boundary. Under the Itanium policy no unit is open.

## Main definitions

* `Ideal.Cursor.Valid`: the invariant.
* `Ideal.Cursor.Grows`: the cursor moves forward, and the room it takes does not shrink.

## Main results

* `Ideal.Cursor.Grows.frontier_le`: nor does what is counted.
* `Ideal.Cursor.valid_placeWhole`, `Ideal.Cursor.grows_placeWhole`: a member of whole bytes.
* `Ideal.Cursor.valid_placeBits`, `Ideal.Cursor.grows_placeBits`,
  `Ideal.Cursor.placeBits_window`: a bit-field, which lies in one aligned unit of its type.
* `Ideal.Cursor.valid_breakRun`, `Ideal.Cursor.grows_breakRun`: a zero-width bit-field.
-/

namespace AbiLayout.Ideal.Cursor

/-- The invariant of a cursor under a policy. -/
structure Valid (policy : BitfieldPolicy) (c : Cursor) : Prop where
  /-- Only the strict policy opens units. -/
  shared : policy = .itanium → c.openUnit = none
  /-- Between units, the strict cursor is on a byte boundary. -/
  boundary : policy = .strictUnits → c.openUnit = none → 8 ∣ c.dataSize
  aligned : ∀ u, c.openUnit = some u → u.underlying.bitAlignment ∣ u.start
  stop_eq : ∀ u, c.openUnit = some u → u.stop = u.start + u.underlying.bitSize
  start_le : ∀ u, c.openUnit = some u → u.start ≤ c.dataSize
  dataSize_le : ∀ u, c.openUnit = some u → c.dataSize ≤ u.stop

/-- The cursor moves forward, and the room that the members take does not shrink. -/
structure Grows (policy : BitfieldPolicy) (c c' : Cursor) : Prop where
  dataSize_le : c.dataSize ≤ c'.dataSize
  room_le : c.room policy ≤ c'.room policy

variable {policy : BitfieldPolicy} {c : Cursor}

theorem Grows.trans {c₁ c₂ c₃ : Cursor} (h : Grows policy c₁ c₂) (h' : Grows policy c₂ c₃) :
    Grows policy c₁ c₃ :=
  ⟨h.dataSize_le.trans h'.dataSize_le, h.room_le.trans h'.room_le⟩

theorem Grows.refl (c : Cursor) : Grows policy c c := ⟨le_rfl, le_rfl⟩

/-- The cursor at the start of a struct. -/
theorem valid_start (policy : BitfieldPolicy) : Valid policy {} where
  shared _ := rfl
  boundary _ _ := Nat.dvd_zero 8
  aligned _ h := nomatch h
  stop_eq _ h := nomatch h
  start_le _ h := nomatch h
  dataSize_le _ h := nomatch h

/-- A cursor without an open unit is valid on every byte boundary. -/
theorem valid_of_openUnit_eq_none (hunit : c.openUnit = none) (h8 : 8 ∣ c.dataSize) :
    Valid policy c where
  shared _ := hunit
  boundary _ _ := h8
  aligned _ h := by simp [hunit] at h
  stop_eq _ h := by simp [hunit] at h
  start_le _ h := by simp [hunit] at h
  dataSize_le _ h := by simp [hunit] at h

/-- Under the Itanium policy a cursor without an open unit is valid. -/
theorem valid_itanium (hunit : c.openUnit = none) : Valid .itanium c where
  shared _ := hunit
  boundary h := nomatch h
  aligned _ h := by simp [hunit] at h
  stop_eq _ h := by simp [hunit] at h
  start_le _ h := by simp [hunit] at h
  dataSize_le _ h := by simp [hunit] at h

/-! ### Ending a run -/

theorem room_strictUnits_of_none (h : c.openUnit = none) :
    c.room .strictUnits = c.dataSize := by
  rw [room, endRun, h]

theorem room_strictUnits_of_some {u : StorageUnit} (h : c.openUnit = some u) :
    c.room .strictUnits = u.stop := by
  rw [room, endRun, h]

theorem dataSize_endRun (policy : BitfieldPolicy) (c : Cursor) :
    (c.endRun policy).dataSize = c.room policy := rfl

/-- Behind a run no unit is open. -/
theorem openUnit_endRun (hc : c.Valid policy) : (c.endRun policy).openUnit = none := by
  cases policy with
  | itanium => exact hc.shared rfl
  | strictUnits =>
    rw [endRun]
    cases h : c.openUnit <;> simp [h]

/-- The room covers the cursor. -/
theorem dataSize_le_room (hc : c.Valid policy) : c.dataSize ≤ c.room policy := by
  cases policy with
  | itanium => exact le_nextMultiple _ (by decide)
  | strictUnits =>
    cases h : c.openUnit with
    | none => exact (room_strictUnits_of_none h).ge
    | some u => exact (hc.dataSize_le u h).trans (room_strictUnits_of_some h).ge

/-- The room ends on a byte boundary. -/
theorem eight_dvd_room (hc : c.Valid policy) : 8 ∣ c.room policy := by
  cases policy with
  | itanium => exact dvd_nextMultiple _ 8
  | strictUnits =>
    cases h : c.openUnit with
    | none =>
      rw [room_strictUnits_of_none h]
      exact hc.boundary rfl h
    | some u =>
      rw [room_strictUnits_of_some h, hc.stop_eq u h]
      exact Nat.dvd_add (Nat.dvd_trans (Nat.dvd_mul_right 8 _) (hc.aligned u h))
        (Nat.dvd_mul_right 8 _)

theorem valid_endRun (hc : c.Valid policy) : (c.endRun policy).Valid policy :=
  valid_of_openUnit_eq_none (openUnit_endRun hc) (eight_dvd_room hc)

/-- Without an open unit, on a byte boundary, the room is what lies before the cursor. -/
theorem room_eq_dataSize (hunit : c.openUnit = none) (h8 : 8 ∣ c.dataSize) :
    c.room policy = c.dataSize := by
  cases policy with
  | itanium => exact nextMultiple_of_dvd (by decide) h8
  | strictUnits => exact room_strictUnits_of_none hunit

/-- Ending a run twice is ending it once. -/
theorem room_endRun (hc : c.Valid policy) : (c.endRun policy).room policy = c.room policy :=
  room_eq_dataSize (openUnit_endRun hc) (eight_dvd_room hc)

theorem grows_endRun (hc : c.Valid policy) : Grows policy c (c.endRun policy) :=
  ⟨dataSize_le_room hc, (room_endRun hc).ge⟩

/-! ### The frontier -/

theorem frontier_of_none (h : c.openUnit = none) : c.frontier = c.dataSize := by
  rw [frontier, h]

theorem frontier_of_some {u : StorageUnit} (h : c.openUnit = some u) : c.frontier = u.stop := by
  rw [frontier, h]

/-- Under the strict policy all room is counted. -/
theorem frontier_eq_room (c : Cursor) : c.frontier = c.room .strictUnits := by
  cases h : c.openUnit with
  | none => rw [frontier_of_none h, room_strictUnits_of_none h]
  | some u => rw [frontier_of_some h, room_strictUnits_of_some h]

/-- Behind a run, the frontier is the end of the run. -/
theorem frontier_endRun (hc : c.Valid policy) : (c.endRun policy).frontier = c.room policy :=
  frontier_of_none (openUnit_endRun hc)

theorem dataSize_le_frontier (hc : c.Valid policy) : c.dataSize ≤ c.frontier := by
  cases h : c.openUnit with
  | none => exact (frontier_of_none h).ge
  | some u => exact (hc.dataSize_le u h).trans (frontier_of_some h).ge

theorem frontier_le_room (hc : c.Valid policy) : c.frontier ≤ c.room policy := by
  cases policy with
  | itanium => exact (frontier_of_none (hc.shared rfl)).trans_le (dataSize_le_room hc)
  | strictUnits => exact (frontier_eq_room c).le

/-- A cursor that moves forward counts no less. -/
theorem Grows.frontier_le {c' : Cursor} (h : Grows policy c c') (hc : c.Valid policy)
    (hc' : c'.Valid policy) : c.frontier ≤ c'.frontier := by
  cases policy with
  | itanium =>
    rw [frontier_of_none (hc.shared rfl)]
    exact h.dataSize_le.trans (dataSize_le_frontier hc')
  | strictUnits =>
    rw [frontier_eq_room, frontier_eq_room]
    exact h.room_le

/-! ### Members of whole bytes -/

section Whole

variable {alignment width : Nat}

theorem openUnit_placeWhole (hc : c.Valid policy) :
    (c.placeWhole policy alignment width).2.openUnit = none := openUnit_endRun hc

/-- A member of whole bytes leaves the cursor on a byte boundary. -/
theorem valid_placeWhole (hc : c.Valid policy) (ha : 8 ∣ alignment) (hw : 8 ∣ width) :
    (c.placeWhole policy alignment width).2.Valid policy :=
  valid_of_openUnit_eq_none (openUnit_placeWhole hc)
    (Nat.dvd_add (Nat.dvd_trans ha (dvd_nextMultiple _ _)) hw)

theorem room_placeWhole (hc : c.Valid policy) (ha : 8 ∣ alignment) (hw : 8 ∣ width) :
    (c.placeWhole policy alignment width).2.room policy =
      (c.placeWhole policy alignment width).1 + width :=
  room_eq_dataSize (openUnit_placeWhole hc)
    (Nat.dvd_add (Nat.dvd_trans ha (dvd_nextMultiple _ _)) hw)

/-- A member of whole bytes starts behind all room taken so far. -/
theorem room_le_placeWhole (hpos : 0 < alignment) :
    c.room policy ≤ (c.placeWhole policy alignment width).1 := le_nextMultiple _ hpos

theorem grows_placeWhole (hc : c.Valid policy) (hpos : 0 < alignment) (ha : 8 ∣ alignment)
    (hw : 8 ∣ width) : Grows policy c (c.placeWhole policy alignment width).2 := by
  have hroom : c.room policy ≤ (c.placeWhole policy alignment width).1 + width :=
    (room_le_placeWhole hpos).trans (Nat.le_add_right _ width)
  exact ⟨(dataSize_le_room hc).trans hroom, hroom.trans (room_placeWhole hc ha hw).ge⟩

end Whole

/-! ### Bit-fields -/

section Bits

variable {p : Primitive} {width : Nat}

@[simp] theorem placeAt_fst (offset : Nat) : (c.placeAt offset width).1 = offset := rfl

/-- The steps that place a bit-field: under the Itanium policy at the cursor or at the next aligned
unit, under the strict policy in the open unit or in a fresh one. -/
theorem placeBits_cases (motive : Nat × Cursor → Prop)
    (here : policy = .itanium → c.dataSize % p.bitAlignment + width ≤ p.bitSize →
      motive (c.placeAt c.dataSize width))
    (next : policy = .itanium →
      motive (c.placeAt (nextMultiple c.dataSize p.bitAlignment) width))
    (open_ : ∀ u, policy = .strictUnits → c.openUnit = some u → u.underlying = p →
      c.dataSize + width ≤ u.stop → motive (c.placeAt c.dataSize width))
    (fresh : policy = .strictUnits → motive (c.placeInFreshUnit p width)) :
    motive (c.placeBits policy p width) := by
  cases policy with
  | itanium =>
    rw [placeBits, placeShared]
    split
    · exact next rfl
    · exact here rfl (by omega)
  | strictUnits =>
    rw [placeBits]
    split
    · rename_i hfits
      cases hu : c.openUnit with
      | none => simp [fitsOpenUnit, hu] at hfits
      | some u =>
        simp only [fitsOpenUnit, hu, Bool.and_eq_true, decide_eq_true_eq] at hfits
        exact open_ u rfl hu hfits.1 hfits.2
    · exact fresh rfl

/-- The cursor stands at the end of the bit-field just placed. -/
theorem dataSize_placeBits : (c.placeBits policy p width).2.dataSize =
    (c.placeBits policy p width).1 + width := by
  refine placeBits_cases (fun placed => placed.2.dataSize = placed.1 + width) ?_ ?_ ?_ ?_
  · exact fun _ _ => rfl
  · exact fun _ => rfl
  · exact fun _ _ _ _ _ => rfl
  · exact fun _ => rfl

/-- A bit-field starts at the cursor or behind it. -/
theorem dataSize_le_placeBits (hc : c.Valid policy) (hp : p.Usable) :
    c.dataSize ≤ (c.placeBits policy p width).1 := by
  refine placeBits_cases (fun placed => c.dataSize ≤ placed.1) ?_ ?_ ?_ ?_
  · exact fun _ _ => le_rfl
  · exact fun _ => le_nextMultiple _ hp.bitAlignment_pos
  · exact fun _ _ _ _ _ => le_rfl
  · rintro rfl
    exact (dataSize_le_room hc).trans (le_nextMultiple _ hp.bitAlignment_pos)

/-- A fresh unit is aligned and holds its first bit-field. -/
theorem valid_placeInFreshUnit (hw : width ≤ p.bitSize) :
    (c.placeInFreshUnit p width).2.Valid .strictUnits := by
  refine ⟨fun h => (nomatch h), fun _ h => (nomatch h), ?_, ?_, ?_, ?_⟩ <;> rintro u ⟨⟩
  · exact dvd_nextMultiple _ _
  · rfl
  · exact Nat.le_add_right _ width
  · exact Nat.add_le_add_left hw _

theorem valid_placeBits (hc : c.Valid policy) (hw : width ≤ p.bitSize) :
    (c.placeBits policy p width).2.Valid policy := by
  refine placeBits_cases (fun placed => placed.2.Valid policy) ?_ ?_ ?_ ?_
  · rintro rfl -
    exact valid_itanium (hc.shared rfl)
  · rintro rfl
    exact valid_itanium (hc.shared rfl)
  · rintro u rfl hu rfl hfits
    have hu' (v : StorageUnit) (hv : c.openUnit = some v) : v = u :=
      Option.some.inj (hv.symm.trans hu)
    refine ⟨fun h => (nomatch h), fun _ hnone => ?_, hc.aligned, hc.stop_eq, fun v hv => ?_,
      fun v hv => ?_⟩
    · exact nomatch hu.symm.trans hnone
    · exact (hc.start_le v hv).trans (Nat.le_add_right _ width)
    · rw [hu' v hv]
      exact hfits
  · rintro rfl
    exact valid_placeInFreshUnit hw

theorem grows_placeBits (hc : c.Valid policy) (hp : p.Usable) :
    Grows policy c (c.placeBits policy p width).2 := by
  refine ⟨?_, ?_⟩
  · rw [dataSize_placeBits]
    exact (dataSize_le_placeBits hc hp).trans (Nat.le_add_right _ width)
  · refine placeBits_cases (fun placed => c.room policy ≤ placed.2.room policy) ?_ ?_ ?_ ?_
    · rintro rfl -
      exact nextMultiple_mono (by decide) (Nat.le_add_right _ width)
    · rintro rfl
      refine nextMultiple_mono (by decide) ?_
      exact (le_nextMultiple _ hp.bitAlignment_pos).trans (Nat.le_add_right _ width)
    · rintro u rfl hu - -
      exact (room_strictUnits_of_some hu).trans_le
        (room_strictUnits_of_some (c := (c.placeAt c.dataSize width).2) hu).ge
    · rintro rfl
      exact (le_nextMultiple _ hp.bitAlignment_pos).trans (Nat.le_add_right _ _)

/-- A bit-field lies in one aligned unit of its type: counted from the last multiple of the
alignment, it ends within the size. -/
theorem placeBits_window (hc : c.Valid policy) (hp : p.Usable) (hw : width ≤ p.bitSize) :
    (c.placeBits policy p width).1 % p.bitAlignment + width ≤ p.bitSize := by
  have hstart {x : Nat} (hx : p.bitAlignment ∣ x) : x % p.bitAlignment + width ≤ p.bitSize := by
    rw [Nat.mod_eq_zero_of_dvd hx, Nat.zero_add]
    exact hw
  refine placeBits_cases (fun placed => placed.1 % p.bitAlignment + width ≤ p.bitSize) ?_ ?_ ?_ ?_
  · exact fun _ h => h
  · exact fun _ => hstart (dvd_nextMultiple _ _)
  · rintro u rfl hu rfl hfits
    -- the residue of the cursor is at most its distance from the aligned start of the unit
    obtain ⟨k, hk⟩ := hc.aligned u hu
    have hle := hc.start_le u hu
    have hstop := hc.stop_eq u hu
    have hmod : c.dataSize % u.underlying.bitAlignment ≤ c.dataSize - u.start := by
      have : c.dataSize % u.underlying.bitAlignment =
          (c.dataSize - u.start) % u.underlying.bitAlignment := by
        conv_lhs => rw [← Nat.sub_add_cancel hle, hk, Nat.add_mul_mod_self_left]
        rw [hk]
      rw [this]
      exact Nat.mod_le _ _
    rw [placeAt_fst]
    omega
  · exact fun _ => hstart (dvd_nextMultiple _ _)

end Bits

/-! ### Zero-width bit-fields -/

theorem valid_breakRun (hc : c.Valid policy) (p : Primitive) :
    (c.breakRun policy p).Valid policy := by
  cases policy with
  | itanium => exact valid_itanium (hc.shared rfl)
  | strictUnits => exact valid_endRun hc

theorem grows_breakRun (hc : c.Valid policy) {p : Primitive} (hp : p.Usable) :
    Grows policy c (c.breakRun policy p) := by
  cases policy with
  | itanium =>
    have hle : c.dataSize ≤ nextMultiple c.dataSize p.bitAlignment :=
      le_nextMultiple _ hp.bitAlignment_pos
    exact ⟨hle, nextMultiple_mono (by decide) hle⟩
  | strictUnits => exact grows_endRun hc

end AbiLayout.Ideal.Cursor
