import AbiLayout.Proofs.Ideal.Padding
import AbiLayout.Proofs.Ideal.Union

/-!
# Ideal layouts

The size of a record covers its members and is a multiple of its alignment. The members of a struct
are ordered within the size, so that they tile it together with the gaps. The members of a union end
within the size before it is rounded.

## Main results

* `Ideal.le_recordSize`, `Ideal.dvd_recordSize`: the size of a record.
* `Ideal.StructDraft.Filled.ordered`: the members of a struct are ordered within its size.
* `Ideal.StructDraft.room_le_size`: the size covers the room of the members.
* `Ideal.UnionDraft.size_le_size`: the size covers the largest member.
-/

namespace AbiLayout.Ideal

/-- The size of a record covers what its members take. -/
theorem le_recordSize (profile : Profile) (unpadded : Nat) {alignment : Nat}
    (ha : 0 < alignment) : unpadded ≤ recordSize profile unpadded alignment := by
  have hle : unpadded ≤ if unpadded = 0 then profile.emptyRecordSize.count else unpadded := by
    split <;> omega
  exact hle.trans (le_nextMultiple _ ha)

/-- The size of a record is a multiple of its alignment. -/
theorem dvd_recordSize (profile : Profile) (unpadded alignment : Nat) :
    alignment ∣ recordSize profile unpadded alignment := dvd_nextMultiple _ _

namespace StructDraft

variable {profile : Profile} {d : StructDraft}

/-- The size covers the room of the members. -/
theorem room_le_size (profile : Profile) (hd : d.alignment.isPowerOfTwo) :
    d.cursor.room profile.bitfieldPolicy ≤ 8 * (d.finish profile).size := by
  have hle := le_recordSize profile ((d.cursor.room profile.bitfieldPolicy + 7) / 8)
    (Nat.pos_of_isPowerOfTwo hd)
  change _ ≤ 8 * recordSize profile _ d.alignment
  omega

variable {bases : List AbiLayout.StructDraft.ResolvedBase} {fields : List Field}
  {placements : List Placement}

/-- The bits that the members use lie within the size. -/
theorem Filled.dataSize_le_size (hd : d.Filled profile.bitfieldPolicy bases fields placements) :
    d.cursor.dataSize ≤ 8 * (d.finish profile).size :=
  (Cursor.dataSize_le_room hd.valid).trans (room_le_size profile hd.alignment_isPowerOfTwo)

/-- So does all that was counted to place them. -/
theorem Filled.frontier_le_size (hd : d.Filled profile.bitfieldPolicy bases fields placements) :
    d.cursor.frontier ≤ 8 * (d.finish profile).size :=
  (Cursor.frontier_le_room hd.valid).trans (room_le_size profile hd.alignment_isPowerOfTwo)

/-- The members of a struct are ordered within its size. -/
theorem Filled.ordered (hd : d.Filled profile.bitfieldPolicy bases fields placements) :
    Ordered (8 * (d.finish profile).size) 0 d.members where
  sorted := hd.sorted
  reached_le _ _ := Nat.zero_le _
  stop_le s hs := (hd.stop_le s hs).trans hd.dataSize_le_size
  reached_le_size := Nat.zero_le _

end StructDraft

namespace UnionDraft

/-- The size covers the largest member. -/
theorem size_le_size (profile : Profile) {d : UnionDraft} (hd : d.alignment.isPowerOfTwo) :
    d.size ≤ (d.finish profile).size :=
  le_recordSize profile d.size (Nat.pos_of_isPowerOfTwo hd)

end UnionDraft

/-- The members of whole bytes lie within the size of a record. -/
theorem wholeBits_le_size (profile : Profile) {record : Record}
    {bases : List AbiLayout.StructDraft.ResolvedBase} {placements : List Placement}
    (hbases : ∀ base ∈ bases, base.layout.alignment.count.isPowerOfTwo)
    (hsound : ∀ placement ∈ placements, placement.Sound)
    (hmatch : ∀ (i : Nat) (field : Field) (placement : Placement),
      record.fields[i]? = some field → placements[i]? = some placement →
        placement.Matches field) :
    ∀ z ∈ record.fields.zip placements,
      z.2.wholeBits ≤ 8 * (recordLayout profile record bases placements).size := by
  intro z hz
  rw [recordLayout]
  cases record.kind with
  | struct =>
    have hfilled : (structDraft profile.bitfieldPolicy record bases placements).Filled
        profile.bitfieldPolicy bases record.fields placements :=
      StructDraft.filled_structDraft hbases hsound
    exact (StructDraft.wholeBits_le_frontier hbases hsound z hz).trans hfilled.frontier_le_size
  | union =>
    have hfilled := UnionDraft.filled_unionDraft hsound hmatch
    exact (UnionDraft.wholeBits_le_size record placements z hz).trans (Nat.mul_le_mul_left 8
      (UnionDraft.size_le_size profile hfilled.alignment_isPowerOfTwo))

end AbiLayout.Ideal
