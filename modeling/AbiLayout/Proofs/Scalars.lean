import AbiLayout.Proofs.Ideal.Basic

/-!
# Usable base types

A base type that a profile accepts has an alignment that is a power of two, a size whose bits fit in
64 bits, and a size that is a multiple of the alignment (`Profile.addBaseType_eq_ok_iff`). A schema
is usable when every base type that its fields mention is, and pointers are aligned to a power of
two.

## Main definitions

* `Primitive.Usable`, `Ty.primitives`, `Schema.Mentions`, `Schema.Usable`.
* `Schema.mixed`: a usable schema with records of both kinds.

## Main results

* `Profile.addBaseType_eq_ok_iff`: the base types that a profile accepts are the usable ones.
-/

namespace AbiLayout

/-- What a profile asks of a base type. -/
structure Primitive.Usable (p : Primitive) : Prop where
  isPowerOfTwo : p.alignment.count.isPowerOfTwo
  bitSize_lt : p.bitSize < 2 ^ 64
  alignment_dvd : p.alignment.count ∣ p.size.count

namespace Primitive

theorem usable_iff {p : Primitive} :
    p.Usable ↔ p.alignment.isPowerOfTwo = true ∧ p.size.fitsInBits = true ∧
      p.size.count % p.alignment.count = 0 := by
  rw [Quantity.isPowerOfTwo_iff, Quantity.fitsInBits_iff, ← Nat.dvd_iff_mod_eq_zero]
  exact ⟨fun h => ⟨h.1, h.2, h.3⟩, fun h => ⟨h.1, h.2.1, h.2.2⟩⟩

instance (p : Primitive) : Decidable p.Usable := decidable_of_iff' _ usable_iff

namespace Usable

variable {p : Primitive} (hp : p.Usable)

include hp

theorem bitAlignment_isPowerOfTwo : p.bitAlignment.isPowerOfTwo :=
  isPowerOfTwo_eight_mul hp.isPowerOfTwo

theorem bitAlignment_pos : 0 < p.bitAlignment :=
  Nat.pos_of_isPowerOfTwo hp.bitAlignment_isPowerOfTwo

theorem bitAlignment_dvd_bitSize : p.bitAlignment ∣ p.bitSize :=
  Nat.mul_dvd_mul_left 8 hp.alignment_dvd

/-- A base type with storage is at least as large as its alignment. -/
theorem bitAlignment_le_bitSize (h : 0 < p.bitSize) : p.bitAlignment ≤ p.bitSize :=
  Nat.le_of_dvd h hp.bitAlignment_dvd_bitSize

/-- The alignment of a base type with storage fits in bits as well. -/
theorem bitAlignment_lt (h : 0 < p.bitSize) : p.bitAlignment < 2 ^ 64 :=
  (hp.bitAlignment_le_bitSize h).trans_lt hp.bitSize_lt

theorem bits_eq_ok : p.bits = .ok ⟨p.bitSize, hp.bitSize_lt⟩ := Quantity.toBits_eq_ok hp.bitSize_lt

end Usable

end Primitive

/-- A profile accepts a base type exactly when it is usable, and then its table holds it. -/
theorem Profile.addBaseType_eq_ok_iff {p q : Profile} {b : Primitive} :
    p.addBaseType b = .ok q ↔
      b.Usable ∧ q = { p with baseTypes := insertBaseType b p.baseTypes } := by
  rw [Primitive.usable_iff, addBaseType]
  cases b.alignment.isPowerOfTwo <;> cases b.size.fitsInBits <;>
    by_cases h : b.size.count % b.alignment.count = 0 <;> simp [h, eq_comm]

/-! ### Base types in types and schemas -/

/-- The base types that a type mentions, also behind pointers. -/
def Ty.primitives : Ty → List Primitive
  | primitive p => [p]
  | voidPointer => []
  | pointerTo pointee => pointee.primitives
  | array element _ => element.primitives
  | bitfield b => [b.underlying]
  | record _ => []

namespace Schema

/-- A field of the schema mentions the base type. -/
def Mentions (s : Schema) (p : Primitive) : Prop :=
  ∃ r record field, s.records.get? r = some record ∧ field ∈ record.fields ∧ p ∈ field.ty.primitives

/-- Every base type of the schema is usable, and pointers are aligned to a power of two. -/
structure Usable (s : Schema) : Prop where
  primitive : ∀ p, s.Mentions p → p.Usable
  pointerAlignment : s.pointerAlignment.count.isPowerOfTwo

/-- What holds of all base types in the table holds of those that the schema mentions. -/
theorem forall_mentions {s : Schema} {P : Primitive → Prop}
    (h : ∀ record ∈ s.records.values.toList, ∀ field ∈ record.fields,
      ∀ p ∈ field.ty.primitives, P p) : ∀ p, s.Mentions p → P p := by
  rintro p ⟨r, record, field, hget, hfield, hp⟩
  rw [Arena.get?] at hget
  exact h record (Array.mem_toList_iff.mpr (Array.mem_of_getElem? hget)) field hfield p hp

/-- A struct with a base, an anonymous union and a bit-field, and the records that it contains. -/
def mixed : Schema where
  records := ⟨#[
    ⟨none, .union, [],
      [⟨some "number", .primitive ⟨"int", .of 4, .of 4, .signed⟩, false⟩,
       ⟨some "letter", .primitive ⟨"char", .of 1, .of 1, .signedChar⟩, false⟩]⟩,
    ⟨some "tag", .struct, [],
      [⟨some "kind", .primitive ⟨"char", .of 1, .of 1, .signedChar⟩, false⟩]⟩,
    ⟨some "token", .struct, [⟨.of 1, false⟩],
      [⟨none, .record (.of 0), true⟩,
       ⟨some "flags", .bitfield (.ofWidth ⟨"int", .of 4, .of 4, .signed⟩ (.of 3)), false⟩]⟩],
    by decide⟩
  pointerSize := .of 8
  pointerAlignment := .of 8

theorem mixed_usable : mixed.Usable := ⟨forall_mentions (by decide), ⟨3, rfl⟩⟩

end Schema

end AbiLayout
