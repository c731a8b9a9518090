import AbiLayout.Layout.Record
import AbiLayout.Proofs.Rounding

/-!
# Ideal layouts

The placement rules over natural numbers without bound. An ideal layout is what a record would get
if no count could leave the 64-bit range: the same cursor, the same order of members, the same
rounding, on the same resolved bases and fields, and no way to fail.

## Main definitions

* `Ideal.Cursor` with `Ideal.Cursor.placeWhole`, `Ideal.Cursor.placeBits`, `Ideal.Cursor.breakRun`.
* `Ideal.StructDraft`, `Ideal.UnionDraft`: the members placed so far.
* `Ideal.Layout`, `Ideal.structLayout`, `Ideal.unionLayout`.
* `RecordLayout.toIdeal` and its relatives: what the library computes, read as natural numbers.
-/

namespace AbiLayout

namespace Ideal

/-! ### The cursor -/

/-- A storage unit that bit-fields over one base type are being placed in. -/
structure StorageUnit where
  underlying : Primitive
  start : Nat
  stop : Nat
deriving DecidableEq, Repr

/-- How far a struct is filled. -/
structure Cursor where
  dataSize : Nat := 0
  openUnit : Option StorageUnit := none
deriving DecidableEq, Repr

end Ideal

/-- The size of a base type in bits, as a number. -/
def Primitive.bitSize (p : Primitive) : Nat := 8 * p.size.count

/-- The alignment of a base type in bits, as a number. -/
def Primitive.bitAlignment (p : Primitive) : Nat := 8 * p.alignment.count

namespace Ideal

namespace Cursor

/-- The cursor behind the end of any run of bit-fields. -/
def endRun (policy : BitfieldPolicy) (c : Cursor) : Cursor :=
  match policy with
  | .itanium => { c with dataSize := nextMultiple c.dataSize 8 }
  | .strictUnits =>
    match c.openUnit with
    | none => c
    | some unit => ⟨unit.stop, none⟩

/-- The room that the members placed so far take, open unit included. -/
def room (policy : BitfieldPolicy) (c : Cursor) : Nat := (c.endRun policy).dataSize

/-- How far the members placed so far have to be counted: up to the cursor, or to the end of the
open unit. -/
def frontier (c : Cursor) : Nat :=
  match c.openUnit with
  | none => c.dataSize
  | some unit => unit.stop

/-- Places `width` bits at `offset`. -/
def placeAt (c : Cursor) (offset width : Nat) : Nat × Cursor :=
  (offset, { c with dataSize := offset + width })

/-- Places a member of whole bytes: behind any run of bit-fields, at the next multiple of its
alignment. -/
def placeWhole (policy : BitfieldPolicy) (c : Cursor) (alignment width : Nat) : Nat × Cursor :=
  (c.endRun policy).placeAt (nextMultiple (c.room policy) alignment) width

/-- Places a bit-field at the cursor, or at the next aligned unit of its type if it would otherwise
reach past the end of one. -/
def placeShared (c : Cursor) (underlying : Primitive) (width : Nat) : Nat × Cursor :=
  if underlying.bitSize < c.dataSize % underlying.bitAlignment + width then
    c.placeAt (nextMultiple c.dataSize underlying.bitAlignment) width
  else c.placeAt c.dataSize width

/-- Whether a bit-field over `underlying` fits into the open unit. -/
def fitsOpenUnit (c : Cursor) (underlying : Primitive) (width : Nat) : Bool :=
  match c.openUnit with
  | none => false
  | some unit => decide (unit.underlying = underlying) && decide (c.dataSize + width ≤ unit.stop)

/-- Closes any open unit, opens the next aligned unit of `underlying` and places a bit-field at its
start. -/
def placeInFreshUnit (c : Cursor) (underlying : Primitive) (width : Nat) : Nat × Cursor :=
  let start := nextMultiple (c.room .strictUnits) underlying.bitAlignment
  (start, ⟨start + width, some ⟨underlying, start, start + underlying.bitSize⟩⟩)

/-- Places a bit-field of `width` bits over `underlying`, as the policy says. -/
def placeBits (policy : BitfieldPolicy) (c : Cursor) (underlying : Primitive) (width : Nat) :
    Nat × Cursor :=
  match policy with
  | .itanium => c.placeShared underlying width
  | .strictUnits =>
    if c.fitsOpenUnit underlying width then c.placeAt c.dataSize width
    else c.placeInFreshUnit underlying width

/-- The cursor behind a zero-width bit-field over `underlying`. -/
def breakRun (policy : BitfieldPolicy) (c : Cursor) (underlying : Primitive) : Cursor :=
  match policy with
  | .itanium => { c with dataSize := nextMultiple c.dataSize underlying.bitAlignment }
  | .strictUnits => c.endRun .strictUnits

end Cursor

/-! ### Layouts -/

/-- Where a member lies. The length of a flexible array is not known. -/
structure Slot where
  member : Member
  offset : Nat
  length : Option Nat
deriving DecidableEq, Repr

/-- The bits that count towards the size of the record. -/
def Slot.counted (s : Slot) : Nat := s.length.getD 0

/-- The first bit behind a member. -/
def Slot.stop (s : Slot) : Nat := s.offset + s.counted

/-- A run of bits that no member uses. -/
structure Region where
  offset : Nat
  length : Nat
deriving DecidableEq, Repr

/-- The first bit behind a region. -/
def Region.stop (p : Region) : Nat := p.offset + p.length

/-- Where everything in a record lies. -/
structure Layout where
  kind : RecordKind
  size : Nat
  alignment : Nat
  dataSize : Nat
  members : List Slot
  padding : List Region
  hasFlexibleTail : Bool
deriving DecidableEq, Repr

/-- The size of a record whose members take `unpadded` bytes. -/
def recordSize (profile : Profile) (unpadded alignment : Nat) : Nat :=
  nextMultiple (if unpadded = 0 then profile.emptyRecordSize.count else unpadded) alignment

/-- Places the fields from position `i` on, each as it was resolved, by `place`. -/
def placeEach {δ : Type} (place : δ → Nat → Bool → Placement → δ) :
    (i : Nat) → List Field → List Placement → δ → δ
  | i, field :: fields, placement :: placements, d =>
    placeEach place (i + 1) fields placements (place d i field.isNamed placement)
  | _, _, _, d => d

/-! ### Structs -/

/-- What is settled of the layout of a struct. -/
structure StructDraft where
  cursor : Cursor := {}
  alignment : Nat := 1
  members : List Slot := []
  hasFlexibleTail : Bool := false
deriving DecidableEq, Repr

namespace StructDraft

/-- The draft behind the placement of a member, which asks for an alignment, and says whether the
record now has a flexible tail. -/
def settle (d : StructDraft) (member : Member) (length : Option Nat) (asked : Nat) (tail : Bool)
    (placed : Nat × Cursor) : StructDraft :=
  ⟨placed.2, max d.alignment asked, d.members ++ [⟨member, placed.1, length⟩], tail⟩

/-- Places a base. -/
def placeBase (policy : BitfieldPolicy) (d : StructDraft) (i : Nat) (layout : RecordLayout) :
    StructDraft :=
  d.settle (.base i) (some (8 * layout.size.count)) layout.alignment.count layout.hasFlexibleTail
    (d.cursor.placeWhole policy (8 * layout.alignment.count) (8 * layout.size.count))

/-- Places the field at position `i`. A flexible array takes no bits. -/
def place (policy : BitfieldPolicy) (d : StructDraft) (i : Nat) (isNamed : Bool) :
    Placement → StructDraft
  | .zeroWidth underlying => { d with cursor := d.cursor.breakRun policy underlying }
  | .bitfield b =>
    d.settle (.field i) (some b.width.count) (b.askedAlignment isNamed).count d.hasFlexibleTail
      (d.cursor.placeBits policy b.underlying b.width.count)
  | .bytes layout =>
    let length := if layout.completeness = .incomplete then none else some (8 * layout.width.count)
    d.settle (.field i) length layout.alignment.count (d.hasFlexibleTail || layout.isTrailingOnly)
      (d.cursor.placeWhole policy (8 * layout.alignment.count) (length.getD 0))

/-- Places bases from position `i` on. -/
def placeBases (policy : BitfieldPolicy) :
    (i : Nat) → List StructDraft.ResolvedBase → StructDraft → StructDraft
  | _, [], d => d
  | i, base :: bases, d => placeBases policy (i + 1) bases (d.placeBase policy i base.layout)

end StructDraft

/-- The bits from `start` up to `stop` as a padding region, if there are any. -/
def gap (start stop : Nat) : List Region := if start < stop then [⟨start, stop - start⟩] else []

/-- The gaps behind `reached`, up to `size`. -/
def gapsFrom (size : Nat) : (reached : Nat) → List Slot → List Region
  | reached, [] => gap reached size
  | reached, m :: ms => gap reached m.offset ++ gapsFrom size (max reached m.stop) ms

/-- The layout of a draft: its size covers the room of the members in whole bytes, and is rounded up
to the alignment. -/
def StructDraft.finish (profile : Profile) (d : StructDraft) : Layout :=
  let unpadded := (d.cursor.room profile.bitfieldPolicy + 7) / 8
  let size := recordSize profile unpadded d.alignment
  ⟨.struct, size, d.alignment, d.cursor.dataSize, d.members, gapsFrom (8 * size) 0 d.members,
    d.hasFlexibleTail⟩

/-- The draft of a struct with all members placed. -/
def structDraft (policy : BitfieldPolicy) (record : Record)
    (bases : List AbiLayout.StructDraft.ResolvedBase) (placements : List Placement) : StructDraft :=
  placeEach (StructDraft.place policy) 0 record.fields placements
    (StructDraft.placeBases policy 0 bases {})

/-- The ideal layout of a struct. -/
def structLayout (profile : Profile) (record : Record)
    (bases : List AbiLayout.StructDraft.ResolvedBase) (placements : List Placement) : Layout :=
  (structDraft profile.bitfieldPolicy record bases placements).finish profile

/-! ### Unions -/

/-- What is settled of the layout of a union. -/
structure UnionDraft where
  size : Nat := 0
  alignment : Nat := 1
  dataSize : Nat := 0
  members : List Slot := []
  hasFlexibleTail : Bool := false
deriving DecidableEq, Repr

namespace UnionDraft

/-- The draft with one more member, of `length` bits, that asks for a size and an alignment. -/
def push (d : UnionDraft) (i length size alignment : Nat) (tail : Bool) : UnionDraft :=
  ⟨max d.size size, max d.alignment alignment, max d.dataSize length,
    d.members ++ [⟨.field i, 0, some length⟩], tail⟩

/-- Places the field at position `i`. -/
def place (d : UnionDraft) (i : Nat) (isNamed : Bool) : Placement → UnionDraft
  | .zeroWidth _ => d
  | .bitfield b =>
    d.push i b.width.count b.underlying.size.count (b.askedAlignment isNamed).count
      d.hasFlexibleTail
  | .bytes layout =>
    d.push i (8 * layout.width.count) layout.width.count layout.alignment.count
      (d.hasFlexibleTail || layout.completeness == .flexibleTail)

/-- The layout of a draft. The only padding is what the rounding adds. -/
def finish (profile : Profile) (d : UnionDraft) : Layout :=
  let size := recordSize profile d.size d.alignment
  ⟨.union, size, d.alignment, d.dataSize, d.members, gap (8 * d.size) (8 * size),
    d.hasFlexibleTail⟩

end UnionDraft

/-- The draft of a union with all members placed. -/
def unionDraft (record : Record) (placements : List Placement) : UnionDraft :=
  placeEach UnionDraft.place 0 record.fields placements {}

/-- The ideal layout of a union. -/
def unionLayout (profile : Profile) (record : Record) (placements : List Placement) : Layout :=
  (unionDraft record placements).finish profile

/-- The ideal layout of a record. Bases have no part in that of a union. -/
def recordLayout (profile : Profile) (record : Record)
    (bases : List AbiLayout.StructDraft.ResolvedBase) (placements : List Placement) : Layout :=
  match record.kind with
  | .struct => structLayout profile record bases placements
  | .union => unionLayout profile record placements

end Ideal

/-! ### Computed layouts as numbers -/

/-- The storage unit, as numbers. -/
def StorageUnit.toIdeal (u : StorageUnit) : Ideal.StorageUnit :=
  ⟨u.underlying, u.start.count, u.stop.count⟩

/-- The cursor, as numbers. -/
def Cursor.toIdeal (c : Cursor) : Ideal.Cursor :=
  ⟨c.dataSize.count, c.openUnit.map StorageUnit.toIdeal⟩

/-- The extent as a length, if it is known. -/
def Extent.toIdeal : Extent → Option Nat
  | bits length => some length.count
  | unbounded => none

/-- The member's place, as numbers. -/
def PlacedMember.toIdeal (m : PlacedMember) : Ideal.Slot :=
  ⟨m.member, m.offset.count, m.extent.toIdeal⟩

/-- The run of bits, as numbers. -/
def BitRange.toIdeal (p : BitRange) : Ideal.Region := ⟨p.offset.count, p.length.count⟩

/-- The layout, as numbers. -/
def RecordLayout.toIdeal (l : RecordLayout) : Ideal.Layout where
  kind := l.kind
  size := l.size.count
  alignment := l.alignment.count
  dataSize := l.dataSize.count
  members := l.members.map PlacedMember.toIdeal
  padding := l.padding.map BitRange.toIdeal
  hasFlexibleTail := l.hasFlexibleTail

/-- The draft of a struct, as numbers. -/
def StructDraft.toIdeal (d : StructDraft) : Ideal.StructDraft where
  cursor := d.cursor.toIdeal
  alignment := d.alignment.count
  members := d.members.map PlacedMember.toIdeal
  hasFlexibleTail := d.hasFlexibleTail

/-- The draft of a union, as numbers. -/
def UnionDraft.toIdeal (d : UnionDraft) : Ideal.UnionDraft where
  size := d.size.count
  alignment := d.alignment.count
  dataSize := d.dataSize.count
  members := d.members.map PlacedMember.toIdeal
  hasFlexibleTail := d.hasFlexibleTail

end AbiLayout
