import AbiLayout.Profile
import AbiLayout.Schema.Syntax

/-!
# Layouts

A record layout says where the members of a record lie, in bits from its start, which bits are
padding, and what size and alignment the record has in bytes. A type layout is what the layout of an
enclosing record needs to know of a member's type.

The length of a flexible array member is not known; such a member is `unbounded`, and counts as no
bits.

## Main definitions

* `Member`, `Extent`, `PlacedMember`, `BitRange`: the parts of a record layout.
* `RecordLayout`, `RecordLayout.member?`, `RecordLayout.isEmpty`, `RecordLayout.paddingBits`.
* `Completeness`, `TypeLayout`, `TypeLayout.isTrailingOnly`.
* `Profile.pointerLayout`, `Profile.baseTypeLayout?`: layouts that a profile knows.
-/

namespace AbiLayout

/-- A member of a record by its position among the bases or among the fields. -/
inductive Member where
  | base (i : Nat)
  | field (i : Nat)
deriving DecidableEq, Repr

/-- A member as messages write it. -/
def Member.text : Member → String
  | base i => s!"Base({i})"
  | field i => s!"Field({i})"

instance : ToString Member := ⟨Member.text⟩

/-- How far a member reaches. -/
inductive Extent where
  | bits (length : BitCount)
  /-- A flexible array member. -/
  | unbounded
deriving DecidableEq, Repr

namespace Extent

/-- The bits that count towards the size of the record. -/
def counted : Extent → BitCount
  | bits length => length
  | unbounded => .zero

/-- The length as bytes and bits, `??` where it is unknown. -/
def text : Extent → String
  | bits length => length.text
  | unbounded => "??"

instance : ToString Extent := ⟨text⟩

end Extent

/-- Where a member lies. -/
structure PlacedMember where
  member : Member
  offset : BitCount
  extent : Extent
deriving DecidableEq, Repr

/-- The first bit behind a member; traps where it leaves the range. -/
def PlacedMember.stop (m : PlacedMember) : Except Trap BitCount := m.offset.add m.extent.counted

/-- A run of bits, in a layout one that no member uses. -/
structure BitRange where
  offset : BitCount
  length : BitCount
deriving DecidableEq, Repr

/-- The first bit behind a range; traps where it leaves the range. -/
def BitRange.stop (p : BitRange) : Except Trap BitCount := p.offset.add p.length

/-! ### Record layouts -/

/-- Where everything in a record lies. -/
structure RecordLayout where
  kind : RecordKind
  size : ByteCount
  alignment : ByteCount
  /-- The size in bits without the padding at the end. -/
  dataSize : BitCount
  /-- The members that have a place, in declaration order. -/
  members : List PlacedMember
  /-- The runs of bits that no member uses. -/
  padding : List BitRange
  /-- Whether the record ends in an array of unknown length. -/
  hasFlexibleTail : Bool
deriving DecidableEq, Repr

namespace RecordLayout

/-- Whether the record has no storage of its own. -/
def isEmpty (l : RecordLayout) : Bool := l.dataSize.isZero && !l.hasFlexibleTail

/-- Where a member lies, if it has a place. -/
def member? (l : RecordLayout) (m : Member) : Option PlacedMember :=
  l.members.find? fun placed => placed.member == m

/-- Where the field at position `i` lies, if it has a place. -/
def field? (l : RecordLayout) (i : Nat) : Option PlacedMember := l.member? (.field i)

/-- Where the base at position `i` lies. -/
def base? (l : RecordLayout) (i : Nat) : Option PlacedMember := l.member? (.base i)

/-- The number of padding bits; traps where it leaves the range. -/
def paddingBits (l : RecordLayout) : Except Trap BitCount :=
  Quantity.sum (l.padding.map BitRange.length)

end RecordLayout

/-! ### Type layouts -/

/-- Whether the size of a type is known. -/
inductive Completeness where
  | complete
  /-- A record that ends in an array of unknown length. -/
  | flexibleTail
  /-- An array of unknown length, or of elements without a known size. -/
  | incomplete
deriving DecidableEq, Repr, Inhabited

/-- What an enclosing record needs to know of a type. -/
structure TypeLayout where
  width : ByteCount
  alignment : ByteCount
  completeness : Completeness := .complete
deriving DecidableEq, Repr

namespace TypeLayout

/-- The complete type whose alignment is its size. -/
def basic (size : ByteCount) : TypeLayout := ⟨size, size, .complete⟩

/-- The type of unknown size with a given alignment. -/
def incomplete (alignment : ByteCount) : TypeLayout := ⟨.zero, alignment, .incomplete⟩

/-- Whether the type is complete. -/
def isComplete (l : TypeLayout) : Bool := l.completeness == .complete

/-- Whether the type can only be that of a last member. -/
def isTrailingOnly (l : TypeLayout) : Bool := !l.isComplete

end TypeLayout

/-- The layout of a record as a member of another one. -/
def RecordLayout.typeLayout (l : RecordLayout) : TypeLayout :=
  ⟨l.size, l.alignment, if l.hasFlexibleTail then .flexibleTail else .complete⟩

namespace Profile

/-- The layout of a pointer. -/
def pointerLayout (p : Profile) : TypeLayout := ⟨p.pointerSize, p.pointerAlignment, .complete⟩

/-- The layout of the base type of a name. -/
def baseTypeLayout? (p : Profile) (name : String) : Option TypeLayout :=
  (p.baseType? name).map fun b => ⟨b.size, b.alignment, .complete⟩

/-- The size of a record whose members take `unpadded` bytes: a record without storage gets the
empty record's size, and the result is rounded up to the alignment. `none` where the bits of the
result do not fit in 64 bits; traps for an alignment of zero. -/
def recordSize? (p : Profile) (unpadded alignment : ByteCount) :
    Except Trap (Option ByteCount) := do
  let least := if unpadded.isZero then p.emptyRecordSize else unpadded
  let rounded ← least.roundUp? alignment
  return rounded.filter Quantity.fitsInBits

end Profile

end AbiLayout
