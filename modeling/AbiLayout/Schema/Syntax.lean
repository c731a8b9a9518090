import AbiLayout.Arena
import AbiLayout.Primitive

/-!
# Types and records as they are declared

A type is built from base types by pointers, arrays and bit-fields, and refers to records by their
ids. A record is a struct or a union with bases and fields, in declaration order. Nothing here is
checked: which of these values describe a program is decided when a set of declarations is closed.

## Main definitions

* `RecordId`: the name of a record within a set of declarations, a key of arenas.
* `Bitfield`, `Ty`: types. An array without a count has unknown length; a bit-field of width zero
  that is marked as such ends a storage unit.
* `Ty.containedRecord?`: the record that a value of a type holds by value.
* `RecordKind`, `Base`, `Field`, `Record`, with the names that messages use.
-/

namespace AbiLayout

/-- The position of a record among the declared records. -/
structure RecordId where
  index : Nat
  index_lt : index < 0x1_0000_0000
deriving DecidableEq

namespace RecordId

/-- The position `i`, for an `i` that a comparison of literals shows to be in range. -/
def of (i : Nat) (h : i.blt 0x1_0000_0000 = true := by exact @rfl Bool true) : RecordId :=
  ⟨i, Nat.le_of_ble_eq_true h⟩

instance : ArenaKey RecordId where
  maxIndex := 0xFFFF_FFFF
  index := index
  index_le r := Nat.le_sub_one_of_lt r.index_lt
  ofIndex i h := ⟨i, Nat.lt_of_le_of_lt h (by decide)⟩
  index_ofIndex _ _ := rfl
  ofIndex_index _ := rfl
  text r := s!"RecordId({r.index})"

instance : ToString RecordId := ⟨ArenaKey.text⟩

instance : Repr RecordId := ⟨fun r _ => ArenaKey.text r⟩

end RecordId

/-! ### Types -/

/-- A field of single bits, declared over a base type. -/
structure Bitfield where
  underlying : Primitive
  width : BitCount
  /-- Whether this is the unnamed form without bits, which ends the current storage unit. -/
  endsUnit : Bool
deriving DecidableEq, Repr

namespace Bitfield

/-- A bit-field of `width` bits. -/
def ofWidth (underlying : Primitive) (width : BitCount) : Bitfield := ⟨underlying, width, false⟩

/-- The bit-field without bits that ends the current storage unit. -/
def unitBreak (underlying : Primitive) : Bitfield := ⟨underlying, .zero, true⟩

/-- The alignment that a bit-field asks of its record: that of its type if the bit-field is named,
and one byte otherwise. -/
def askedAlignment (b : Bitfield) (isNamed : Bool) : ByteCount :=
  if isNamed then b.underlying.alignment else .one

end Bitfield

/-- The type of a member. -/
inductive Ty where
  | primitive (p : Primitive)
  | voidPointer
  | pointerTo (pointee : Ty)
  /-- An array; without a count its length is unknown. -/
  | array (element : Ty) (count : Option Nat)
  | bitfield (b : Bitfield)
  | record (r : RecordId)
deriving DecidableEq, Repr

namespace Ty

/-- The record that a type names, if it is a record type. -/
def asRecord? : Ty → Option RecordId
  | record r => some r
  | _ => none

/-- The record that a value of the type holds: the record itself, or that of the elements of an
array. A pointer holds none. -/
def containedRecord? : Ty → Option RecordId
  | record r => some r
  | array element _ => element.containedRecord?
  | _ => none

end Ty

/-! ### Records -/

/-- Whether the members of a record follow each other or share their storage. -/
inductive RecordKind where
  | struct
  | union
deriving DecidableEq, Repr

/-- The keyword of a kind of record. -/
def RecordKind.text : RecordKind → String
  | struct => "struct"
  | union => "union"

instance : ToString RecordKind := ⟨RecordKind.text⟩

/-- A base of a record. -/
structure Base where
  record : RecordId
  isVirtual : Bool := false
deriving DecidableEq, Repr

/-- A field of a record. -/
structure Field where
  name : Option String
  ty : Ty
  /-- Whether the field is an anonymous record, whose members belong to the enclosing record. -/
  isAnonymous : Bool := false
deriving DecidableEq, Repr

namespace Field

/-- The name of the field at position `i`, or `#i` for an unnamed one. -/
def label (f : Field) (i : Nat) : String := f.name.getD s!"#{i}"

/-- Whether the field has a name. -/
def isNamed (f : Field) : Bool := f.name.isSome

end Field

/-- A struct or a union with its members. -/
structure Record where
  name : Option String
  kind : RecordKind
  bases : List Base
  fields : List Field
deriving DecidableEq, Repr

/-- How messages call a record of an optional name. -/
def labelOf (name : Option String) : String := name.getD "<anon>"

namespace Record

/-- The record's name, or `<anon>` for one without. -/
def label (r : Record) : String := labelOf r.name

/-- Whether the record is a union. -/
def isUnion (r : Record) : Bool := r.kind == .union

/-- Whether position `i` is that of the last field. -/
def isLastField (r : Record) (i : Nat) : Bool := i + 1 == r.fields.length

/-- The records held by value, bases first, each as often as it occurs. -/
def contained (r : Record) : List RecordId :=
  r.bases.map Base.record ++ r.fields.filterMap fun f => f.ty.containedRecord?

end Record

end AbiLayout
