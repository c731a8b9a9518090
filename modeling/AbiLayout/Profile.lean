import AbiLayout.Primitive

/-!
# Profiles of an ABI

A `Profile` holds what a target machine fixes: its base types, the size and alignment of pointers,
how bit-fields are packed, whether a record may have several non-empty bases, and the size of a
record without storage. The layout rules take every scalar size from the profile.

A base type enters a profile through `Profile.addBaseType`, which refuses what describes no machine:
an alignment that is not a power of two, a size whose bits do not fit in 64 bits, a size that is not
a multiple of the alignment, in that order. A base type of a known name replaces the earlier one and
keeps its place in the table.

## Main definitions

* `BitfieldPolicy`: how consecutive bit-fields are packed.
* `ProfileError`, `ProfileError.message`: why a table is refused.
* `Profile`, `Profile.addBaseType`, `Profile.ofTable`, `Profile.lp64`.
* `Profile.baseType?`: the base type of a name.
-/

namespace AbiLayout

/-- How consecutive bit-fields are packed into storage. -/
inductive BitfieldPolicy where
  /-- A bit-field starts at the cursor, unless it would cross the boundary of an aligned unit of its
  own type. What follows may use the rest of the unit. -/
  | itanium
  /-- A run of bit-fields owns whole storage units. A change of type, a bit-field that does not fit,
  a zero-width bit-field and any other member close the unit, and go on behind it. -/
  | strictUnits
deriving DecidableEq, Repr, Inhabited

/-- Why a table of base types is refused. -/
inductive ProfileError where
  | baseTypeAlignment (name : String) (alignment : ByteCount)
  | baseTypeSize (name : String) (size alignment : ByteCount)
  | baseTypeTooLarge (name : String) (size : ByteCount)
  | pointerSize (profile : String) (size : ByteCount)
deriving DecidableEq, Repr

/-- What a refused table reports. -/
def ProfileError.message : ProfileError → String
  | baseTypeAlignment name alignment =>
    s!"Alignment of base type `{name}` is {alignment}, which is not a power of two"
  | baseTypeSize name size alignment =>
    s!"Size of base type `{name}` is {size}, which is not a multiple of its alignment {alignment}"
  | baseTypeTooLarge name size =>
    s!"Size of base type `{name}` is {size}, which does not fit in a 64-bit count of bits"
  | pointerSize profile size =>
    s!"Pointer size of profile `{profile}` is {size}, " ++
      "which is not a power of two that fits in 64 bits"

/-- The conventions of one target machine. -/
structure Profile where
  name : String
  /-- The base types in table order, one for each name. -/
  baseTypes : List Primitive
  pointerSize : ByteCount
  pointerAlignment : ByteCount
  bitfieldPolicy : BitfieldPolicy
  /-- Whether a record may have more than one base that is not empty. -/
  allowsMultipleInheritance : Bool
  /-- The size, before rounding, of a record without storage. -/
  emptyRecordSize : ByteCount
deriving DecidableEq, Repr

namespace Profile

/-- The profile without base types: pointers aligned to their size, shared bit-field units, single
inheritance, and one byte for an empty record. -/
def bare (name : String) (pointerSize : ByteCount) : Profile where
  name := name
  baseTypes := []
  pointerSize := pointerSize
  pointerAlignment := pointerSize
  bitfieldPolicy := .itanium
  allowsMultipleInheritance := false
  emptyRecordSize := .one

/-- The base type of a name. -/
def baseType? (p : Profile) (name : String) : Option Primitive :=
  p.baseTypes.find? fun b => b.name == name

/-- The table with a base type in the place of the one with its name, or else at the end. -/
def insertBaseType (b : Primitive) : List Primitive → List Primitive
  | [] => [b]
  | c :: cs => if c.name = b.name then b :: cs else c :: insertBaseType b cs

/-- The profile with one more base type, if the base type is usable: its alignment is a power of
two, its bits fit in 64 bits, and its size is a multiple of its alignment. -/
def addBaseType (p : Profile) (b : Primitive) : Except ProfileError Profile :=
  if !b.alignment.isPowerOfTwo then .error (.baseTypeAlignment b.name b.alignment)
  else if !b.size.fitsInBits then .error (.baseTypeTooLarge b.name b.size)
  else if b.size.count % b.alignment.count ≠ 0 then
    .error (.baseTypeSize b.name b.size b.alignment)
  else .ok { p with baseTypes := insertBaseType b p.baseTypes }

/-- The profile of a table of base types, later rows replacing earlier ones of the same name. The
pointer size has to be a power of two whose bits fit in 64 bits; rows are checked in order. -/
def ofTable (name : String) (pointerSize : ByteCount) (rows : List Primitive) :
    Except ProfileError Profile :=
  if !pointerSize.isPowerOfTwo || !pointerSize.fitsInBits then
    .error (.pointerSize name pointerSize)
  else rows.foldlM addBaseType (bare name pointerSize)

/-- The name, the pointer size and the number of base types. -/
def text (p : Profile) : String :=
  s!"{p.name} ({p.pointerSize}-byte pointers, {p.baseTypes.length} base types)"

instance : ToString Profile := ⟨text⟩

/-! ### The LP64 data model -/

/-- The base types of the LP64 data model, under the names that debug information uses. -/
def lp64BaseTypes : List Primitive :=
  [⟨"bool", .of 1, .of 1, .boolean⟩,
   ⟨"char", .of 1, .of 1, .signedChar⟩,
   ⟨"signed char", .of 1, .of 1, .signedChar⟩,
   ⟨"unsigned char", .of 1, .of 1, .unsignedChar⟩,
   ⟨"short int", .of 2, .of 2, .signed⟩,
   ⟨"short unsigned int", .of 2, .of 2, .unsigned⟩,
   ⟨"int", .of 4, .of 4, .signed⟩,
   ⟨"unsigned int", .of 4, .of 4, .unsigned⟩,
   ⟨"long int", .of 8, .of 8, .signed⟩,
   ⟨"long unsigned int", .of 8, .of 8, .unsigned⟩,
   ⟨"long long int", .of 8, .of 8, .signed⟩,
   ⟨"long long unsigned int", .of 8, .of 8, .unsigned⟩,
   ⟨"sizetype", .of 8, .of 8, .unsigned⟩,
   ⟨"float", .of 4, .of 4, .float⟩,
   ⟨"double", .of 8, .of 8, .float⟩]

/-- The LP64 profile: pointers of eight bytes and `lp64BaseTypes`. -/
def lp64 : Profile :=
  { bare "lp64" (.of 8) with
    baseTypes := lp64BaseTypes.foldl (fun table b => insertBaseType b table) [] }

instance : Inhabited Profile := ⟨lp64⟩

end Profile

end AbiLayout
