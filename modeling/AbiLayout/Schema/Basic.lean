import AbiLayout.Schema.Containment

/-!
# Schemas

A schema is a closed set of records, with the size and the alignment of the pointers between them.
It knows the size of every type that holds no record: base types and pointers have theirs, an array
multiplies its element's by its count. The size of anything else waits for a record layout.

## Main definitions

* `Schema`, `Schema.record`.
* `StaticSize`, `Schema.staticSize`: what is known of a type without laying out a record.
* `Schema.typeName`: a type in words.
-/

namespace AbiLayout

/-- A closed set of records. -/
structure Schema where
  records : Arena RecordId Record
  pointerSize : ByteCount
  pointerAlignment : ByteCount

/-- What is known of the size of a type without laying out a record. -/
inductive StaticSize where
  | known (size alignment : ByteCount)
  /-- The type holds a record. -/
  | recordDependent
  /-- The type is an array of unknown length, or an array of such. -/
  | incomplete
  /-- The type is an array whose bits do not fit in 64 bits. -/
  | tooLarge
deriving DecidableEq, Repr

namespace Schema

/-- The record of an id; traps when the schema has no such record. -/
def record (s : Schema) (r : RecordId) : Except Trap Record := s.records.get r

/-- The size of `count` elements of `size` bytes, if its bits fit in 64 bits. -/
def arraySize? (size : ByteCount) (count : Nat) : Option ByteCount :=
  (size.scale? count).filter Quantity.fitsInBits

/-- What the schema alone knows of the size of a type. A bit-field counts as its underlying type. -/
def staticSize (s : Schema) : Ty → StaticSize
  | .primitive p => .known p.size p.alignment
  | .bitfield b => .known b.underlying.size b.underlying.alignment
  | .voidPointer | .pointerTo _ => .known s.pointerSize s.pointerAlignment
  | .record _ => .recordDependent
  | .array _ none => .incomplete
  | .array element (some count) =>
    match s.staticSize element with
    | .known size alignment =>
      match arraySize? size count with
      | some size => .known size alignment
      | none => .tooLarge
    | other => other

/-- A type in words: `* T` for a pointer, `[T; n]` or `[T]` for an array, the keyword and the name
for a record, the name of the underlying type for a bit-field. Traps on a record that the schema
does not have. -/
def typeName (s : Schema) : Ty → Except Trap String
  | .primitive p => .ok p.name
  | .bitfield b => .ok b.underlying.name
  | .voidPointer => .ok "* void"
  | .pointerTo pointee => do
    let name ← s.typeName pointee
    return s!"* {name}"
  | .array element (some count) => do
    let name ← s.typeName element
    return s!"[{name}; {count}]"
  | .array element none => do
    let name ← s.typeName element
    return s!"[{name}]"
  | .record r => do
    let record ← s.record r
    return s!"{record.kind} {record.label}"

end Schema

end AbiLayout
