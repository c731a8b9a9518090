import AbiLayout.Layout.Program

/-!
# Resolving types and fields

Before a member is placed, its type is resolved to a type layout. The schema knows the size of a
type without records; for any other type the records in it are asked for. A field is then
classified: as a bit-field that is well declared, as a bit-field without bits, or as a member of
whole bytes that may stand where it does.

The order of the checks is part of the rules, because the first failure is the one reported.

## Main definitions

* `LayoutContext.typeLayout`: the layout of a type.
* `LayoutContext.resolveMember`: the layout of a member's type, with errors told from the point of
  view of the record.
* `Placement`, `LayoutContext.resolveField`: what is to be placed for a field.
-/

namespace AbiLayout

namespace LayoutError

/-- The error of a member that would end past the largest offset. -/
def pastRange (record : Record) (member : String) : LayoutError :=
  .recordTooLarge record.label member

/-- How errors call a base. -/
def baseName (name : String) : String := s!"<base {name}>"

/-- How errors call the padding at the end of a record. -/
def tailName : String := "<tail padding>"

end LayoutError

namespace LayoutContext

/-! ### Types -/

/-- The array of `count` elements of a given layout, if it is not too large. An array of unknown
length has no size, nor has one whose elements are not complete. -/
def arrayLayout? (element : TypeLayout) : (count : Option Nat) → Option TypeLayout
  | none => some (.incomplete element.alignment)
  | some count =>
    if element.isComplete then
      (Schema.arraySize? element.width count).map fun width =>
        ⟨width, element.alignment, .complete⟩
    else some (.incomplete element.alignment)

/-- The error of a type that is too large. -/
def typeTooLarge {α : Type} (c : LayoutContext) (ty : Ty) : LayoutT α := do
  let name ← c.schema.typeName ty
  throw (.typeTooLarge name)

/-- The layout of a type. What the schema knows is taken from it; otherwise a record has that of its
record layout, and an array that of its elements, repeated. -/
def typeLayout (c : LayoutContext) (ty : Ty) : LayoutT TypeLayout :=
  match c.schema.staticSize ty with
  | .known size alignment => pure ⟨size, alignment, .complete⟩
  | .tooLarge => c.typeTooLarge ty
  | _ =>
    match ty with
    | .record r => RecordLayout.typeLayout <$> LayoutT.layoutOf r
    | .array element count => do
      let layout ← typeLayout c element
      match arrayLayout? layout count with
      | some array => return array
      | none => c.typeTooLarge (.array element count)
    | _ => LayoutT.trap .unsizedScalar

/-! ### Members -/

/-- The error of a record that depends on a type without a layout. -/
def blameDependency {α : Type} (c : LayoutContext) (record : Record) (ty : Ty)
    (cause : LayoutError) : LayoutT α := do
  let name ← c.schema.typeName ty
  throw (.failedDependency record.label name cause)

/-- The layout of the type of a member. A type that is itself too large is the fault of the record;
any other error is that of a record it depends on. -/
def resolveMember (c : LayoutContext) (record : Record) (member : String) (ty : Ty) :
    LayoutT TypeLayout :=
  tryCatch (c.typeLayout ty) fun cause =>
    match cause with
    | .typeTooLarge _ => throw (.pastRange record member)
    | cause => c.blameDependency record ty cause

/-- The elements of an array are complete, at every depth; a type that is no array has none. -/
def requireSizedElements (c : LayoutContext) (record : Record) (member : String) : Ty → LayoutT Unit
  | .array element _ => do
    let layout ← c.resolveMember record member element
    if layout.isTrailingOnly then throw (.incompleteElement record.label member)
    else requireSizedElements c record member element
  | _ => pure ()

end LayoutContext

/-! ### Fields -/

/-- What is to be placed for a field. -/
inductive Placement where
  /-- A bit-field without bits. -/
  | zeroWidth (underlying : Primitive)
  | bitfield (b : Bitfield)
  /-- A member of whole bytes. -/
  | bytes (layout : TypeLayout)
deriving DecidableEq, Repr

namespace LayoutContext

/-- What is to be placed for a bit-field. It is declared over an integer type; one marked as the
form without bits has no bits, one without bits has no name, and any other is no wider than its
type. -/
def resolveBitfield (record : Record) (i : Nat) (field : Field) (b : Bitfield) :
    LayoutT Placement :=
  let name := record.label
  let member := field.label i
  if !b.underlying.isInteger then throw (.nonIntegerBitfield name member b.underlying.name)
  else if b.endsUnit && !b.width.isZero then
    throw (.misdeclaredZeroWidthBitfield name member b.width)
  else if b.width.isZero then
    if field.isNamed then throw (.namedZeroWidthBitfield name member)
    else pure (.zeroWidth b.underlying)
  else do
    let max ← b.underlying.bits
    if max < b.width then throw (.bitfieldTooWide name member b.underlying.name b.width max)
    else return .bitfield b

/-- Whether a member of whole bytes may stand at position `i`. A union takes no array of unknown
length; in a struct, what has no complete type comes last. -/
def checkPosition (record : Record) (i : Nat) (member : String) (layout : TypeLayout) :
    Except LayoutError Unit :=
  if record.isUnion then
    if layout.completeness = .incomplete then
      .error (.flexibleArrayInUnion record.label member)
    else .ok ()
  else if layout.isTrailingOnly && !record.isLastField i then
    .error (.incompleteNotTrailing record.label member)
  else .ok ()

/-- What is to be placed for the field at position `i` of a record. -/
def resolveField (c : LayoutContext) (record : Record) (i : Nat) (field : Field) :
    LayoutT Placement :=
  match field.ty with
  | .bitfield b => resolveBitfield record i field b
  | ty => do
    let member := field.label i
    c.requireSizedElements record member ty
    let layout ← c.resolveMember record member ty
    match checkPosition record i member layout with
    | .error e => throw e
    | .ok () => return .bytes layout

end LayoutContext

end AbiLayout
