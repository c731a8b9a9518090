import AbiLayout.Layout.Resolve

/-!
# The layout of a union

All members of a union start at offset zero. Its size and its alignment are the largest that a
member asks for, the size rounded up to the alignment. A bit-field asks for its whole underlying
type, and for its alignment only if it is named.

Only the rounding shows up as padding: what a single member leaves free of the union's storage is
used by the others.

## Main definitions

* `UnionDraft`, `UnionDraft.place`, `UnionDraft.addFieldsFrom`, `UnionDraft.finish`.
* `LayoutContext.unionLayout`: the layout of a record as a union.
-/

namespace AbiLayout

/-- What is settled of the layout of a union. -/
structure UnionDraft where
  size : ByteCount := .zero
  alignment : ByteCount := .one
  dataSize : BitCount := .zero
  members : List PlacedMember := []
  hasFlexibleTail : Bool := false
deriving DecidableEq, Repr

namespace UnionDraft

/-- The draft without members. -/
def start : UnionDraft := ⟨.zero, .one, .zero, [], false⟩

/-- The draft with one more member, of `length` bits, that asks for a size and an alignment. -/
def push (d : UnionDraft) (i : Nat) (length : BitCount) (size alignment : ByteCount) :
    UnionDraft where
  size := max d.size size
  alignment := max d.alignment alignment
  dataSize := max d.dataSize length
  members := d.members ++ [⟨.field i, .zero, .bits length⟩]
  hasFlexibleTail := d.hasFlexibleTail

/-- Places the field at position `i`. -/
def place (d : UnionDraft) (i : Nat) (isNamed : Bool) : Placement → Except Trap UnionDraft
  | .zeroWidth _ => .ok d
  | .bitfield b => .ok (d.push i b.width b.underlying.size (b.askedAlignment isNamed))
  | .bytes layout => do
    let length ← layout.width.toBits
    let pushed := d.push i length layout.width layout.alignment
    return { pushed with
      hasFlexibleTail := d.hasFlexibleTail || layout.completeness == .flexibleTail }

/-- Adds fields from position `i` on. -/
def addFieldsFrom (c : LayoutContext) (record : Record) :
    (i : Nat) → List Field → UnionDraft → LayoutT UnionDraft
  | _, [], d => pure d
  | i, field :: fields, d => do
    let placement ← c.resolveField record i field
    let d ← d.place i field.isNamed placement
    addFieldsFrom c record (i + 1) fields d

/-- The padding between the largest member and the size. -/
def padding (d : UnionDraft) (size : ByteCount) : Except Trap (List BitRange) :=
  if d.size < size then do
    let offset ← d.size.toBits
    let rest ← size.sub d.size
    let length ← rest.toBits
    return [⟨offset, length⟩]
  else .ok []

/-- The layout of a draft. -/
def finish (c : LayoutContext) (record : Record) (d : UnionDraft) : LayoutT RecordLayout := do
  match ← c.profile.recordSize? d.size d.alignment with
  | none => throw (.pastRange record LayoutError.tailName)
  | some size => do
    let padding ← d.padding size
    return ⟨.union, size, d.alignment, d.dataSize, d.members, padding, d.hasFlexibleTail⟩

end UnionDraft

/-- The layout of a record as a union. Bases have no part in it. -/
def LayoutContext.unionLayout (c : LayoutContext) (record : Record) : LayoutT RecordLayout := do
  let d ← UnionDraft.addFieldsFrom c record 0 record.fields .start
  d.finish c record

end AbiLayout
