import AbiLayout.Layout.Check
import AbiLayout.Layout.Cursor
import AbiLayout.Layout.Resolve

/-!
# The layout of a struct

Members are placed one after the other: first the bases, then the fields, in declaration order. The
draft of a struct holds what is settled so far. All bases are resolved before the first is placed; a
field is resolved and placed before the next field is looked at.

Each step on a draft returns the draft behind it also where the step fails, so that the state in
which a layout stopped can be seen.

Padding in front of a field is reported when the field is placed, padding at the end of the record
when the draft is finished.

## Main definitions

* `StructDraft`, `StructDraft.start`; `PlaceStep` and `Drafted`, the outcomes of its steps.
* `StructDraft.placeBase`, `StructDraft.place`: placing one member.
* `StructDraft.addBases`, `StructDraft.addFields`, `StructDraft.addMembers`.
* `StructDraft.finish`: the layout of a draft.
* `LayoutContext.structLayout`: the layout of a record as a struct.
-/

namespace AbiLayout

/-- What is settled of the layout of a struct. -/
structure StructDraft where
  cursor : Cursor
  alignment : ByteCount := .one
  /-- The members placed so far, in order. -/
  members : List PlacedMember := []
  hasFlexibleTail : Bool := false
deriving DecidableEq, Repr

/-- The outcome of placing a member. -/
inductive PlaceStep where
  /-- The member would end past the largest offset. -/
  | tooLarge
  /-- The member takes no place. -/
  | skipped
  /-- The member starts at an offset. -/
  | placedAt (offset : BitCount)
deriving DecidableEq, Repr

/-- The outcome of adding members to a draft, and the draft behind it. -/
abbrev Drafted := Except LayoutError Unit × StructDraft

namespace StructDraft

/-- The draft without members. -/
def start (policy : BitfieldPolicy) : StructDraft := ⟨.start policy, .one, [], false⟩

/-- The alignment of a record with one more member that asks for an alignment; traps where the
record would take one that is not a power of two. -/
def raiseAlignment (alignment asked : ByteCount) : Except Trap ByteCount :=
  if alignment < asked then
    if asked.isPowerOfTwo then .ok asked else .error .unevenAlignment
  else .ok alignment

/-! ### Placing one member -/

/-- The draft behind the placement of a member, which asks for an alignment, and says whether the
record now has a flexible tail. A placement that fails only moves the cursor. -/
def settle (d : StructDraft) (member : Member) (extent : Extent) (asked : ByteCount) (tail : Bool) :
    Option BitCount × Cursor → Except Trap (PlaceStep × StructDraft)
  | (none, cursor) => .ok (.tooLarge, { d with cursor })
  | (some offset, cursor) => do
    let alignment ← raiseAlignment d.alignment asked
    return (.placedAt offset, ⟨cursor, alignment, d.members ++ [⟨member, offset, extent⟩], tail⟩)

/-- Places a base. A base keeps the padding at its end to itself. -/
def placeBase (d : StructDraft) (i : Nat) (layout : RecordLayout) :
    Except Trap (PlaceStep × StructDraft) := do
  let alignment ← layout.alignment.toBits
  let size ← layout.size.toBits
  let placed ← d.cursor.placeWhole alignment size
  d.settle (.base i) (.bits size) layout.alignment layout.hasFlexibleTail placed

/-- Ends the storage unit of the bit-fields placed so far. -/
def placeBreak (d : StructDraft) (underlying : Primitive) :
    Except Trap (PlaceStep × StructDraft) := do
  match ← d.cursor.breakRun underlying with
  | none => return (.tooLarge, d)
  | some cursor => return (.skipped, { d with cursor })

/-- Places a bit-field. -/
def placeBits (d : StructDraft) (i : Nat) (isNamed : Bool) (b : Bitfield) :
    Except Trap (PlaceStep × StructDraft) := do
  let placed ← d.cursor.placeBits b.underlying b.width
  d.settle (.field i) (.bits b.width) (b.askedAlignment isNamed) d.hasFlexibleTail placed

/-- Places a member of whole bytes. A flexible array takes no bits. -/
def placeWhole (d : StructDraft) (i : Nat) (layout : TypeLayout) :
    Except Trap (PlaceStep × StructDraft) := do
  let isFlexibleArray := layout.completeness == .incomplete
  let width := if isFlexibleArray then .zero else layout.width
  let alignment ← layout.alignment.toBits
  let size ← width.toBits
  let placed ← d.cursor.placeWhole alignment size
  d.settle (.field i) (if isFlexibleArray then .unbounded else .bits size) layout.alignment
    (d.hasFlexibleTail || layout.isTrailingOnly) placed

/-- Places the field at position `i`. -/
def place (d : StructDraft) (i : Nat) (isNamed : Bool) :
    Placement → Except Trap (PlaceStep × StructDraft)
  | .zeroWidth underlying => d.placeBreak underlying
  | .bitfield b => d.placeBits i isNamed b
  | .bytes layout => d.placeWhole i layout

/-! ### Bases -/

/-- A base with its layout, under the name of its record. -/
structure ResolvedBase where
  name : String
  layout : RecordLayout
deriving DecidableEq, Repr

/-- The layouts of bases, in order. A virtual base has none. A base with a flexible tail stands
last, and in a record without fields. -/
def resolveBases (c : LayoutContext) (record : Record) : List Base → LayoutT (List ResolvedBase)
  | [] => pure []
  | base :: bases => do
    let baseRecord ← c.schema.record base.record
    let name := baseRecord.label
    if base.isVirtual then throw (.virtualBase record.label name)
    else do
      let layout ← tryCatch (LayoutT.layoutOf base.record)
        (c.blameDependency record (.record base.record))
      if layout.hasFlexibleTail && !(bases.isEmpty && record.fields.isEmpty) then
        throw (.incompleteNotTrailing record.label (LayoutError.baseName name))
      else do
        let later ← resolveBases c record bases
        return ⟨name, layout⟩ :: later

/-- Places bases from position `i` on. -/
def placeBases (record : Record) :
    (i : Nat) → List ResolvedBase → StructDraft → Except Trap Drafted
  | _, [], d => .ok (.ok (), d)
  | i, base :: bases, d => do
    match ← d.placeBase i base.layout with
    | (.tooLarge, d) => return (.error (.pastRange record (LayoutError.baseName base.name)), d)
    | (_, d) => placeBases record (i + 1) bases d

/-- The number of bases with storage of their own. -/
def nonEmptyBases (bases : List ResolvedBase) : Nat := bases.countP fun base => !base.layout.isEmpty

/-- Adds all bases of a record. Unless the profile allows more, at most one of them has storage. -/
def addBases (c : LayoutContext) (record : Record) (d : StructDraft) :
    LayoutM Drafted := do
  match ← (resolveBases c record record.bases).run with
  | .error e => return (.error e, d)
  | .ok bases =>
    let count := nonEmptyBases bases
    if 1 < count && !c.profile.allowsMultipleInheritance then
      return (.error (.multipleInheritance record.label count c.profile.name), d)
    else placeBases record 0 bases d

/-! ### Fields -/

/-- The warning about padding in front of a field. -/
def paddedMember (record : Record) (i : Nat) (field : Field) (placement : Placement) :
    Diagnostic :=
  let (topic, word) := match placement with
    | .bitfield _ => (Topic.paddedBitfield, "bitfield")
    | _ => (Topic.paddedField, "field")
  ⟨.warning, topic, s!"Padded {word} of '{record.label}' at index {i}",
    ⟨record.label, some (field.label i)⟩⟩

/-- Adds the field at position `i`. Padding in front of it is reported. -/
def addField (c : LayoutContext) (record : Record) (i : Nat) (field : Field) (d : StructDraft) :
    LayoutM Drafted := do
  match ← (c.resolveField record i field).run with
  | .error e => return (.error e, d)
  | .ok placement =>
    match ← d.place i field.isNamed placement with
    | (.tooLarge, after) => return (.error (.pastRange record (field.label i)), after)
    | (.skipped, after) => return (.ok (), after)
    | (.placedAt offset, after) => do
      if d.cursor.dataSize < offset then
        LayoutM.notify (paddedMember record i field placement)
      return (.ok (), after)

/-- Adds fields from position `i` on. -/
def addFieldsFrom (c : LayoutContext) (record : Record) :
    (i : Nat) → List Field → StructDraft → LayoutM Drafted
  | _, [], d => return (.ok (), d)
  | i, field :: fields, d => do
    match ← addField c record i field d with
    | (.error e, d) => return (.error e, d)
    | (.ok (), d) => addFieldsFrom c record (i + 1) fields d

/-- Adds all fields of a record. -/
def addFields (c : LayoutContext) (record : Record) (d : StructDraft) :
    LayoutM Drafted :=
  addFieldsFrom c record 0 record.fields d

/-- Adds all members of a record. -/
def addMembers (c : LayoutContext) (record : Record) (d : StructDraft) :
    LayoutM Drafted := do
  match ← addBases c record d with
  | (.error e, d) => return (.error e, d)
  | (.ok (), d) => addFields c record d

/-! ### The finished layout -/

/-- The warning about padding at the end of a record. -/
def paddedRecord (record : Record) (padding : BitCount) : Diagnostic :=
  ⟨.warning, .paddedRecord,
    s!"Padded type '{record.label}', with {padding.count} bits to alignment boundary",
    ⟨record.label, none⟩⟩

/-- The layout of a draft. Its size covers the closed cursor, in whole bytes, and is rounded up to
the alignment. Padding behind the last bit is reported. -/
def finish (c : LayoutContext) (record : Record) (d : StructDraft) : LayoutT RecordLayout := do
  match ← d.cursor.endRun with
  | none => throw (.pastRange record LayoutError.tailName)
  | some closed =>
    match ← c.profile.recordSize? closed.dataSize.coveringBytes d.alignment with
    | none => throw (.pastRange record LayoutError.tailName)
    | some size => do
      let sizeBits ← size.toBits
      let dataSize := d.cursor.dataSize
      if dataSize < sizeBits then do
        let padding ← sizeBits.sub dataSize
        ExceptT.lift (LayoutM.notify (paddedRecord record padding))
      let padding ← gapsBetween d.members sizeBits
      return ⟨.struct, size, d.alignment, dataSize, d.members, padding, d.hasFlexibleTail⟩

end StructDraft

/-- The layout of a record as a struct. -/
def LayoutContext.structLayout (c : LayoutContext) (record : Record) : LayoutT RecordLayout :=
  ExceptT.mk do
    match ← StructDraft.addMembers c record (.start c.profile.bitfieldPolicy) with
    | (.error e, _) => return .error e
    | (.ok (), d) => (d.finish c record).run

end AbiLayout
