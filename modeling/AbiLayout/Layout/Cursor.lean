import AbiLayout.Profile

/-!
# The bit cursor

The cursor of a struct is the end of the last placed bit. Members of whole bytes are placed at the
next multiple of their alignment behind a byte boundary; bit-fields are packed as the policy of the
profile says.

Under the strict policy a run of bit-fields has an open storage unit. It belongs to one base type,
and closing it moves the cursor to its end. Under the Itanium policy no unit is ever open, and
closing only rounds the cursor up to a byte.

Each placement answers with the offset of the placed member, or with nothing once the cursor would
leave the 64-bit range. It also answers with the cursor behind it. A placement that fails half-way
keeps the steps that succeeded: the closed unit, or the unit just opened.

## Main definitions

* `StorageUnit`, `Cursor`, `Cursor.start`.
* `Cursor.endRun`: the end of a run of bit-fields.
* `Cursor.placeWhole`, `Cursor.placeBits`, `Cursor.breakRun`: the three kinds of field.
-/

namespace AbiLayout

/-- A storage unit that bit-fields over one base type are being placed in. -/
structure StorageUnit where
  underlying : Primitive
  start : BitCount
  stop : BitCount
deriving DecidableEq, Repr

/-- How far a struct is filled. -/
structure Cursor where
  policy : BitfieldPolicy
  /-- The end of the last placed bit. -/
  dataSize : BitCount := .zero
  openUnit : Option StorageUnit := none
deriving DecidableEq, Repr

namespace Cursor

/-- The cursor at the start of a struct. -/
def start (policy : BitfieldPolicy) : Cursor := ⟨policy, .zero, none⟩

/-- The cursor with its end moved. -/
def moveTo (c : Cursor) (dataSize : BitCount) : Cursor := { c with dataSize }

/-- The cursor behind the end of any run of bit-fields; `none` where it would leave the range. Traps
when the open unit starts past the cursor. -/
def endRun (c : Cursor) : Except Trap (Option Cursor) :=
  match c.policy with
  | .itanium => do
    let boundary ← c.dataSize.roundUp? (.of 8)
    return boundary.map c.moveTo
  | .strictUnits =>
    match c.openUnit with
    | none => .ok (some c)
    | some unit =>
      if c.dataSize < unit.start then .error .unitBehindCursor
      else .ok (some { c with dataSize := unit.stop, openUnit := none })

/-- Places `width` bits at `offset`. -/
def placeAt (c : Cursor) (offset width : BitCount) : Option BitCount × Cursor :=
  match offset.add? width with
  | none => (none, c)
  | some stop => (some offset, c.moveTo stop)

/-- Places `width` bits at the next multiple of `alignment`. -/
def placeAligned (c : Cursor) (alignment width : BitCount) :
    Except Trap (Option BitCount × Cursor) := do
  match ← c.dataSize.roundUp? alignment with
  | none => return (none, c)
  | some offset => return c.placeAt offset width

/-- Places a member of whole bytes: behind any run of bit-fields, at the next multiple of its
alignment. -/
def placeWhole (c : Cursor) (alignment width : BitCount) :
    Except Trap (Option BitCount × Cursor) := do
  match ← c.endRun with
  | none => return (none, c)
  | some closed => closed.placeAligned alignment width

/-- Places a bit-field at the cursor, or at the next aligned unit of its type if it would otherwise
reach past the end of one. -/
def placeShared (c : Cursor) (alignment unit width : BitCount) :
    Except Trap (Option BitCount × Cursor) := do
  let used ← c.dataSize.rem alignment
  let reach ← used.add width
  if unit < reach then c.placeAligned alignment width
  else return c.placeAt c.dataSize width

/-- Whether a bit-field over `underlying` fits into the open unit; `none` where the cursor would
leave the range. -/
def fitsOpenUnit? (c : Cursor) (underlying : Primitive) (width : BitCount) : Option Bool :=
  match c.openUnit with
  | none => some false
  | some unit =>
    if unit.underlying = underlying then
      (c.dataSize.add? width).map fun stop => decide (stop ≤ unit.stop)
    else some false

/-- Closes any open unit, opens the next aligned unit of `underlying` and places a bit-field at its
start. -/
def placeInFreshUnit (c : Cursor) (underlying : Primitive) (alignment unit width : BitCount) :
    Except Trap (Option BitCount × Cursor) := do
  match ← c.endRun with
  | none => return (none, c)
  | some closed =>
    match ← closed.dataSize.roundUp? alignment with
    | none => return (none, closed)
    | some offset =>
      match offset.add? unit with
      | none => return (none, closed)
      | some stop =>
        let opened := { closed with openUnit := some ⟨underlying, offset, stop⟩ }
        return opened.placeAt offset width

/-- Places a bit-field of `width` bits over `underlying`, as the policy says. -/
def placeBits (c : Cursor) (underlying : Primitive) (width : BitCount) :
    Except Trap (Option BitCount × Cursor) := do
  let unit ← underlying.bits
  let alignment ← underlying.alignment.toBits
  match c.policy with
  | .itanium => c.placeShared alignment unit width
  | .strictUnits =>
    match c.fitsOpenUnit? underlying width with
    | none => return (none, c)
    | some true => return c.placeAt c.dataSize width
    | some false => c.placeInFreshUnit underlying alignment unit width

/-- The cursor behind a zero-width bit-field over `underlying`, where the next bit-field starts a
unit of its own; `none` where it would leave the range. -/
def breakRun (c : Cursor) (underlying : Primitive) : Except Trap (Option Cursor) :=
  match c.policy with
  | .itanium => do
    let alignment ← underlying.alignment.toBits
    let boundary ← c.dataSize.roundUp? alignment
    return boundary.map c.moveTo
  | .strictUnits => c.endRun

end Cursor

end AbiLayout
