import AbiLayout.Layout.Basic

/-!
# Padding and the check of a layout

In a struct, padding is what the members leave free: the gaps between them, and the rest up to the
size. `RecordLayout.flaw?` looks the other way round: given any layout, it finds the first rule that
the layout breaks, without computing the layout again.

## Main definitions

* `gapsBetween`: the gaps that the members of a struct leave.
* `LayoutFlaw`, `LayoutFlaw.message`: the rules, as they are broken.
* `RecordLayout.flaw?`: the first broken rule.
-/

namespace AbiLayout

/-! ### Gaps -/

/-- The bits from `start` up to `stop` as a padding region, if there are any. -/
def gap (start stop : BitCount) : List BitRange :=
  if start < stop then
    [⟨start, ⟨stop.count - start.count, Nat.lt_of_le_of_lt (Nat.sub_le _ _) stop.count_lt⟩⟩]
  else []

/-- The gaps behind `reached`, up to `size`. -/
def gapsFrom (size : BitCount) : (reached : BitCount) → List PlacedMember →
    Except Trap (List BitRange)
  | reached, [] => .ok (gap reached size)
  | reached, m :: ms => do
    let stop ← m.stop
    let later ← gapsFrom size (max reached stop) ms
    return gap reached m.offset ++ later

/-- The gaps that the members of a struct leave, up to its size in bits. The members are in the
order of their offsets and do not overlap. -/
def gapsBetween (members : List PlacedMember) (size : BitCount) :
    Except Trap (List BitRange) :=
  gapsFrom size .zero members

/-! ### Flaws -/

/-- A rule of layouts, as it is broken. -/
inductive LayoutFlaw where
  | unevenAlignment (alignment : ByteCount)
  | ragged (size alignment : ByteCount)
  | paddingPastSize (region : BitRange) (size : ByteCount)
  | shiftedUnionMember (member : Member)
  | overlap (member : Member) (offset : BitCount)
  | untiled (members padding : BitCount) (size : ByteCount)
deriving DecidableEq, Repr

/-- What a flaw reports. -/
def LayoutFlaw.message : LayoutFlaw → String
  | unevenAlignment alignment => s!"alignment {alignment} is not a power of two"
  | ragged size alignment => s!"size {size} is not a multiple of alignment {alignment}"
  | paddingPastSize region size =>
    s!"padding {region.offset}[{region.length}] extends past size {size}"
  | shiftedUnionMember member => s!"union member {member} is not at offset zero"
  | overlap member offset => s!"member {member} at {offset} overlaps the previous member"
  | untiled members padding size =>
    s!"members ({members.count} bits) and padding ({padding.count} bits) do not tile {size} bytes"

/-- The first padding region that reaches past a size in bits. -/
def regionPast? (size : BitCount) : List BitRange → Except Trap (Option BitRange)
  | [] => .ok none
  | p :: ps => do
    let stop ← p.stop
    if size < stop then return some p else regionPast? size ps

/-- The first member that starts before the end of the one in front of it. -/
def overlapFrom? : (reached : BitCount) → List PlacedMember → Except Trap (Option PlacedMember)
  | _, [] => .ok none
  | reached, m :: ms =>
    if m.offset < reached then .ok (some m)
    else do
      let stop ← m.stop
      overlapFrom? stop ms

namespace RecordLayout

/-- The first rule about members that a struct breaks: they follow each other, and their bits and
the padding bits add up to the size. -/
def structFlaw? (l : RecordLayout) (size : BitCount) : Except Trap (Option LayoutFlaw) := do
  match ← overlapFrom? .zero l.members with
  | some m => return some (.overlap m.member m.offset)
  | none =>
    let members ← Quantity.sum (l.members.map fun m => m.extent.counted)
    let padding ← l.paddingBits
    let total ← members.add padding
    if total = size then return none
    else return some (.untiled members padding l.size)

/-- The first rule about members that a union breaks: they all start at zero. -/
def unionFlaw? (l : RecordLayout) : Option LayoutFlaw :=
  (l.members.find? fun m => !m.offset.isZero).map fun m => .shiftedUnionMember m.member

/-- The first rule that a layout breaks. The alignment is a power of two and divides the size, no
padding reaches past the size, and the members are in order. Traps where the sums that the rules
speak of leave the range. -/
def flaw? (l : RecordLayout) : Except Trap (Option LayoutFlaw) :=
  if !l.alignment.isPowerOfTwo then .ok (some (.unevenAlignment l.alignment))
  else do
    let rest ← l.size.rem l.alignment
    if rest.isZero then do
      let size ← l.size.toBits
      match ← regionPast? size l.padding with
      | some region => return some (.paddingPastSize region l.size)
      | none =>
        match l.kind with
        | .union => return l.unionFlaw?
        | .struct => l.structFlaw? size
    else return some (.ragged l.size l.alignment)

end RecordLayout

end AbiLayout
