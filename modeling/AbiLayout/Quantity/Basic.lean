import AbiLayout.Trap

/-!
# Counts of bytes and of bits

Sizes, alignments and offsets are counts of one of two granules, the byte and the bit. A
`Quantity g` is a count of granule `g` below `2 ^ 64`; the granule is part of the type, so a size in
bytes and an offset in bits are only combined through `Quantity.toBits` and its relatives.

Arithmetic never wraps. Each operation comes in up to two forms: the plain one lives in
`Except Trap` and traps outside the range, the checked one returns an `Option` and answers `none`
there.

Rounding up to an alignment `a` clears the low bits selected by the mask `a - 1`
(`Quantity.clearLow`). For a power of two that is the next multiple of `a`; for any other `a` it is
whatever the mask leaves. The plain rounding `Quantity.roundUp` adds `a` before it subtracts one,
the checked rounding `Quantity.roundUp?` adds `a - 1`, so the two differ where `x + a` is exactly
`2 ^ 64`.

## Main definitions

* `Granule`, `Quantity`, `ByteCount`, `BitCount`.
* `Quantity.fit`, `Quantity.fit?`: a natural number as a quantity, if it is in range.
* `Quantity.add`, `Quantity.sub`, `Quantity.scale`, `Quantity.div`, `Quantity.rem`, `Quantity.sum`.
* `Quantity.add?`, `Quantity.scale?`.
* `Quantity.roundUp`, `Quantity.roundUp?`, `Quantity.isPowerOfTwo`.
* `Quantity.toBits`, `Quantity.toBits?`, `Quantity.fitsInBits`, `Quantity.floorBytes`,
  `Quantity.coveringBytes`, `Quantity.bytes?`: between the two granules.
* `Quantity.text`: the text of a quantity, a count of bits as `bytes.bits`.
-/

namespace AbiLayout

/-- What is counted. -/
inductive Granule where
  | byte
  | bit
deriving DecidableEq, Repr

/-- A count of granules that fits in 64 bits. -/
structure Quantity (g : Granule) where
  /-- The number of granules. -/
  count : Nat
  count_lt : count < 0x1_0000_0000_0000_0000 := by decide
deriving DecidableEq

/-- A size, an alignment or an offset in whole bytes. -/
abbrev ByteCount := Quantity .byte

/-- A width or an offset that may end inside a byte. -/
abbrev BitCount := Quantity .bit

namespace Quantity

variable {g : Granule}

/-- Two quantities of one granule with the same count are equal. -/
@[ext] theorem ext {x y : Quantity g} (h : x.count = y.count) : x = y := by
  cases x
  cases y
  cases h
  rfl

/-- The quantity of `n` granules, for an `n` that a comparison of literals shows to be in range. -/
def of (n : Nat) (h : n.blt 0x1_0000_0000_0000_0000 = true := by exact @rfl Bool true) :
    Quantity g :=
  ⟨n, Nat.le_of_ble_eq_true h⟩

/-- No granules. -/
def zero : Quantity g := ⟨0, by decide⟩

/-- One granule. -/
def one : Quantity g := ⟨1, by decide⟩

instance : Inhabited (Quantity g) := ⟨zero⟩

instance : Repr (Quantity g) := ⟨fun x n => reprPrec x.count n⟩

@[simp] theorem count_of (n : Nat) (h : n.blt 0x1_0000_0000_0000_0000 = true) :
    (of n h : Quantity g).count = n := rfl

@[simp] theorem count_zero : (zero : Quantity g).count = 0 := rfl

@[simp] theorem count_one : (one : Quantity g).count = 1 := rfl

/-! ### Order -/

instance : LT (Quantity g) := ⟨fun x y => x.count < y.count⟩

instance : LE (Quantity g) := ⟨fun x y => x.count ≤ y.count⟩

instance : Ord (Quantity g) := ⟨fun x y => compare x.count y.count⟩

theorem lt_iff {x y : Quantity g} : x < y ↔ x.count < y.count := Iff.rfl

theorem le_iff {x y : Quantity g} : x ≤ y ↔ x.count ≤ y.count := Iff.rfl

instance (x y : Quantity g) : Decidable (x < y) := inferInstanceAs (Decidable (x.count < y.count))

instance (x y : Quantity g) : Decidable (x ≤ y) := inferInstanceAs (Decidable (x.count ≤ y.count))

/-- The larger of two quantities. -/
instance : Max (Quantity g) := ⟨fun x y => if x ≤ y then y else x⟩

@[simp] theorem count_max (x y : Quantity g) : (max x y).count = max x.count y.count := by
  change (if x ≤ y then y else x).count = _
  by_cases h : x ≤ y
  · rw [if_pos h, Nat.max_eq_right h]
  · rw [if_neg h, Nat.max_eq_left (Nat.le_of_not_le h)]

/-- Whether there is nothing. -/
def isZero (x : Quantity g) : Bool := x.count == 0

@[simp] theorem isZero_iff {x : Quantity g} : x.isZero = true ↔ x.count = 0 := by
  simp [isZero]

/-! ### Into range -/

/-- The quantity of `n` granules, unless `n` leaves the range. -/
def fit? (n : Nat) : Option (Quantity g) :=
  if h : n < 0x1_0000_0000_0000_0000 then some ⟨n, h⟩ else none

/-- The quantity of `n` granules; traps where `n` leaves the range. -/
def fit (n : Nat) : Except Trap (Quantity g) :=
  if h : n < 0x1_0000_0000_0000_0000 then .ok ⟨n, h⟩ else .error .overflow

theorem fit?_eq_some_iff {n : Nat} {x : Quantity g} : fit? n = some x ↔ x.count = n := by
  unfold fit?
  split
  · rename_i h
    exact ⟨fun e => by cases e; rfl, fun e => by subst e; rfl⟩
  · rename_i h
    exact ⟨fun e => (nomatch e), fun e => absurd (e ▸ x.count_lt) h⟩

theorem fit?_eq_none_iff {n : Nat} : fit? (g := g) n = none ↔ 0x1_0000_0000_0000_0000 ≤ n := by
  unfold fit?
  split <;> simp <;> omega

theorem fit_eq_ok_iff {n : Nat} {x : Quantity g} : fit n = .ok x ↔ x.count = n := by
  unfold fit
  split
  · rename_i h
    exact ⟨fun e => by cases e; rfl, fun e => by subst e; rfl⟩
  · rename_i h
    exact ⟨fun e => (nomatch e), fun e => absurd (e ▸ x.count_lt) h⟩

theorem fit_eq_ok {n : Nat} (h : n < 0x1_0000_0000_0000_0000) : fit (g := g) n = .ok ⟨n, h⟩ :=
  dif_pos h

theorem fit_eq_error {n : Nat} (h : 0x1_0000_0000_0000_0000 ≤ n) :
    fit (g := g) n = .error .overflow :=
  dif_neg (Nat.not_lt.mpr h)

/-! ### Sums, differences, multiples -/

/-- The sum; traps outside the range. -/
def add (x y : Quantity g) : Except Trap (Quantity g) := fit (x.count + y.count)

/-- The sum, `none` outside the range. -/
def add? (x y : Quantity g) : Option (Quantity g) := fit? (x.count + y.count)

/-- The difference; traps where it would be negative. -/
def sub (x y : Quantity g) : Except Trap (Quantity g) :=
  if x < y then .error .overflow
  else .ok ⟨x.count - y.count, Nat.lt_of_le_of_lt (Nat.sub_le _ _) x.count_lt⟩

/-- The multiple `n * x`; traps outside the range. -/
def scale (x : Quantity g) (n : Nat) : Except Trap (Quantity g) := fit (x.count * n)

/-- The multiple `n * x`, `none` outside the range. -/
def scale? (x : Quantity g) (n : Nat) : Option (Quantity g) := fit? (x.count * n)

/-- How often `y` goes into `x`; traps for `y = 0`. -/
def div (x y : Quantity g) : Except Trap Nat :=
  if y.isZero then .error .divisionByZero else .ok (x.count / y.count)

/-- What is left of `x` after taking out `y` as often as it goes; traps for `y = 0`. -/
def rem (x y : Quantity g) : Except Trap (Quantity g) :=
  if y.isZero then .error .divisionByZero
  else .ok ⟨x.count % y.count, Nat.lt_of_le_of_lt (Nat.mod_le _ _) x.count_lt⟩

/-- The sum of a list, added from the left; traps as soon as a partial sum leaves the range. -/
def sum (xs : List (Quantity g)) : Except Trap (Quantity g) := xs.foldlM add zero

/-! ### Rounding -/

/-- Whether exactly one bit of the count is set. -/
def isPowerOfTwo (x : Quantity g) : Bool := x.count != 0 && x.count &&& (x.count - 1) == 0

/-- The number `x` without the bits that are set in `a - 1`. -/
def clearLow (x a : Nat) : Nat := x - (x &&& (a - 1))

theorem clearLow_le (x a : Nat) : clearLow x a ≤ x := Nat.sub_le _ _

/-- The quantity rounded up to the alignment `a`; traps for `a = 0` and where `x + a` leaves the
range. -/
def roundUp (x a : Quantity g) : Except Trap (Quantity g) :=
  if a.isZero then .error .zeroAlignment
  else do
    let past : Quantity g ← fit (x.count + a.count)
    .ok ⟨clearLow (past.count - 1) a.count,
      Nat.lt_of_le_of_lt (Nat.le_trans (clearLow_le _ _) (Nat.sub_le _ _)) past.count_lt⟩

/-- The quantity rounded up to the alignment `a`, `none` where `x + (a - 1)` leaves the range; traps
for `a = 0`. -/
def roundUp? (x a : Quantity g) : Except Trap (Option (Quantity g)) :=
  if a.isZero then .error .zeroAlignment
  else .ok <| (fit? (g := g) (x.count + (a.count - 1))).map fun past =>
    ⟨clearLow past.count a.count, Nat.lt_of_le_of_lt (clearLow_le _ _) past.count_lt⟩

/-! ### Bytes and bits -/

/-- The number of bits in a byte. -/
def bitsPerByte : Nat := 8

/-- The bits of a number of bytes; traps outside the range. -/
def toBits (x : ByteCount) : Except Trap BitCount := fit (x.count * bitsPerByte)

/-- The bits of a number of bytes, `none` outside the range. -/
def toBits? (x : ByteCount) : Option BitCount := fit? (x.count * bitsPerByte)

/-- Whether a size in bytes is also a size in bits. -/
def fitsInBits (x : ByteCount) : Bool := x.toBits?.isSome

theorem fitsInBits_iff {x : ByteCount} :
    x.fitsInBits = true ↔ 8 * x.count < 0x1_0000_0000_0000_0000 := by
  rw [fitsInBits, toBits?, Option.isSome_iff_ne_none, ne_eq, fit?_eq_none_iff, bitsPerByte,
    Nat.not_le, Nat.mul_comm]

/-- The whole bytes in a number of bits, rounded down. -/
def floorBytes (x : BitCount) : ByteCount :=
  ⟨x.count / bitsPerByte, Nat.lt_of_le_of_lt (Nat.div_le_self _ _) x.count_lt⟩

/-- The bytes needed to hold a number of bits, rounded up. -/
def coveringBytes (x : BitCount) : ByteCount :=
  ⟨(x.count + (bitsPerByte - 1)) / bitsPerByte, by
    have := x.count_lt
    simp only [bitsPerByte]
    omega⟩

/-- The bits past the last whole byte. -/
def bitsPastByte (x : BitCount) : Nat := x.count % bitsPerByte

/-- Whether a number of bits ends on a byte boundary. -/
def isWholeBytes (x : BitCount) : Bool := x.bitsPastByte == 0

/-- A number of bits as bytes, `none` when it ends inside a byte. -/
def bytes? (x : BitCount) : Option ByteCount :=
  if x.isWholeBytes then some x.floorBytes else none

/-! ### Text -/

/-- Bytes are written as their number; bits as whole bytes, followed by a point and the remaining
bits unless there are none. -/
def text : {g : Granule} → Quantity g → String
  | .byte, x => toString x.count
  | .bit, x =>
    if x.isWholeBytes then toString x.floorBytes.count
    else toString x.floorBytes.count ++ "." ++ toString x.bitsPastByte

instance : ToString (Quantity g) := ⟨text⟩

end Quantity

end AbiLayout
