/-!
# Traps

A request to this library has three kinds of outcome: a result, an error of the domain (a record
that has no layout, a base type table that describes no machine), and a *trap*. A trap is raised
where a request is outside what the operation is defined on: a count that leaves the 64-bit range,
a key that was never handed out, an alignment of zero. It ends the computation that raised it, and
no layout error ever stands for one.

Everything that can trap lives in `Except Trap`, so errors of the domain keep a channel of their
own, and a statement that an operation never traps is a statement about its first layer only.

## Main definitions

* `Trap`: the causes.
* `Trap.message`: their texts.
-/

namespace AbiLayout

/-- Why a computation stopped without a result. -/
inductive Trap where
  /-- A count of bytes or bits would leave the range `0, …, 2 ^ 64 - 1`. -/
  | overflow
  /-- A quantity is divided by zero. -/
  | divisionByZero
  /-- A quantity is rounded to an alignment of zero. -/
  | zeroAlignment
  /-- A record would take an alignment that is not a power of two. -/
  | unevenAlignment
  /-- An arena is read or written at a key that it does not hold. -/
  | unknownKey
  /-- An index is larger than the largest key of its kind. -/
  | keyOutOfRange
  /-- A storage unit is closed although it starts behind the cursor. -/
  | unitBehindCursor
  /-- A computed layout fails its own check. -/
  | flawedLayout
  /-- A scalar type has no size of its own. -/
  | unsizedScalar
  /-- Records nest deeper than there are records. -/
  | bottomless
deriving DecidableEq, Repr

namespace Trap

/-- What a trap reports. -/
def message : Trap → String
  | overflow => "a count leaves the 64-bit range"
  | divisionByZero => "division by a quantity of zero"
  | zeroAlignment => "rounding to an alignment of zero"
  | unevenAlignment => "a record alignment is not a power of two"
  | unknownKey => "no value is stored under this key"
  | keyOutOfRange => "an index exceeds the largest key"
  | unitBehindCursor => "an open storage unit starts past the cursor"
  | flawedLayout => "a computed layout fails its check"
  | unsizedScalar => "a scalar type has no size"
  | bottomless => "records nest without end"

instance : ToString Trap := ⟨message⟩

end Trap

end AbiLayout
