import AbiLayout.Quantity.Basic

/-!
# Why a record has no layout

A layout error is either a rule that the record itself breaks, or the report that a record it
depends on has no layout. The latter keeps the cause, so that following causes leads to the record
that is at fault.

## Main definitions

* `LayoutError`, `LayoutError.message`.
* `LayoutError.rootCause`, `LayoutError.isDependencyFailure`.
-/

namespace AbiLayout

/-- Why a record or a type has no layout. -/
inductive LayoutError where
  | bitfieldTooWide (record field underlying : String) (width max : BitCount)
  | namedZeroWidthBitfield (record field : String)
  | misdeclaredZeroWidthBitfield (record field : String) (width : BitCount)
  | nonIntegerBitfield (record field underlying : String)
  | incompleteNotTrailing (record field : String)
  | flexibleArrayInUnion (record field : String)
  | incompleteElement (record field : String)
  | typeTooLarge (ty : String)
  | recordTooLarge (record field : String)
  | failedDependency (record dependency : String) (cause : LayoutError)
  | virtualBase (record base : String)
  | multipleInheritance (record : String) (count : Nat) (profile : String)
deriving DecidableEq, Repr

namespace LayoutError

/-- What a layout error reports. -/
def message : LayoutError → String
  | bitfieldTooWide record field underlying width max =>
    s!"Bitfield `{field}` of `{record}` is {width.count} bits wide, " ++
      s!"but `{underlying}` only holds {max.count} bits"
  | namedZeroWidthBitfield record field =>
    s!"Bitfield `{field}` of `{record}` has zero width but is named"
  | misdeclaredZeroWidthBitfield record field width =>
    s!"Bitfield `{field}` of `{record}` has width {width.count} " ++
      "but is marked as an unnamed zero-width bitfield"
  | nonIntegerBitfield record field underlying =>
    s!"Bitfield `{field}` of `{record}` is declared over non-integer type `{underlying}`"
  | incompleteNotTrailing record field =>
    s!"Member `{field}` of `{record}` has incomplete type but is not the trailing member"
  | flexibleArrayInUnion record field =>
    s!"Union `{record}` cannot have flexible array member `{field}`"
  | incompleteElement record field =>
    s!"Member `{field}` of `{record}` is an array of incomplete elements"
  | typeTooLarge ty => s!"Type `{ty}` is too large to lay out"
  | recordTooLarge record field =>
    s!"Member `{field}` of `{record}` would end past the largest representable offset"
  | failedDependency record dependency cause =>
    s!"Record `{record}` depends on `{dependency}`, which has no valid layout: {cause.message}"
  | virtualBase record base =>
    s!"Record `{record}` has virtual base `{base}`, virtual inheritance is not supported"
  | multipleInheritance record count profile =>
    s!"Record `{record}` has {count} non-empty bases, " ++
      s!"but the ABI profile `{profile}` only allows single inheritance"

/-- The error at the end of a chain of failed dependencies. -/
def rootCause : LayoutError → LayoutError
  | failedDependency _ _ cause => cause.rootCause
  | error => error

/-- Whether the fault is that of another record. -/
def isDependencyFailure : LayoutError → Bool
  | failedDependency .. => true
  | _ => false

@[simp] theorem rootCause_failedDependency (record dependency : String) (cause : LayoutError) :
    (failedDependency record dependency cause).rootCause = cause.rootCause := rfl

end LayoutError

end AbiLayout
