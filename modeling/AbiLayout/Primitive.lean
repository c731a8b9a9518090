import AbiLayout.Quantity.Basic

/-!
# Base types

A `Primitive` is a scalar type whose size, alignment and encoding are already settled. Layout reads
the size and the alignment; of the encoding it asks only whether it is an integer, because
bit-fields are declared over integers. The other distinctions between encodings serve reports.

## Main definitions

* `Encoding`, `Encoding.isInteger`, `Encoding.text`.
* `Primitive`, `Primitive.bits`, `Primitive.isInteger`.
-/

namespace AbiLayout

/-- How the bits of a base type are read. -/
inductive Encoding where
  | signed
  | unsigned
  | signedChar
  | unsignedChar
  | boolean
  | float
deriving DecidableEq, Repr

namespace Encoding

/-- Every encoding but `float` is one of integers. -/
def isInteger : Encoding → Bool
  | float => false
  | _ => true

/-- The words for an encoding. -/
def text : Encoding → String
  | signed => "signed"
  | unsigned => "unsigned"
  | signedChar => "signed char"
  | unsignedChar => "unsigned char"
  | boolean => "boolean"
  | float => "float"

instance : ToString Encoding := ⟨text⟩

end Encoding

/-- A base type. Nothing ties the members together: what a usable base type satisfies is checked
where it enters a profile. -/
structure Primitive where
  name : String
  size : ByteCount
  alignment : ByteCount
  encoding : Encoding
deriving DecidableEq, Repr

namespace Primitive

/-- The size in bits; traps where it leaves the range. -/
def bits (p : Primitive) : Except Trap BitCount := p.size.toBits

/-- Whether the base type is an integer. -/
def isInteger (p : Primitive) : Bool := p.encoding.isInteger

end Primitive

end AbiLayout
