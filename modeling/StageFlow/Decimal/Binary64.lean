/-!
# Doubles

A 64-bit binary floating-point number as its bits, so that equality is decidable and tells the two
zeros apart, and the exact value of a finite one as `significand · 2 ^ scale`.

## Contents
- **Type.** `Binary64`, with the conversions to and from `Float`, which does the arithmetic.
- **Fields.** `isNegative`, `significand`, `scale`, `isFinite`, `isZero`, `integer?`.
-/

namespace StageFlow

/-- A double, held as its bits. -/
structure Binary64 where
  bits : UInt64
  deriving DecidableEq, Repr

namespace Binary64

/-! ## Conversions -/

/-- The double that a computation gave. -/
def ofFloat (x : Float) : Binary64 := ⟨x.toBits⟩

/-- The double as a number to compute with. -/
def toFloat (x : Binary64) : Float := Float.ofBits x.bits

/-! ## Fields -/

/-- Is the sign bit set? -/
def isNegative (x : Binary64) : Bool := x.bits >>> 63 == 1

/-- The eleven exponent bits. -/
def exponentBits (x : Binary64) : Nat := ((x.bits >>> 52) &&& 0x7ff).toNat

/-- The fifty-two fraction bits. -/
def fractionBits (x : Binary64) : Nat := (x.bits &&& 0xfffffffffffff).toNat

/-- Neither an infinity nor a NaN. -/
def isFinite (x : Binary64) : Bool := x.exponentBits != 0x7ff

/-- One of the two zeros. -/
def isZero (x : Binary64) : Bool := x.exponentBits == 0 && x.fractionBits == 0

/-- The integer `m` for which a finite double is `± m · 2 ^ scale`. -/
def significand (x : Binary64) : Nat :=
  if x.exponentBits = 0 then x.fractionBits else x.fractionBits + (1 <<< 52)

/-- The exponent of two that goes with `significand`; subnormal numbers share the smallest. -/
def scale (x : Binary64) : Int :=
  if x.exponentBits = 0 then -1074 else (x.exponentBits : Int) - 1075

/-- The integer that a double is, if it is one. -/
def integer? (x : Binary64) : Option Int :=
  let places := (-x.scale).toNat
  let m := (x.significand <<< x.scale.toNat) >>> places
  if x.isFinite && (x.scale ≥ 0 || m <<< places == x.significand) then
    some (if x.isNegative then -(m : Int) else m)
  else none

/-- Is the next double towards zero only half a step away? So it is at a power of two. -/
def stepsDownByHalf (x : Binary64) : Bool := x.fractionBits == 0 && x.exponentBits > 1

end Binary64

end StageFlow
