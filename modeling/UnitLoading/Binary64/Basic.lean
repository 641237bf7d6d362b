/-
Double-precision numbers as their 64 bits: a sign, eleven bits of exponent and fifty-two of fraction. A
finite number is `significand * 2 ^ scale` units of `2 ^ (-1074)`, the least positive double, so every
statement about values is one about natural numbers.
-/
namespace UnitLoading

/-- A double-precision number. -/
structure Binary64 where
  bits : UInt64
  deriving DecidableEq, Inhabited, Repr

namespace Binary64

-- ================================================================ fields

/-- The weight of the sign bit. -/
def signBit : Nat := 1 <<< 63

/-- The weight of the bit in front of the fraction, which is not stored. -/
def leadingBit : Nat := 1 <<< 52

/-- Whether the sign bit is set; zero and a NaN have one as well. -/
def sign (x : Binary64) : Bool := signBit ≤ x.bits.toNat

/-- The biased exponent as it is stored. -/
def exponentField (x : Binary64) : Nat := x.bits.toNat / leadingBit % 2048

def fraction (x : Binary64) : Nat := x.bits.toNat % leadingBit

def isNaN (x : Binary64) : Bool := x.exponentField = 2047 && x.fraction ≠ 0

def isInfinite (x : Binary64) : Bool := x.exponentField = 2047 && x.fraction = 0

def isFinite (x : Binary64) : Bool := x.exponentField ≠ 2047

def isZero (x : Binary64) : Bool := x.exponentField = 0 && x.fraction = 0

/-- The integer that a finite number's magnitude is a power of two times. -/
def significand (x : Binary64) : Nat :=
  if x.exponentField = 0 then x.fraction else x.fraction + leadingBit

/-- The power of two, counted from the least positive double. -/
def scale (x : Binary64) : Nat := x.exponentField - 1

/-- The magnitude of a finite number in units of `2 ^ (-1074)`. -/
def magnitude (x : Binary64) : Nat := x.significand <<< x.scale

-- ================================================================ building

/-- The number with these fields; `significand` is below `2 ^ 53`, and at least `2 ^ 52` unless `scale` is
zero. -/
def ofFields (sign : Bool) (significand scale : Nat) : Binary64 :=
  let magnitude :=
    if significand < leadingBit then significand
    else (scale + 1) * leadingBit + (significand - leadingBit)
  ⟨UInt64.ofNat ((if sign then signBit else 0) + magnitude)⟩

def zero (sign : Bool) : Binary64 := ofFields sign 0 0

def infinity (sign : Bool) : Binary64 := ⟨UInt64.ofNat ((if sign then signBit else 0) + 2047 * leadingBit)⟩

/-- The NaN without a sign and a payload. -/
def nan (sign : Bool) : Binary64 :=
  ⟨UInt64.ofNat ((if sign then signBit else 0) + 2047 * leadingBit + leadingBit / 2)⟩

/-- The same magnitude with the other sign. -/
def neg (x : Binary64) : Binary64 :=
  ⟨UInt64.ofNat (if x.sign then x.bits.toNat - signBit else x.bits.toNat + signBit)⟩

-- ================================================================ equality

/-- Equality of values: a NaN equals nothing, and the two zeros are equal. -/
def equal (x y : Binary64) : Bool :=
  !x.isNaN && !y.isNaN && (x.bits = y.bits || (x.isZero && y.isZero))

end Binary64

end UnitLoading
