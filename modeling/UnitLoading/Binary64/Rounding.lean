/-
From exact values to doubles. A quotient of natural numbers is rounded to the nearest double, a half to
the even neighbour, and past the largest finite one to an infinity. Integers and decimals are that one
rounding at different quotients.
-/
import UnitLoading.Binary64.Basic

namespace UnitLoading.Binary64

/-- The integer nearest to `a / d`; of two equally near ones the even one. -/
def roundQuotient (a d : Nat) : Nat :=
  let q := a / d
  let r := a % d
  if 2 * r < d then q else if d < 2 * r then q + 1 else if q % 2 = 0 then q else q + 1

/-- The double nearest to `± a / d` units of `2 ^ (-1074)`. The scale is the least one at which the
quotient needs no more than fifty-three bits. -/
def ofUnits (sign : Bool) (a d : Nat) : Binary64 :=
  let scale := (a / d).log2 - 52
  let m := roundQuotient a (d <<< scale)
  let (m, scale) := if m = 2 * leadingBit then (leadingBit, scale + 1) else (m, scale)
  if 2045 < scale then infinity sign else ofFields sign m scale

/-- The double nearest to `± num / den`. -/
def ofRatio (sign : Bool) (num den : Nat) : Binary64 := ofUnits sign (num <<< 1074) den

/-- The double nearest to an integer. -/
def ofInt (n : Int) : Binary64 := ofRatio (n < 0) n.natAbs 1

/-- How many decimal digits a number has; zero has one. -/
def decimalLength (n : Nat) : Nat := (Nat.toDigits 10 n).length

/-- The double nearest to `± digits * 10 ^ exponent`. A value of more than 400 places before the point, or
of more than 400 zeros after it, is past every finite double, or nearest to zero. -/
def ofDecimal (sign : Bool) (digits : Nat) (exponent : Int) : Binary64 :=
  let places := exponent + decimalLength digits
  if digits = 0 then zero sign
  else if 400 < places then infinity sign
  else if places < -400 then zero sign
  else if 0 ≤ exponent then ofRatio sign (digits * Nat.pow 10 exponent.toNat) 1
  else ofRatio sign digits (Nat.pow 10 (-exponent).toNat)

end UnitLoading.Binary64
