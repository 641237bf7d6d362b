/-
The value of a JSON number's text. An integer that fits into 64 bits, signed or unsigned, is exact. Every
other number is the double nearest to the decimal that the text writes, however many digits it has; one
that is past every double has no value.
-/
import UnitLoading.Json.Value
import UnitLoading.Text.Reads

namespace UnitLoading.Json

open Text (ofDigits)

/-- The parts of a number's text; all digits are numbers below ten. -/
structure Literal where
  negative : Bool
  /-- The digits before the point. -/
  whole : List Nat
  /-- The digits after the point, where there is one. -/
  fraction : Option (List Nat)
  /-- The sign and the digits of the exponent, where there is one. -/
  exponent : Option (Bool × List Nat)
  deriving DecidableEq, Repr

namespace Literal

-- ================================================================ the decimal

/-- The digits after the point; there are none without a point. -/
def decimals (n : Literal) : List Nat := n.fraction.getD []

/-- The power of ten that the exponent writes. -/
def shift (n : Literal) : Int :=
  match n.exponent with
  | none => 0
  | some (negative, digits) => if negative then -(ofDigits 10 digits : Int) else ofDigits 10 digits

/-- The double nearest to the decimal: all its digits as one integer, moved to the place of the point. -/
def real (n : Literal) : Binary64 :=
  .ofDecimal n.negative (ofDigits 10 (n.whole ++ n.decimals)) (n.shift - n.decimals.length)

-- ================================================================ the value

/-- The integer of a text without point and exponent, if 64 bits hold it. There is no negative zero among
the integers, so a minus sign before zero makes a double. -/
def int? (n : Literal) : Option Int :=
  if n.fraction.isSome || n.exponent.isSome then none
  else
    let m := ofDigits 10 n.whole
    if n.negative then if 0 < m ∧ Int64.minValue.toInt ≤ -m then some (-m) else none
    else if m < UInt64.size then some m else none

/-- The value of the text. -/
def value (n : Literal) : Value :=
  match n.int? with
  | some i => .number (.int i)
  | none => if n.real.isInfinite then .unusable else .number (.real n.real)

end Literal

end UnitLoading.Json
