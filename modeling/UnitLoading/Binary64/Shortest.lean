/-
The shortest decimal text of a double: the fewest digits that read back as the same number, and of the
decimals with that many digits the nearest to it. The digits are found on decimal grids, the coarsest
first: a grid wins when one of the two grid points around the value reads back.
-/
import UnitLoading.Binary64.Rounding

namespace UnitLoading.Binary64

-- ================================================================ the interval that reads back

/-- Bounds, in quarters of `2 ^ (-1074)`, of the values whose nearest double is a given one; the bounds
themselves belong to it iff `closed`. -/
structure Neighbourhood where
  low : Nat
  value : Nat
  high : Nat
  closed : Bool

/-- The values that are rounded to `x`. Below a power of two the doubles lie twice as close, so the lower
half-gap is the smaller one there; a value half-way goes to the even significand. -/
def neighbourhood (x : Binary64) : Neighbourhood :=
  let m := x.significand
  let unit := 1 <<< x.scale
  { low := (if m = leadingBit ∧ 0 < x.scale then 4 * m - 1 else 4 * m - 2) * unit
    value := 4 * m * unit
    high := (4 * m + 2) * unit
    closed := m % 2 = 0 }

/-- Whether `n / d` quarters of the least double lie in the neighbourhood. -/
def Neighbourhood.holds (b : Neighbourhood) (n d : Nat) : Bool :=
  if b.closed then b.low * d ≤ n && n ≤ b.high * d else b.low * d < n && n < b.high * d

-- ================================================================ decimal grids

/-- A decimal `digits * 10 ^ exponent`. -/
structure Decimal where
  digits : Nat
  exponent : Int
  deriving DecidableEq, Repr

/-- The multiple of `10 ^ exponent` that reads back: of the two around the value the nearer, and the upper
one where both are as near. -/
def onGrid (b : Neighbourhood) (exponent : Int) : Option Decimal :=
  -- a grid point `k` stands for `k * step / per` quarters of the least double
  let step := (4 <<< 1074) * Nat.pow 10 exponent.toNat
  let per := Nat.pow 10 (-exponent).toNat
  let below := b.value * per / step
  let above := below + 1
  match b.holds (below * step) per, b.holds (above * step) per with
  | false, false => none
  | true, false => some ⟨below, exponent⟩
  | false, true => some ⟨above, exponent⟩
  | true, true =>
    if b.value * per - below * step < above * step - b.value * per
    then some ⟨below, exponent⟩ else some ⟨above, exponent⟩

/-- The first of `fuel` grids, from `10 ^ exponent` on to the finer, that has a point which reads back. -/
def coarsest (b : Neighbourhood) : Nat → Int → Option Decimal
  | 0, _ => none
  | fuel + 1, exponent => (onGrid b exponent).or (coarsest b fuel (exponent - 1))

/-- An exponent whose power of ten is above a positive value of `n / d`, and not far above it. -/
def exponentAbove (n d : Nat) : Int :=
  if d ≤ n then decimalLength (n / d) else 2 - (decimalLength (d / n) : Int)

/-- The shortest decimal that reads back as the magnitude of a finite number. Nineteen grids are enough,
since seventeen digits always are. -/
def shortest (x : Binary64) : Decimal :=
  if x.significand = 0 then ⟨0, 0⟩
  else
    let b := neighbourhood x
    (coarsest b 19 (exponentAbove b.value (4 <<< 1074))).getD ⟨0, 0⟩

-- ================================================================ layout

/-- A decimal without exponent: zeros up to the point, or the point among the digits, with a zero before it
if need be. -/
def Decimal.positional (d : Decimal) : String :=
  let digits := Nat.toDigits 10 d.digits
  if 0 ≤ d.exponent then String.ofList (digits ++ List.replicate d.exponent.toNat '0')
  else
    let places := (-d.exponent).toNat
    let padded := List.replicate (places + 1 - digits.length) '0' ++ digits
    let whole := padded.length - places
    String.ofList (padded.take whole ++ '.' :: padded.drop whole)

/-- The text of a number: shortest digits, never an exponent, and no point in an integer. -/
def text (x : Binary64) : String :=
  if x.isNaN then "NaN"
  else
    let magnitude := if x.isInfinite then "inf" else (shortest x).positional
    if x.sign then "-" ++ magnitude else magnitude

end UnitLoading.Binary64
