/-
Numbers, dates and times in TOML. Digits may be parted by single underscores, a decimal integer starts with
no needless zero, and an integer has to fit into 64 bits. A float too large to be told from infinity is
refused if it is positive.
-/
import UnitLoading.Toml.Basic
import UnitLoading.Toml.Trivia

namespace UnitLoading.Toml

open Text (Reads digitValue hexDigit? ofDigits)

-- ================================================================ digits

/-- More digits of a kind; an underscore has to be followed by one. -/
def moreDigits (isDigit : Char → Bool) : Reads (List Char)
  | [] => some ([], [])
  | '_' :: cs => match cs with
    | [] => none
    | d :: rest => if isDigit d then (moreDigits isDigit rest).map fun r => (d :: r.1, r.2) else none
  | c :: cs =>
    if isDigit c then (moreDigits isDigit cs).map fun r => (c :: r.1, r.2) else some ([], c :: cs)

/-- One or more digits of a kind. -/
def someDigits (isDigit : Char → Bool) : Reads (List Char)
  | [] => none
  | c :: cs => if isDigit c then (moreDigits isDigit cs).map fun r => (c :: r.1, r.2) else none

/-- A sign, if there is one; `true` is a minus. -/
def sign : List Char → Bool × List Char
  | '+' :: cs => (false, cs)
  | '-' :: cs => (true, cs)
  | cs => (false, cs)

/-- The digits of a decimal integer: a zero alone, or digits that start with another one. -/
def wholeDigits : Reads (List Char)
  | '0' :: cs => some (['0'], cs)
  | cs => someDigits Char.isDigit cs

-- ================================================================ integers

/-- The number of 64 bits that is this integer. -/
def int64? (n : Int) : Option Int64 :=
  if Int64.minValue.toInt ≤ n ∧ n ≤ Int64.maxValue.toInt then some (.ofInt n) else none

def isHexDigit (c : Char) : Bool := (hexDigit? c).isSome

def isOctalDigit (c : Char) : Bool := '0' ≤ c && c ≤ '7'

def isBinaryDigit (c : Char) : Bool := c = '0' || c = '1'

/-- Digits of a base up to sixteen. -/
def based (base : Nat) (isDigit : Char → Bool) : Reads Int64 := fun cs => do
  let (ds, rest) ← someDigits isDigit cs
  let n ← int64? (ofDigits base (ds.filterMap hexDigit?))
  return (n, rest)

/-- An integer. Only a decimal one may have a sign. -/
def integer : Reads Int64
  | '0' :: 'x' :: cs => based 16 isHexDigit cs
  | '0' :: 'o' :: cs => based 8 isOctalDigit cs
  | '0' :: 'b' :: cs => based 2 isBinaryDigit cs
  | cs => do
    let (negative, cs) := sign cs
    let (ds, rest) ← wholeDigits cs
    let magnitude : Int := ofDigits 10 (ds.map digitValue)
    let n ← int64? (if negative then -magnitude else magnitude)
    return (n, rest)

-- ================================================================ floats

/-- The digits behind a point. -/
def fraction : Reads (List Char)
  | '.' :: cs => someDigits Char.isDigit cs
  | _ => none

/-- An exponent. -/
def exponent : Reads Int
  | c :: cs =>
    if c = 'e' || c = 'E' then do
      let (negative, cs) := sign cs
      let (ds, rest) ← someDigits Char.isDigit cs
      let n : Int := ofDigits 10 (ds.map digitValue)
      return (if negative then -n else n, rest)
    else none
  | [] => none

/-- A float that is written in digits: a fraction, an exponent or both follow the whole part. -/
def decimalFloat : Reads Binary64 := fun cs => do
  let (negative, cs) := sign cs
  let (whole, cs) ← wholeDigits cs
  let (places, cs) := Text.optional fraction cs
  let (power, cs) := Text.optional exponent cs
  if places.isNone && power.isNone then none
  else
    let digits := whole ++ places.getD []
    let x := Binary64.ofDecimal negative (ofDigits 10 (digits.map digitValue))
      (power.getD 0 - (places.getD []).length)
    if x.isInfinite && !negative then none else some (x, cs)

/-- A float that is written as a word. -/
def namedFloat : Reads Binary64 := fun cs =>
  let (negative, cs) := sign cs
  ((Text.word "inf" cs).map fun r => (.infinity negative, r.2)).or
    ((Text.word "nan" cs).map fun r => (.nan negative, r.2))

/-- A float. -/
def float : Reads Binary64 := fun cs => (decimalFloat cs).or (namedFloat cs)

-- ================================================================ dates and times

/-- A number of exactly `count` digits, within bounds. -/
def fixedDigits (count lo hi : Nat) : Reads Nat := fun cs =>
  let ds := cs.take count
  let n := ofDigits 10 (ds.map digitValue)
  if ds.length = count && ds.all Char.isDigit && lo ≤ n && n ≤ hi then some (n, cs.drop count) else none

/-- The days of a month. -/
def daysIn (year month : Nat) : Nat :=
  if month = 2 then
    if year % 4 = 0 && (year % 100 ≠ 0 || year % 400 = 0) then 29 else 28
  else if month = 4 || month = 6 || month = 9 || month = 11 then 30
  else 31

/-- A day of the calendar. -/
def date : Reads Unit := fun cs => do
  let (year, cs) ← fixedDigits 4 0 9999 cs
  let (_, cs) ← Text.word "-" cs
  let (month, cs) ← fixedDigits 2 1 12 cs
  let (_, cs) ← Text.word "-" cs
  let (_, cs) ← fixedDigits 2 1 (daysIn year month) cs
  return ((), cs)

/-- Digits of a second behind a point. -/
def secondFraction : Reads Unit
  | '.' :: cs => match cs.takeWhile Char.isDigit with
    | [] => none
    | _ => some ((), cs.dropWhile Char.isDigit)
  | _ => none

/-- A time of day; a second may be a leap second. -/
def time : Reads Unit := fun cs => do
  let (_, cs) ← fixedDigits 2 0 23 cs
  let (_, cs) ← Text.word ":" cs
  let (_, cs) ← fixedDigits 2 0 59 cs
  let (_, cs) ← Text.word ":" cs
  let (_, cs) ← fixedDigits 2 0 60 cs
  return ((), (Text.optional secondFraction cs).2)

/-- The distance of a time from universal time. -/
def offset : Reads Unit
  | c :: cs =>
    if c = 'Z' || c = 'z' then some ((), cs)
    else if c = '+' || c = '-' then do
      let (_, cs) ← fixedDigits 2 0 23 cs
      let (_, cs) ← Text.word ":" cs
      let (_, cs) ← fixedDigits 2 0 59 cs
      return ((), cs)
    else none
  | [] => none

/-- A time behind a day. -/
def timeOfDay : Reads Unit
  | c :: cs =>
    if c = 'T' || c = 't' || c = ' ' then do
      let (_, cs) ← time cs
      return ((), (Text.optional offset cs).2)
    else none
  | [] => none

/-- A day, a day with a time, or a time. -/
def dateTime : Reads Unit := fun cs =>
  match date cs with
  | some (_, cs) => some ((), (Text.optional timeOfDay cs).2)
  | none => time cs

end UnitLoading.Toml
