/-
Reading a text from the front: a reader gives what it read together with the characters that are left, or
fails. How many characters are left says where in the text a reader stands.
-/
namespace UnitLoading.Text

/-- A reader of the characters at the front of a text. -/
abbrev Reads (α : Type) := List Char → Option (α × List Char)

/-- The value of a hexadecimal digit. -/
def hexDigit? (c : Char) : Option Nat :=
  if '0' ≤ c && c ≤ '9' then some (c.toNat - 48)
  else if 'a' ≤ c && c ≤ 'f' then some (c.toNat - 87)
  else if 'A' ≤ c && c ≤ 'F' then some (c.toNat - 55)
  else none

/-- The number that digits of a base write. -/
def ofDigits (base : Nat) (ds : List Nat) : Nat := ds.foldl (fun n d => n * base + d) 0

/-- A number of exactly `count` hexadecimal digits. -/
def hexNumber (count : Nat) : Reads Nat := fun cs =>
  if (cs.take count).length = count then
    ((cs.take count).mapM hexDigit?).map fun ds => (ofDigits 16 ds, cs.drop count)
  else none

/-- The value of a decimal digit. -/
def digitValue (c : Char) : Nat := c.toNat - 48

/-- The decimal digits at the front, as numbers, and what is left. -/
def decimalDigits (cs : List Char) : List Nat × List Char :=
  ((cs.takeWhile Char.isDigit).map digitValue, cs.dropWhile Char.isDigit)

/-- The given word at the front. -/
def word (w : String) : Reads Unit := fun cs =>
  if w.toList.isPrefixOf cs then some ((), cs.drop w.toList.length) else none

/-- Reads if it can, and goes on where it stands otherwise. -/
def optional (r : Reads α) : List Char → Option α × List Char := fun cs =>
  match r cs with
  | some (a, rest) => (some a, rest)
  | none => (none, cs)

end UnitLoading.Text
