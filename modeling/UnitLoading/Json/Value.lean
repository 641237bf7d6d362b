/-
JSON values as trees. Numbers keep what a reader can know of them: an integer that fits into 64 bits,
signed or unsigned, is exact, and any other number is a double.

A tree may hold leaves that have a form but no value, such as a number that is past every double. A reader
of a value has to refuse them; one that passes over a member need not look.
-/
import UnitLoading.Binary64.Rounding

namespace UnitLoading.Json

/-- A JSON number. -/
inductive Number where
  | int (n : Int)
  | real (x : Binary64)
  deriving DecidableEq, Repr

/-- A JSON value. -/
inductive Value where
  | null
  | bool (b : Bool)
  | number (n : Number)
  | string (s : String)
  | array (items : List Value)
  | object (members : List (String × Value))
  /-- Well-formed text without a value: a number past every double, a string with half of a surrogate pair,
  or an object with such a key. -/
  | unusable
  deriving Inhabited, Repr

-- ================================================================ nesting

mutual

/-- Whether every part of a value can be used and arrays and objects are nested less than `depth` deep. -/
def Value.fits (depth : Nat) : Value → Bool
  | .array items => 1 < depth && fitAll (depth - 1) items
  | .object members => 1 < depth && fitMembers (depth - 1) members
  | .unusable => false
  | _ => true

def fitAll (depth : Nat) : List Value → Bool
  | [] => true
  | v :: vs => v.fits depth && fitAll depth vs

def fitMembers (depth : Nat) : List (String × Value) → Bool
  | [] => true
  | (_, v) :: ms => v.fits depth && fitMembers depth ms

end

-- ================================================================ scalars

/-- The integer that a value is, if it lies between the bounds. -/
def Value.int? (lo hi : Int) : Value → Option Int
  | .number (.int n) => if lo ≤ n ∧ n ≤ hi then some n else none
  | _ => none

/-- The double that a number is; an integer is rounded. -/
def Value.float? : Value → Option Binary64
  | .number (.int n) => some (.ofInt n)
  | .number (.real x) => some x
  | _ => none

def Value.bool? : Value → Option Bool
  | .bool b => some b
  | _ => none

def Value.string? : Value → Option String
  | .string s => some s
  | _ => none

/-- What an optional part is: null stands for nothing. -/
def Value.optional? (read : Value → Option α) : Value → Option (Option α)
  | .null => some none
  | v => (read v).map some

/-- The items of an array, each read by `read`. -/
def Value.list? (read : Value → Option α) : Value → Option (List α)
  | .array items => items.mapM read
  | _ => none

def Value.uint64? (v : Value) : Option UInt64 := (v.int? 0 (UInt64.size - 1)).map fun n => UInt64.ofNat n.toNat

def Value.uint32? (v : Value) : Option UInt32 := (v.int? 0 (UInt32.size - 1)).map fun n => UInt32.ofNat n.toNat

def Value.int64? (v : Value) : Option Int64 :=
  (v.int? Int64.minValue.toInt Int64.maxValue.toInt).map Int64.ofInt

def Value.uint8? (v : Value) : Option UInt8 := (v.int? 0 255).map fun n => UInt8.ofNat n.toNat

end UnitLoading.Json
