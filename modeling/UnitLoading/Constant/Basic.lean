/-
Literal constants of compiled code, with the text that shows one and the equality that compares two. Two
constants are equal if they are built alike from equal parts; numbers compare by value, so a NaN makes
a constant differ even from itself.
-/
import UnitLoading.Binary64.Shortest
import UnitLoading.Text.Quoted

namespace UnitLoading

/-- A literal value in a constant pool. -/
inductive Constant where
  | nil
  | bool (b : Bool)
  | int (n : Int64)
  | float (x : Binary64)
  | str (s : String)
  | symbol (s : String)
  | keyword (s : String)
  | bytes (bs : List UInt8)
  | list (items : List Constant)
  deriving Inhabited, Repr

namespace Constant

-- ================================================================ text

/-- Texts in a row, with a space between neighbours. -/
def spaced (texts : List String) : String := " ".intercalate texts

mutual

/-- The text of a constant: strings are quoted, byte strings are given by their length only. -/
def text : Constant → String
  | .nil => "nil"
  | .bool b => toString b
  | .int n => toString n.toInt
  | .float x => x.text
  | .str s => Text.Quoted.quote s
  | .symbol s => s
  | .keyword s => ":" ++ s
  | .bytes bs => s!"#bytes[{bs.length}]"
  | .list items => "(" ++ spaced (texts items) ++ ")"

def texts : List Constant → List String
  | [] => []
  | c :: cs => text c :: texts cs

end

-- ================================================================ equality

mutual

/-- Whether two constants are equal. -/
def equal : Constant → Constant → Bool
  | .nil, .nil => true
  | .bool a, .bool b => a = b
  | .int a, .int b => a = b
  | .float x, .float y => x.equal y
  | .str a, .str b => a = b
  | .symbol a, .symbol b => a = b
  | .keyword a, .keyword b => a = b
  | .bytes a, .bytes b => a = b
  | .list a, .list b => equalItems a b
  | _, _ => false

/-- Whether two rows have the same length and equal items in the same places. -/
def equalItems : List Constant → List Constant → Bool
  | [], [] => true
  | a :: as, b :: bs => equal a b && equalItems as bs
  | _, _ => false

end

end Constant

end UnitLoading
