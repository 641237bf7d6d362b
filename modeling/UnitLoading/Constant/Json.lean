/-
Constants as JSON: an object with the kind of the constant under `type` and its content under `value`, or
the two as a pair in an array. The members may come in either order, and others beside them are passed
over. A double that is not finite has no number in JSON and is written as null, which reads as nothing.

A content that stands before its kind has to be kept until the kind is known. All of it must be usable
then, and what was kept is read a little more freely than text is.
-/
import UnitLoading.Constant.Basic
import UnitLoading.Json.Reader

namespace UnitLoading.Constant

open Json (Value)

-- ================================================================ kinds

/-- The kinds of constants. -/
inductive Kind where
  | nil | bool | int | float | str | symbol | keyword | bytes | list
  deriving DecidableEq, Repr

/-- The kinds in their order. -/
def Kind.all : List Kind := [nil, bool, int, float, str, symbol, keyword, bytes, list]

def Kind.name : Kind → String
  | nil => "nil"
  | bool => "bool"
  | int => "int"
  | float => "float"
  | str => "str"
  | symbol => "symbol"
  | keyword => "keyword"
  | bytes => "bytes"
  | list => "list"

def Kind.ofName? (s : String) : Option Kind := Kind.all.find? fun k => k.name = s

-- ================================================================ writing

/-- A double as JSON; only a finite one is a number. -/
def floatJson (x : Binary64) : Value := if x.isFinite then .number (.real x) else .null

/-- The object of a kind and a content. -/
def tagged (k : Kind) (content : Value) : Value :=
  .object [("type", .string k.name), ("value", content)]

mutual

/-- A constant as JSON. -/
def toJson : Constant → Value
  | .nil => .object [("type", .string Kind.nil.name)]
  | .bool b => tagged .bool (.bool b)
  | .int n => tagged .int (.number (.int n.toInt))
  | .float x => tagged .float (floatJson x)
  | .str s => tagged .str (.string s)
  | .symbol s => tagged .symbol (.string s)
  | .keyword s => tagged .keyword (.string s)
  | .bytes bs => tagged .bytes (.array (bs.map fun b => .number (.int b.toNat)))
  | .list items => tagged .list (.array (toJsons items))

def toJsons : List Constant → List Value
  | [] => []
  | c :: cs => toJson c :: toJsons cs

end

-- ================================================================ reading

/-- Where a value comes from: from a text, in which arrays and objects may be nested less than `depth` deep
from here on, or from a content that was kept. -/
inductive Origin where
  | text (depth : Nat)
  | kept
  deriving DecidableEq, Repr

/-- The origin of the parts of an array or object. -/
def Origin.inner? : Origin → Option Origin
  | text depth => if 1 < depth then some (text (depth - 1)) else none
  | kept => some kept

/-- Whether a value may be kept for later. -/
def Origin.mayKeep : Origin → Value → Bool
  | text depth, v => v.fits depth
  | kept, _ => true

/-- The kind that a member gives: its name, or an object with the name as its only key over an empty
value. -/
def memberKind? (o : Origin) : Value → Option Kind
  | .string s => Kind.ofName? s
  | .object [(s, v)] => do
    let _ ← o.inner?
    match o, v with
    | _, .null => Kind.ofName? s
    | .kept, .object [] => Kind.ofName? s
    | _, _ => none
  | _ => none

/-- The kind at the front of a pair: its name, or in a kept content also its place among the kinds. -/
def pairKind? (o : Origin) : Value → Option Kind
  | .string s => Kind.ofName? s
  | v => match o with
    | .kept => do Kind.all[(← v.int? 0 8).toNat]?
    | .text _ => none

/-- The kind among the members behind a content, if there is just one and no second content. -/
def soleKind? : List (String × Value) → Option Value
  | [] => none
  | (key, v) :: rest =>
    if key = "type" then
      if rest.any fun m => m.1 = "type" || m.1 = "value" then none else some v
    else if key = "value" then none
    else soleKind? rest

mutual

/-- The constant that a value stands for. -/
def ofJson? (o : Origin) : Value → Option Constant
  | .object members => do ofMembers? (← o.inner?) members
  | .array [k, content] => do
    let o ← o.inner?
    ofContent? o (← pairKind? o k) content
  | _ => none

/-- The constant of the members of an object, before a kind or a content has come. -/
def ofMembers? (o : Origin) : List (String × Value) → Option Constant
  | [] => none
  | (key, v) :: rest =>
    if key = "type" then do ofMembersOf? o (← memberKind? o v) rest
    else if key = "value" then
      if o.mayKeep v then do
        let k ← memberKind? o (← soleKind? rest)
        ofContent? .kept k v
      else none
    else ofMembers? o rest

/-- The constant of the members behind a kind. Only nil does without a content. -/
def ofMembersOf? (o : Origin) (k : Kind) : List (String × Value) → Option Constant
  | [] => if k = .nil then some .nil else none
  | (key, v) :: rest =>
    if key = "type" then none
    else if key = "value" then
      if rest.any fun m => m.1 = "type" || m.1 = "value" then none else ofContent? o k v
    else ofMembersOf? o k rest

/-- The constant of a kind with a content. -/
def ofContent? (o : Origin) (k : Kind) : Value → Option Constant
  | .null => if k = .nil then some .nil else none
  | .bool b => if k = .bool then some (.bool b) else none
  | .number n => match k with
    | .int => (Value.number n).int64?.map .int
    | .float => (Value.number n).float?.map .float
    | _ => none
  | .string s => match k with
    | .str => some (.str s)
    | .symbol => some (.symbol s)
    | .keyword => some (.keyword s)
    | _ => none
  | .array items => do
    let o ← o.inner?
    match k with
    | .bytes => (items.mapM Value.uint8?).map .bytes
    | .list => (ofItems? o items).map .list
    | _ => none
  | _ => none

/-- The constants of the items of an array. -/
def ofItems? (o : Origin) : List Value → Option (List Constant)
  | [] => some []
  | v :: vs => do return (← ofJson? o v) :: (← ofItems? o vs)

end

/-- The constant that a whole JSON text stands for. Arrays and objects may be nested 127 deep. -/
def ofText? (text : String) : Option Constant := do ofJson? (.text 128) (← Value.ofText? text)

end UnitLoading.Constant
