/-
The configuration of a loader in TOML. Every key is optional and may come in any order; a key of another
name and a value of another type are refused, and of several faults the first in the document is reported.
-/
import UnitLoading.Config.Basic
import UnitLoading.Error
import UnitLoading.Text.Quoted
import UnitLoading.Binary64.Shortest
import UnitLoading.Toml.Reader
import UnitLoading.Toml.Report
import UnitLoading.Toml.Writer

namespace UnitLoading

open Toml (Node Scalar Span Key Entries Mismatch)

namespace LoaderConfig

-- ================================================================ what was found instead

/-- A double in a report has a point, even if it is an integer. -/
def floatText (x : Binary64) : String :=
  if x.isFinite && !x.text.toList.contains '.' then x.text ++ ".0" else x.text

/-- What a value is, as a report says it; a date counts as a map. -/
def kindText : Node → String
  | .scalar _ (.string s) => "string " ++ Text.Quoted.quote s
  | .scalar _ (.integer n) => s!"integer `{n.toInt}`"
  | .scalar _ (.float x) => s!"floating point `{floatText x}`"
  | .scalar _ (.boolean b) => s!"boolean `{b}`"
  | .scalar _ .dateTime => "map"
  | .array .. => "sequence"
  | .table .. => "map"
  | .tables _ => "sequence"

/-- The mismatch of a value that is of another type; what has no place of its own is shown by its key. -/
def wrongType (key : Span) (n : Node) (expected : String) : Mismatch :=
  ⟨n.span?.getD key, s!"invalid type: {kindText n}, expected {expected}"⟩

/-- The mismatch of a key that is not known. -/
def unknownKey (k : Key) : Mismatch :=
  ⟨k.span, s!"unknown field `{k.text}`, expected one of " ++
    "`search_locations`, `cache_capacity`, `constants_capacity`, `isolate`"⟩

-- ================================================================ reading values

/-- A number of bytes, units or generations. -/
def readSize (key : Span) (n : Node) : Except Mismatch UInt64 :=
  match n with
  | .scalar span (.integer i) =>
    if i.toInt < 0 then
      .error ⟨span, s!"invalid value: integer `{i.toInt}`, expected usize"⟩
    else .ok (UInt64.ofNat i.toInt.toNat)
  | n => .error (wrongType key n "usize")

def readBool (key : Span) (n : Node) : Except Mismatch Bool :=
  match n with
  | .scalar _ (.boolean b) => .ok b
  | n => .error (wrongType key n "a boolean")

def readString (key : Span) (n : Node) : Except Mismatch String :=
  match n with
  | .scalar _ (.string s) => .ok s
  | n => .error (wrongType key n "a string")

/-- An array of strings, or of tables, which are none. -/
def readStrings (key : Span) (n : Node) : Except Mismatch (List String) :=
  match n with
  | .array _ items => items.mapM (readString key)
  | .tables items => items.mapM (readString key)
  | n => .error (wrongType key n "a sequence")

-- ================================================================ reading documents

/-- The configuration after one more entry of the document. -/
def readEntry (c : LoaderConfig) (e : Key × Node) : Except Mismatch LoaderConfig :=
  let (k, n) := e
  match k.text with
  | "search_locations" => (readStrings k.span n).map fun searchLocations => { c with searchLocations }
  | "cache_capacity" => (readSize k.span n).map fun cacheCapacity => { c with cacheCapacity }
  | "constants_capacity" => (readSize k.span n).map fun constantsCapacity => { c with constantsCapacity }
  | "isolate" => (readBool k.span n).map fun isolate => { c with isolate }
  | _ => .error (unknownKey k)

/-- The configuration that a document gives. -/
def ofEntries (es : Entries) : Except Mismatch LoaderConfig := es.foldlM readEntry standard

/-- The configuration that a text gives. -/
def ofToml (text : String) : Except ParseFault LoaderConfig :=
  match Toml.ofText? text with
  | none => .error .notToml
  | some es => match ofEntries es with
    | .ok c => .ok c
    | .error m => .error (.mismatch (m.report text))

-- ================================================================ writing

/-- Whether TOML has a number for every capacity: its integers are signed. -/
def isWritable (c : LoaderConfig) : Bool :=
  c.cacheCapacity.toNat ≤ Int64.maxValue.toInt && c.constantsCapacity.toNat ≤ Int64.maxValue.toInt

/-- The configuration as TOML; it is empty where a capacity cannot be written. -/
def toToml (c : LoaderConfig) : String :=
  if c.isWritable then
    "search_locations = " ++ String.ofList (Toml.writeStrings c.searchLocations) ++ "\n" ++
      s!"cache_capacity = {c.cacheCapacity.toNat}\n" ++
      s!"constants_capacity = {c.constantsCapacity.toNat}\n" ++
      s!"isolate = {c.isolate}\n"
  else ""

end LoaderConfig

end UnitLoading
