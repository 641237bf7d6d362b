/-
TOML documents as trees that remember their places. A place is given by the number of characters that are
left from there to the end of the text. Scalars, arrays and written tables have a place of their own;
a table that only a longer key or header implies has none.
-/
import UnitLoading.Binary64.Rounding

namespace UnitLoading.Toml

/-- A stretch of text, by the characters left at its start and at its end. -/
structure Span where
  start : Nat
  stop : Nat
  deriving DecidableEq, Inhabited, Repr

/-- A part of a key, with its place. -/
structure Key where
  text : String
  span : Span
  deriving DecidableEq, Inhabited, Repr

/-- A value without parts. -/
inductive Scalar where
  | string (s : String)
  | integer (n : Int64)
  | float (x : Binary64)
  | boolean (b : Bool)
  /-- A date, a time or both. -/
  | dateTime
  deriving DecidableEq, Repr

/-- How a table came about. -/
inductive Origin where
  /-- By a header of its own, or as the document itself. -/
  | header
  /-- By a header of a table inside it. -/
  | implied
  /-- By a dotted key. -/
  | dotted
  /-- By braces. -/
  | braces
  deriving DecidableEq, Repr

/-- Whether the table was never written as such, and may still be added to. -/
def Origin.isImplicit : Origin → Bool
  | implied | dotted => true
  | header | braces => false

/-- A part of a document. -/
inductive Node where
  | scalar (span : Span) (v : Scalar)
  | array (span : Span) (items : List Node)
  | table (origin : Origin) (span : Option Span) (entries : List (Key × Node))
  /-- The tables of an array that headers write one by one; each item is a table. -/
  | tables (items : List Node)
  deriving Inhabited, Repr

/-- The entries of a table in their order. -/
abbrev Entries := List (Key × Node)

/-- The value under a key. -/
def Entries.get? (es : Entries) (key : String) : Option Node := (es.find? fun e => e.1.text = key).map Prod.snd

/-- The place that a node itself was written at. -/
def Node.ownSpan? : Node → Option Span
  | .scalar span _ => some span
  | .array span _ => some span
  | .table _ span _ => span
  | .tables _ => none

/-- The place of a node, if it has one. An array of tables reaches from its first table to its last. -/
def Node.span? : Node → Option Span
  | .tables items => do
    let first ← (← items.head?).ownSpan?
    let last ← (← items.getLast?).ownSpan?
    return ⟨first.start, last.stop⟩
  | n => n.ownSpan?

end UnitLoading.Toml
