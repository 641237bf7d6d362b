/-
How keys and headers build the tables of a document. A table may be written once: a dotted key adds only to
tables that dotted keys made, and a header opens only a table that is new or that was no more than implied
by other headers.
-/
import UnitLoading.Toml.Basic

namespace UnitLoading.Toml

-- ================================================================ entries

/-- Puts a value in the place of the one under a key. -/
def Entries.replace (es : Entries) (key : String) (n : Node) : Entries :=
  es.map fun e => if e.1.text = key then (e.1, n) else e

/-- Takes the value under a key out. -/
def Entries.remove (es : Entries) (key : String) : Entries := es.filter fun e => e.1.text ≠ key

/-- A change of a table's entries that gives something back, or is not allowed. -/
abbrev Change (α : Type) := Origin → Entries → Option (α × Entries)

/-- Applies a change to the table at the end of a path; in an array of tables the path goes on in the last
one. Tables that are missing on the way are made. A path of a dotted key may not pass through a table that
was written as such, and none may pass through a value. -/
def descend (dotted : Bool) (change : Change α) : List Key → Change α
  | [], origin, es => change origin es
  | k :: ks, _, es =>
    match es.get? k.text with
    | none => do
      let origin : Origin := if dotted then .dotted else .implied
      let (a, inner) ← descend dotted change ks origin []
      return (a, es ++ [(k, .table origin none inner)])
    | some (.table origin span inner) =>
      if origin = .braces || (dotted && !origin.isImplicit) then none
      else do
        let (a, inner) ← descend dotted change ks origin inner
        return (a, es.replace k.text (.table origin span inner))
    | some (.tables items) =>
      match items.getLast? with
      | some (.table origin span inner) => do
        let (a, inner) ← descend dotted change ks origin inner
        return (a, es.replace k.text (.tables (items.dropLast ++ [.table origin span inner])))
      | _ => none
    | some _ => none

-- ================================================================ keys

/-- Adds a value under a new key. A dotted key ends in a table that dotted keys made, a plain one in a table
that they did not make. -/
def addEntry (isDotted : Bool) (k : Key) (n : Node) : Change Unit := fun origin es =>
  if (origin == .dotted) != isDotted then none
  else if (es.get? k.text).isSome then none
  else some ((), es ++ [(k, n)])

/-- Adds the value of a key with the parts `path` and `k` to a table. -/
def setKey (origin : Origin) (es : Entries) (path : List Key) (k : Key) (n : Node) : Option Entries :=
  (descend true (addEntry (!path.isEmpty) k n) path origin es).map Prod.snd

/-- The entries of a table in braces. -/
def bracesEntries (pairs : List (List Key × Key × Node)) : Option Entries :=
  pairs.foldlM (fun es p => setKey .braces es p.1 p.2.1 p.2.2) []

-- ================================================================ headers

/-- A header: the parts of its key, whether it adds to an array of tables, and its place. -/
structure Header where
  path : List Key
  key : Key
  isArray : Bool
  span : Span

/-- A document in the making. -/
structure Draft where
  /-- The entries of the document, without those of the table that is open. -/
  root : Entries
  /-- The header of the open table; before the first header the document itself is open. -/
  header : Option Header
  /-- The entries of the open table. -/
  entries : Entries

/-- The draft of an empty document. -/
def Draft.empty : Draft := ⟨[], none, []⟩

/-- Makes room for a table with a header of its own. A table that was only implied keeps its entries and
moves to where the header stands. -/
def openTable (k : Key) : Change Entries := fun _ es =>
  match es.get? k.text with
  | none => some ([], es)
  | some (.table .implied _ inner) => some (inner, es.remove k.text)
  | some _ => none

/-- Makes room for one more table in an array of tables. -/
def openItem (k : Key) : Change Entries := fun _ es =>
  match es.get? k.text with
  | none => some ([], es ++ [(k, .tables [])])
  | some (.tables _) => some ([], es)
  | some _ => none

/-- Puts a table where `openTable` made room. -/
def closeTable (k : Key) (n : Node) : Change Unit := fun _ es => some ((), es ++ [(k, n)])

/-- Puts a table where `openItem` made room. -/
def closeItem (k : Key) (n : Node) : Change Unit := fun _ es =>
  match es.get? k.text with
  | some (.tables items) => some ((), es.replace k.text (.tables (items ++ [n])))
  | _ => none

/-- Puts the open table into the document. -/
def Draft.finish (d : Draft) : Option Entries :=
  match d.header with
  | none => some d.entries
  | some h =>
    let n := Node.table .header (some h.span) d.entries
    let change := if h.isArray then closeItem h.key n else closeTable h.key n
    (descend false change h.path .header d.root).map Prod.snd

/-- Opens a table under a header. -/
def Draft.open (d : Draft) (h : Header) : Option Draft := do
  let root ← d.finish
  let change := if h.isArray then openItem h.key else openTable h.key
  let (entries, root) ← descend false change h.path .header root
  return ⟨root, some h, entries⟩

/-- Adds a key to the open table, whose place then reaches to the end of the value. -/
def Draft.add (d : Draft) (path : List Key) (k : Key) (n : Node) : Option Draft := do
  let entries ← setKey .header d.entries path k n
  let header := d.header.map fun h =>
    { h with span := ⟨h.span.start, (n.span?.getD h.span).stop⟩ }
  return { d with header, entries }

end UnitLoading.Toml
