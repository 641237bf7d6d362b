/-
From text to TOML documents. Arrays and braces may be nested less than eighty deep, and a key may have less
than eighty parts.
-/
import UnitLoading.Toml.Numbers
import UnitLoading.Toml.Strings
import UnitLoading.Toml.Tables

namespace UnitLoading.Toml

open Text (Reads)

/-- How deep values may be nested, and how many parts a key may have. -/
def limit : Nat := 79

-- ================================================================ keys

def isBareKeyChar (c : Char) : Bool := c.isAlphanum || c = '-' || c = '_'

/-- One part of a key: bare, or a string on one line. -/
def keyText : Reads String := fun cs =>
  match lineString cs with
  | some r => some r
  | none => match cs.takeWhile isBareKeyChar with
    | [] => none
    | ds => some (String.ofList ds, cs.dropWhile isBareKeyChar)

/-- One part of a key with its place; blanks around it are skipped. -/
def keyPart : Reads Key := fun cs => do
  let cs := skipBlanks cs
  let (text, rest) ← keyText cs
  return (⟨text, cs.length, rest.length⟩, skipBlanks rest)

/-- The parts of a key, the last one by itself. -/
def keyParts : Nat → Reads (List Key × Key)
  | 0, _ => none
  | fuel + 1, cs => do
    let (k, rest) ← keyPart cs
    match rest with
    | '.' :: rest => do
      let ((ks, last), rest) ← keyParts fuel rest
      return ((k :: ks, last), rest)
    | _ => return (([], k), rest)

/-- A key. -/
def key : Reads (List Key × Key) := keyParts limit

-- ================================================================ values

/-- The items of an array behind its opening bracket, each read by `item`. A comma may stand behind the last
one. -/
def arrayItems (item : Reads Node) : Nat → Reads (List Node)
  | 0, _ => none
  | fuel + 1, cs =>
    match skipTrivia cs.length cs with
    | ']' :: rest => some ([], rest)
    | cs => do
      let (n, rest) ← item cs
      match skipTrivia rest.length rest with
      | ',' :: rest => do
        let (ns, rest) ← arrayItems item fuel rest
        return (n :: ns, rest)
      | ']' :: rest => some ([n], rest)
      | _ => none

/-- A key with its value, which `item` reads. -/
def keyValue (item : Reads Node) : Reads (List Key × Key × Node) := fun cs => do
  let ((path, k), rest) ← key cs
  match rest with
  | '=' :: rest => do
    let (n, rest) ← item (skipBlanks rest)
    return ((path, k, n), rest)
  | _ => none

/-- The keys and values of a table in braces, of which at least one is left. -/
def bracesPairs (item : Reads Node) : Nat → Reads (List (List Key × Key × Node))
  | 0, _ => none
  | fuel + 1, cs => do
    let (p, rest) ← keyValue item cs
    match skipBlanks rest with
    | ',' :: rest => do
      let (ps, rest) ← bracesPairs item fuel rest
      return (p :: ps, rest)
    | '\x7d' :: rest => some ([p], rest)
    | _ => none

/-- A date, a time or a number. -/
def numeral : Reads Scalar := fun cs =>
  ((dateTime cs).map fun r => (.dateTime, r.2)).or <|
  ((float cs).map fun r => (.float r.1, r.2)).or <|
  (integer cs).map fun r => (.integer r.1, r.2)

/-- A value without parts; its first character tells which kind it is. -/
def scalar : Reads Scalar
  | [] => none
  | c :: cs =>
    if c = '\x22' || c = '\x27' then (string (c :: cs)).map fun r => (.string r.1, r.2)
    else if c = '+' || c = '-' || c.isDigit then numeral (c :: cs)
    else if c = 't' then (Text.word "true" (c :: cs)).map fun r => (.boolean true, r.2)
    else if c = 'f' then (Text.word "false" (c :: cs)).map fun r => (.boolean false, r.2)
    else (namedFloat (c :: cs)).map fun r => (.float r.1, r.2)

/-- A value in which arrays and braces are nested no deeper than `depth`. -/
def value : Nat → Reads Node
  | depth, '[' :: cs =>
    match depth with
    | 0 => none
    | depth + 1 => do
      let (items, rest) ← arrayItems (value depth) (cs.length + 1) cs
      return (.array ⟨cs.length + 1, rest.length⟩ items, rest)
  | depth, '\x7b' :: cs =>
    match depth with
    | 0 => none
    | depth + 1 => do
      let (pairs, rest) ← match skipBlanks cs with
        | '\x7d' :: rest => some ([], rest)
        | _ => bracesPairs (value depth) (cs.length + 1) cs
      let es ← bracesEntries pairs
      return (.table .braces (some ⟨cs.length + 1, rest.length⟩) es, rest)
  | _, cs => do
    let (v, rest) ← scalar cs
    return (.scalar ⟨cs.length, rest.length⟩ v, rest)

-- ================================================================ documents

/-- A header from its first bracket on. -/
def header : Reads Header := fun cs =>
  match cs with
  | '[' :: '[' :: rest => do
    let ((path, k), rest) ← key rest
    let (_, rest) ← Text.word "]]" rest
    return (⟨path, k, true, cs.length, rest.length⟩, rest)
  | '[' :: rest => do
    let ((path, k), rest) ← key rest
    let (_, rest) ← Text.word "]" rest
    return (⟨path, k, false, cs.length, rest.length⟩, rest)
  | _ => none

/-- The lines of a document, taken into a draft one by one. -/
def lines : Nat → Draft → List Char → Option Draft
  | 0, _, _ => none
  | fuel + 1, d, cs =>
    match skipBlanks cs with
    | [] => some d
    | '[' :: cs => do
      let (h, rest) ← header ('[' :: cs)
      let rest ← lineRest rest
      lines fuel (← d.open h) rest
    | c :: cs =>
      if c = '#' || c = '\n' || c = '\r' then do lines fuel d (← lineRest (c :: cs))
      else do
        let ((path, k, n), rest) ← keyValue (value limit) (c :: cs)
        let rest ← lineRest rest
        lines fuel (← d.add path k n) rest

/-- Takes a byte order mark off the front. -/
def skipMark : List Char → List Char
  | '\ufeff' :: cs => cs
  | cs => cs

/-- The entries of the document that a text writes. -/
def ofText? (text : String) : Option Entries := do
  let cs := skipMark text.toList
  (← lines (cs.length + 1) .empty cs).finish

end UnitLoading.Toml
