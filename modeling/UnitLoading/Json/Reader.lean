/-
From text to JSON values. A reader takes characters off the front and gives what it read with the
characters that are left; it fails where the text is no JSON. Numbers and strings that are well formed but
have no value are read as such.
-/
import UnitLoading.Json.Number
import UnitLoading.Text.Reads

namespace UnitLoading.Json

open Text (Reads decimalDigits hexNumber)

-- ================================================================ blanks

def isBlank (c : Char) : Bool := c = ' ' || c = '\n' || c = '\t' || c = '\r'

def skipBlanks (cs : List Char) : List Char := cs.dropWhile isBlank

-- ================================================================ numbers

/-- A fraction, if a point follows: at least one digit has to come after the point. -/
def fraction : Reads (Option (List Nat))
  | '.' :: cs => match decimalDigits cs with
    | ([], _) => none
    | (ds, rest) => some (some ds, rest)
  | cs => some (none, cs)

/-- The sign of an exponent; `true` is a minus. -/
def exponentSign : List Char → Bool × List Char
  | '+' :: cs => (false, cs)
  | '-' :: cs => (true, cs)
  | cs => (false, cs)

/-- An exponent, if its letter follows. -/
def exponent : Reads (Option (Bool × List Nat))
  | c :: cs =>
    if c = 'e' || c = 'E' then
      let (negative, cs) := exponentSign cs
      match decimalDigits cs with
      | ([], _) => none
      | (ds, rest) => some (some (negative, ds), rest)
    else some (none, c :: cs)
  | [] => some (none, [])

/-- A number without its minus sign: a zero stands alone before the point. -/
def unsigned (negative : Bool) : Reads Literal := fun cs => do
  let (whole, cs) := decimalDigits cs
  if whole = [] || (whole.head? = some 0 && whole.length ≠ 1) then none
  else
    let (fraction, cs) ← fraction cs
    let (exponent, cs) ← exponent cs
    return (⟨negative, whole, fraction, exponent⟩, cs)

def number : Reads Literal
  | '-' :: cs => unsigned true cs
  | cs => unsigned false cs

-- ================================================================ strings

/-- The character of a short escape. -/
def shortEscape? (c : Char) : Option Char :=
  if c = '\x22' || c = '\\' || c = '/' then some c
  else if c = 'b' then some '\x08'
  else if c = 'f' then some '\x0c'
  else if c = 'n' then some '\n'
  else if c = 'r' then some '\r'
  else if c = 't' then some '\t'
  else none

/-- What an escaped code unit stands for: the character, or nothing for half of a surrogate pair. The other
half of a pair has to follow at once. -/
def codeUnit (n : Nat) (cs : List Char) : Option Char × List Char :=
  if n < 0xd800 || 0xdfff < n then (some (Char.ofNat n), cs)
  else if 0xdc00 ≤ n then (none, cs)
  else match cs with
    | '\\' :: 'u' :: rest => match hexNumber 4 rest with
      | some (m, rest) =>
        if 0xdc00 ≤ m && m ≤ 0xdfff then
          (some (Char.ofNat (0x10000 + (n - 0xd800) * 0x400 + (m - 0xdc00))), rest)
        else (none, cs)
      | none => (none, cs)
    | _ => (none, cs)

/-- The characters up to the closing quote; `none` among them stands for half of a surrogate pair. -/
def stringBody : Nat → Reads (List (Option Char))
  | 0, _ => none
  | _ + 1, [] => none
  | fuel + 1, c :: cs =>
    if c = '\x22' then some ([], cs)
    else if c.toNat < 0x20 then none
    else if c = '\\' then
      match cs with
      | [] => none
      | 'u' :: rest => do
        let (n, rest) ← hexNumber 4 rest
        let (c, rest) := codeUnit n rest
        let (body, rest) ← stringBody fuel rest
        return (c :: body, rest)
      | e :: rest => do
        let c ← shortEscape? e
        let (body, rest) ← stringBody fuel rest
        return (some c :: body, rest)
    else do
      let (body, rest) ← stringBody fuel cs
      return (some c :: body, rest)

/-- A string after its opening quote, or nothing for one with half of a surrogate pair. -/
def string : Reads (Option String) := fun cs => do
  let (body, rest) ← stringBody (cs.length + 1) cs
  return ((body.mapM id).map String.ofList, rest)

-- ================================================================ values

/-- A value that is written as a word. -/
def named (w : String) (v : Value) : Reads Value := fun cs => (Text.word w cs).map fun r => (v, r.2)

/-- The object of these members; one key that cannot be used spoils it. -/
def objectOf (members : List (Option String × Value)) : Value :=
  match members.mapM fun m => m.1.map fun key => (key, m.2) with
  | some members => .object members
  | none => .unusable

mutual

/-- A value, blanks before it included. -/
def value : Nat → Reads Value
  | 0, _ => none
  | fuel + 1, cs =>
    match skipBlanks cs with
    | 'n' :: rest => named "null" .null ('n' :: rest)
    | 't' :: rest => named "true" (.bool true) ('t' :: rest)
    | 'f' :: rest => named "false" (.bool false) ('f' :: rest)
    | '\x22' :: rest => do
      let (s, rest) ← string rest
      return (match s with | some s => .string s | none => .unusable, rest)
    | '[' :: rest => match skipBlanks rest with
      | ']' :: rest => some (.array [], rest)
      | rest => do
        let (items, rest) ← elements fuel rest
        return (.array items, rest)
    | '\x7b' :: rest => match skipBlanks rest with
      | '\x7d' :: rest => some (.object [], rest)
      | rest => do
        let (ms, rest) ← members fuel rest
        return (objectOf ms, rest)
    | rest => do
      let (n, rest) ← number rest
      return (n.value, rest)

/-- The rest of an array that has at least one more item. -/
def elements : Nat → Reads (List Value)
  | 0, _ => none
  | fuel + 1, cs => do
    let (v, rest) ← value fuel cs
    match skipBlanks rest with
    | ',' :: rest => do
      let (vs, rest) ← elements fuel rest
      return (v :: vs, rest)
    | ']' :: rest => some ([v], rest)
    | _ => none

/-- The rest of an object that has at least one more member. -/
def members : Nat → Reads (List (Option String × Value))
  | 0, _ => none
  | fuel + 1, cs =>
    match skipBlanks cs with
    | '\x22' :: rest => do
      let (key, rest) ← string rest
      match skipBlanks rest with
      | ':' :: rest => do
        let (v, rest) ← value fuel rest
        match skipBlanks rest with
        | ',' :: rest => do
          let (ms, rest) ← members fuel rest
          return ((key, v) :: ms, rest)
        | '\x7d' :: rest => some ([(key, v)], rest)
        | _ => none
      | _ => none
    | _ => none

end

/-- The value that a whole text stands for; blanks may follow it. -/
def Value.ofText? (text : String) : Option Value := do
  let cs := text.toList
  let (v, rest) ← value (2 * cs.length + 2) cs
  if skipBlanks rest = [] then some v else none

end UnitLoading.Json
