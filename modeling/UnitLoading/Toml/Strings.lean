/-
The four ways to write a string in TOML: on one line or on several, with escapes or without. The several
lines may hold one or two quotes in a row, also right before the closing three.
-/
import UnitLoading.Toml.Trivia

namespace UnitLoading.Toml

open Text (Reads hexNumber)

/-- The character with a number, if it is one. -/
def scalarValue? (n : Nat) : Option Char := if n.isValidChar then some (Char.ofNat n) else none

/-- What stands behind a backslash. -/
def escape : Reads Char
  | [] => none
  | c :: rest =>
    if c = 'b' then some ('\x08', rest)
    else if c = 't' then some ('\t', rest)
    else if c = 'n' then some ('\n', rest)
    else if c = 'f' then some ('\x0c', rest)
    else if c = 'r' then some ('\r', rest)
    else if c = '\x22' then some ('\x22', rest)
    else if c = '\\' then some ('\\', rest)
    else if c = 'u' then do
      let (n, rest) ← hexNumber 4 rest
      return (← scalarValue? n, rest)
    else if c = 'U' then do
      let (n, rest) ← hexNumber 8 rest
      return (← scalarValue? n, rest)
    else none

/-- The rest of a string on one line, up to its closing quote. -/
def lineBody (quote : Char) (escapes : Bool) : Nat → Reads (List Char)
  | 0, _ => none
  | _ + 1, [] => none
  | fuel + 1, c :: cs =>
    if c = quote then some ([], cs)
    else if escapes && c = '\\' then do
      let (c, rest) ← escape cs
      let (body, rest) ← lineBody quote escapes fuel rest
      return (c :: body, rest)
    else if isPlain c then do
      let (body, rest) ← lineBody quote escapes fuel cs
      return (c :: body, rest)
    else none

/-- A line end that a backslash takes out, together with all blanks and line ends behind it. -/
def continuation (cs : List Char) : Option (List Char) :=
  (newline (skipBlanks cs)).map fun r => skipBlankLines r.2

/-- The rest of a string on several lines, up to its closing quotes. A line end counts as a line feed. -/
def linesBody (quote : Char) (escapes : Bool) : Nat → Reads (List Char)
  | 0, _ => none
  | _ + 1, [] => none
  | fuel + 1, c :: cs =>
    if c = quote then
      let run := ((c :: cs).takeWhile (· = quote)).length
      let rest := (c :: cs).drop run
      if run < 3 then do
        let (body, rest) ← linesBody quote escapes fuel rest
        return (List.replicate run quote ++ body, rest)
      else if run ≤ 5 then some (List.replicate (run - 3) quote, rest)
      else none
    else if escapes && c = '\\' then
      match continuation cs with
      | some rest => linesBody quote escapes fuel rest
      | none => do
        let (c, rest) ← escape cs
        let (body, rest) ← linesBody quote escapes fuel rest
        return (c :: body, rest)
    else match newline (c :: cs) with
      | some ((), rest) => do
        let (body, rest) ← linesBody quote escapes fuel rest
        return ('\n' :: body, rest)
      | none =>
        if isPlain c then do
          let (body, rest) ← linesBody quote escapes fuel cs
          return (c :: body, rest)
        else none

/-- A string on one line. -/
def lineString : Reads String
  | '\x22' :: cs => (lineBody '\x22' true (cs.length + 1) cs).map fun r => (String.ofList r.1, r.2)
  | '\x27' :: cs => (lineBody '\x27' false (cs.length + 1) cs).map fun r => (String.ofList r.1, r.2)
  | _ => none

/-- A line end right behind the opening quotes does not count. -/
def skipNewline (cs : List Char) : List Char := (Text.optional newline cs).2

/-- A string in any of its forms. -/
def string : Reads String
  | '\x22' :: '\x22' :: '\x22' :: cs =>
    let cs := skipNewline cs
    (linesBody '\x22' true (cs.length + 1) cs).map fun r => (String.ofList r.1, r.2)
  | '\x27' :: '\x27' :: '\x27' :: cs =>
    let cs := skipNewline cs
    (linesBody '\x27' false (cs.length + 1) cs).map fun r => (String.ofList r.1, r.2)
  | cs => lineString cs

end UnitLoading.Toml
