/-
Writing TOML in a form that is pleasant to read: a string stands between plain quotes if nothing in it
needs an escape, between single quotes if that saves escapes, and on lines of its own if it has line feeds
or both kinds of quotes.
-/
import UnitLoading.Text.Reads

namespace UnitLoading.Toml

-- ================================================================ strings

/-- The ways to write a string: on one line or several, with escapes or without. -/
inductive StringStyle where
  | line
  | literalLine
  | lines
  | literalLines
  deriving DecidableEq, Repr

/-- The length of the longest run of a character. -/
def longestRun (c : Char) : List Char → Nat → Nat
  | [], run => run
  | x :: xs, run => if x = c then longestRun c xs (run + 1) else max run (longestRun c xs 0)

/-- Controls that stand in no string as they are; a line feed and a tab may. -/
def needsCode (c : Char) : Bool := (c.toNat ≤ 0x1f && c ≠ '\t' && c ≠ '\n') || c = '\x7f'

/-- The style of a string: the first of the four, in the order plain line, literal line, lines and literal
lines, that writes it without escapes; where none does, lines if there is a line feed. -/
def StringStyle.of (cs : List Char) : StringStyle :=
  let codes := cs.any needsCode
  let feed := cs.contains '\n'
  let backslash := cs.contains '\\'
  let double := longestRun '\x22' cs 0
  let single := longestRun '\x27' cs 0
  if !codes && !backslash && double = 0 && !feed then .line
  else if !codes && single = 0 && !feed then .literalLine
  else if !codes && !backslash && double ≤ 2 then .lines
  else if !codes && single ≤ 2 then .literalLines
  else if feed then .lines
  else .line

/-- An upper-case hexadecimal digit. -/
def upperHex (n : Nat) : Char := if n < 10 then Char.ofNat (48 + n) else Char.ofNat (55 + n)

/-- The code of a control in four digits. -/
def controlCode (c : Char) : List Char :=
  ['\\', 'u', '0', '0', upperHex (c.toNat / 16), upperHex (c.toNat % 16)]

/-- A character between double quotes, where no more than `quotes` of them may stand in a row; `run` of
them stand right before it. Between the quotes of several lines a line feed stands for itself. -/
def escaped (lines : Bool) (run : Nat) (c : Char) : List Char :=
  if c = '\x22' then if run < (if lines then 2 else 0) then [c] else ['\\', c]
  else if c = '\\' then ['\\', '\\']
  else if c = '\x08' then ['\\', 'b']
  else if c = '\t' then ['\\', 't']
  else if c = '\x0c' then ['\\', 'f']
  else if c = '\r' then ['\\', 'r']
  else if c = '\n' then if lines then [c] else ['\\', 'n']
  else if needsCode c then controlCode c
  else [c]

/-- The characters between double quotes. -/
def escapedBody (lines : Bool) : Nat → List Char → List Char
  | _, [] => []
  | run, c :: cs =>
    let next := if c = '\x22' && run < (if lines then 2 else 0) then run + 1 else 0
    escaped lines run c ++ escapedBody lines next cs

/-- Text between quotes of several lines; it starts on a line of its own if it has line feeds. -/
def onLines (quotes : List Char) (feed : Bool) (body : List Char) : List Char :=
  quotes ++ (if feed then ['\n'] else []) ++ body ++ quotes

/-- A string in a style. -/
def writeStyled (style : StringStyle) (cs : List Char) : List Char :=
  let feed := cs.contains '\n'
  match style with
  | .line => '\x22' :: (escapedBody false 0 cs ++ ['\x22'])
  | .literalLine => '\x27' :: (cs ++ ['\x27'])
  | .lines => onLines ['\x22', '\x22', '\x22'] feed (escapedBody true 0 cs)
  | .literalLines => onLines ['\x27', '\x27', '\x27'] feed cs

/-- A string in the style that suits it. -/
def writeString (s : String) : List Char := writeStyled (.of s.toList) s.toList

-- ================================================================ arrays

/-- An array of strings: none or one on the line of the key, more on a line each with a comma behind. -/
def writeStrings : List String → List Char
  | [] => ['[', ']']
  | [s] => '[' :: (writeString s ++ [']'])
  | ss => '[' :: '\n' ::
    (ss.flatMap fun s => [' ', ' ', ' ', ' '] ++ writeString s ++ [',', '\n']) ++ [']']

end UnitLoading.Toml
