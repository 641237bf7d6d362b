/-
Text in quotes, as messages and constants show it: the quote, the backslash and the common controls have
short escapes, and a character that cannot be seen by itself is written by its number, so that two
different texts are never shown alike.
-/
import UnitLoading.Text.GraphemeExtend
import UnitLoading.Text.Unprintable

namespace UnitLoading.Text.Quoted

-- ================================================================ writing

/-- The lower-case hexadecimal digits of a number, most significant first. -/
def hexDigits (n : Nat) : List Char := Nat.toDigits 16 n

/-- How one character stands between the quotes. -/
def escape (c : Char) : List Char :=
  if c = '\x00' then ['\\', '0']
  else if c = '\t' then ['\\', 't']
  else if c = '\r' then ['\\', 'r']
  else if c = '\n' then ['\\', 'n']
  else if c = '\x22' then ['\\', '\x22']
  else if c = '\\' then ['\\', '\\']
  else if attaches c || !isPrintable c then
    ['\\', 'u', '\x7b'] ++ hexDigits c.toNat ++ ['\x7d']
  else [c]

/-- The characters between the quotes. -/
def escapeAll (cs : List Char) : List Char := cs.flatMap escape

/-- A text with its quotes. -/
def quote (s : String) : String :=
  String.ofList ('\x22' :: (escapeAll s.toList ++ ['\x22']))

end UnitLoading.Text.Quoted
