/-
What stands between the tokens of a TOML text: blanks, line ends and comments.
-/
import UnitLoading.Text.Reads

namespace UnitLoading.Toml

open Text (Reads)

def isBlank (c : Char) : Bool := c = ' ' || c = '\t'

def skipBlanks (cs : List Char) : List Char := cs.dropWhile isBlank

/-- The characters that may stand for themselves: the tab and everything that is no control. -/
def isPlain (c : Char) : Bool :=
  c = '\t' || (0x20 ≤ c.toNat && c.toNat ≤ 0x7e) || 0x80 ≤ c.toNat

/-- A line end: a line feed, with a carriage return before it or not. -/
def newline : Reads Unit
  | '\n' :: rest => some ((), rest)
  | '\r' :: '\n' :: rest => some ((), rest)
  | _ => none

/-- Takes a comment off, if one starts here. -/
def skipComment : List Char → List Char
  | '#' :: rest => rest.dropWhile isPlain
  | cs => cs

/-- The end of a line or of the text. -/
def lineEnd (cs : List Char) : Option (List Char) :=
  if cs = [] then some [] else (newline cs).map Prod.snd

/-- The rest of a line that holds nothing more than a comment. -/
def lineRest (cs : List Char) : Option (List Char) := lineEnd (skipComment (skipBlanks cs))

/-- Skips blanks and line ends. -/
def skipBlankLines : List Char → List Char
  | ' ' :: rest => skipBlankLines rest
  | '\t' :: rest => skipBlankLines rest
  | '\n' :: rest => skipBlankLines rest
  | '\r' :: '\n' :: rest => skipBlankLines rest
  | cs => cs

/-- Skips blanks, line ends and comments; a comment has to end with its line. -/
def skipTrivia : Nat → List Char → List Char
  | 0, cs => cs
  | fuel + 1, cs =>
    let cs := skipBlankLines cs
    match cs with
    | '#' :: _ => match newline (skipComment cs) with
      | some ((), rest) => skipTrivia fuel rest
      | none => cs
    | _ => cs

end UnitLoading.Toml
