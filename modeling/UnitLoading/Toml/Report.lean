/-
Showing where a text goes wrong: the number of the line and of the column, the line itself, and under it
carets for the part in question. Columns count characters; carets count bytes, and stop with the line.
-/
import UnitLoading.Toml.Basic

namespace UnitLoading.Toml

/-- A part of a document that does not fit, and why. -/
structure Mismatch where
  span : Span
  reason : String
  deriving DecidableEq, Repr

/-- The number of bytes that characters take. -/
def byteLength (cs : List Char) : Nat := cs.foldl (fun n c => n + c.utf8Size) 0

/-- The characters behind the last line feed. -/
def lastLine (cs : List Char) : List Char := (cs.reverse.takeWhile (· ≠ '\n')).reverse

/-- The report of a mismatch in a text. -/
def Mismatch.report (m : Mismatch) (text : String) : String :=
  let cs := text.toList
  let before := cs.take (cs.length - m.span.start)
  let rest := cs.drop before.length
  let part := rest.take (m.span.start - m.span.stop)
  let column := (lastLine before).length
  let line := lastLine before ++ rest.takeWhile (· ≠ '\n')
  let number := toString (before.count '\n' + 1)
  let carets := max 1 (min (byteLength part) (byteLength line - column))
  let spaces (n : Nat) : String := String.ofList (List.replicate n ' ')
  let gutter := spaces (number.length + 1) ++ "|"
  let marks := String.ofList (List.replicate carets '^')
  s!"TOML parse error at line {number}, column {column + 1}\n" ++
    gutter ++ "\n" ++
    number ++ " | " ++ String.ofList line ++ "\n" ++
    gutter ++ spaces (column + 1) ++ marks ++ "\n" ++
    m.reason ++ "\n"

end UnitLoading.Toml
