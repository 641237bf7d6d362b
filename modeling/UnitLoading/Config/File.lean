/-
Configurations from files. What a path leads to is given as a value, so that reading it is a function.
-/
import UnitLoading.Config.Toml

namespace UnitLoading

/-- What a path leads to. -/
inductive FileState where
  | missing
  | directory
  | file (bytes : List UInt8)
  deriving DecidableEq, Repr

/-- The text of a file. -/
def FileState.text : FileState → Except ReadFault String
  | missing => .error .missing
  | directory => .error .directory
  | file bytes => match String.fromUTF8? (ByteArray.mk bytes.toArray) with
    | some text => .ok text
    | none => .error .notText

namespace LoaderConfig

/-- The configuration in the text of the file at a path. -/
def parseAt (path text : String) : Except ConfigError LoaderConfig :=
  match ofToml text with
  | .ok c => .ok c
  | .error fault => .error (.parse path fault)

/-- The configuration in a text that came from no file. -/
def parse (text : String) : Except ConfigError LoaderConfig := parseAt "<inline>" text

/-- The configuration in a file. -/
def load (path : String) (file : FileState) : Except ConfigError LoaderConfig :=
  match file.text with
  | .error fault => .error (.read path fault)
  | .ok text => parseAt path text

end LoaderConfig

end UnitLoading
