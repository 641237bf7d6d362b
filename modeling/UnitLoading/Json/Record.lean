/-
Records as JSON: an object with a member per field, or an array with the fields' values in their order. A
field must not come twice.
-/
import UnitLoading.Json.Reader

namespace UnitLoading.Json

/-- What a record's reader is lenient about. -/
structure RecordForm where
  /-- The fields in their order. -/
  fields : List String
  /-- Whether members of other names are passed over; they are refused otherwise. -/
  passesOver : Bool
  /-- Whether an array may lack fields at its end. -/
  mayBeShort : Bool

namespace RecordForm

/-- Gathers the members of an object; a field's second member spoils the record. -/
def gather (form : RecordForm) : List (String × Value) → List (String × Value) → Option (List (String × Value))
  | found, [] => some found
  | found, (key, v) :: rest =>
    if key ∈ form.fields then
      if found.any fun m => m.1 = key then none else gather form (found ++ [(key, v)]) rest
    else if form.passesOver then gather form found rest
    else none

/-- The fields that a value gives. -/
def read? (form : RecordForm) : Value → Option (List (String × Value))
  | .object members => form.gather [] members
  | .array items =>
    if form.fields.length < items.length then none
    else if items.length < form.fields.length && !form.mayBeShort then none
    else some (form.fields.zip items)
  | _ => none

end RecordForm

/-- The value of a field that has to be there. -/
def required? (found : List (String × Value)) (name : String) (read : Value → Option α) : Option α :=
  (found.find? fun m => m.1 = name).bind fun m => read m.2

/-- The value of a field that need not be there. -/
def fieldOr? (found : List (String × Value)) (name : String) (absent : α) (read : Value → Option α) :
    Option α :=
  match found.find? fun m => m.1 = name with
  | none => some absent
  | some m => read m.2

/-- Writes an unsigned word. -/
def ofUInt64 (n : UInt64) : Value := .number (.int n.toNat)

/-- Writes something that may be missing. -/
def ofOption (write : α → Value) : Option α → Value
  | none => .null
  | some a => write a

end UnitLoading.Json
