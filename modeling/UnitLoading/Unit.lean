/-
Compiled units: executable bytes installed under a name. A unit belongs to the context it was defined in,
or to none. Everything about it is fixed when it is built, except for the one flag that says whether a
host has linked it, and that flag is only ever raised.
-/
import UnitLoading.Ident
import UnitLoading.Text.Quoted

namespace UnitLoading

/-- Where a unit came from, as its compiler reports it. Lines and columns count from one. -/
structure SourceMeta where
  path : Option String
  line : UInt32
  column : UInt32
  form : Option String
  deriving DecidableEq, Repr

/-- What a unit is built from. -/
structure Definition where
  name : String
  bytes : List UInt8
  source : Option SourceMeta
  deriving DecidableEq, Repr

/-- A unit. -/
structure CompiledUnit where
  id : UnitId
  name : String
  /-- The context it was defined in; a detached unit has none. -/
  context : Option ContextId
  bytes : List UInt8
  source : Option SourceMeta
  linked : Bool
  deriving DecidableEq, Repr

namespace CompiledUnit

/-- A new unit, not yet linked. -/
def ofDefinition (id : UnitId) (context : Option ContextId) (d : Definition) : CompiledUnit :=
  ⟨id, d.name, context, d.bytes, d.source, false⟩

/-- Whether these are exactly the bytes the unit was built from. -/
def sameBytes (u : CompiledUnit) (bytes : List UInt8) : Bool := u.bytes = bytes

/-- The unit after a host linked it. -/
def markLinked (u : CompiledUnit) : CompiledUnit := { u with linked := true }

/-- One line about the unit, for logs: its bytes are given by their number only. -/
def summary (u : CompiledUnit) : String :=
  let context := match u.context with
    | some c => s!"Some(ContextId({c.val}))"
    | none => "None"
  s!"CompiledUnit \x7b id: UnitId({u.id.val}), name: " ++ Text.Quoted.quote u.name ++
    s!", context: {context}, len: {u.bytes.length}, linked: {u.linked} \x7d"

end CompiledUnit

end UnitLoading
