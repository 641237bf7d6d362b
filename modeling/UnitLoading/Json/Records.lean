/-
The JSON forms of source positions, counts, identities, locations and configurations. An identity is its
bare number, a location its bare text.
-/
import UnitLoading.Config.Basic
import UnitLoading.Context
import UnitLoading.Json.Record
import UnitLoading.Unit

namespace UnitLoading

open Json

-- ================================================================ source positions

def SourceMeta.recordForm : RecordForm := ⟨["path", "line", "column", "form"], true, false⟩

/-- The position that a value stands for; path and form may be missing or null. -/
def SourceMeta.ofJson? (v : Value) : Option SourceMeta := do
  let found ← SourceMeta.recordForm.read? v
  return {
    path := ← fieldOr? found "path" none (Value.optional? Value.string?)
    line := ← required? found "line" Value.uint32?
    column := ← required? found "column" Value.uint32?
    form := ← fieldOr? found "form" none (Value.optional? Value.string?) }

def SourceMeta.toJson (m : SourceMeta) : Value :=
  .object [("path", ofOption .string m.path), ("line", .number (.int m.line.toNat)),
    ("column", .number (.int m.column.toNat)), ("form", ofOption .string m.form)]

-- ================================================================ counts

def ContextStats.recordForm : RecordForm :=
  ⟨["id", "resident", "constants", "pending_reclamations", "closed"], true, false⟩

/-- The counts that a value stands for; every field has to be there. -/
def ContextStats.ofJson? (v : Value) : Option ContextStats := do
  let found ← ContextStats.recordForm.read? v
  let word (name : String) : Option Nat := required? found name fun v => v.uint64?.map UInt64.toNat
  return {
    id := ⟨← word "id"⟩
    resident := ← word "resident"
    constants := ← word "constants"
    pendingReclamations := ← word "pending_reclamations"
    closed := ← required? found "closed" Value.bool? }

def ContextStats.toJson (s : ContextStats) : Value :=
  .object [("id", .number (.int s.id.val)), ("resident", .number (.int s.resident)),
    ("constants", .number (.int s.constants)),
    ("pending_reclamations", .number (.int s.pendingReclamations)), ("closed", .bool s.closed)]

-- ================================================================ identities

def ContextId.ofJson? (v : Value) : Option ContextId := v.uint64?.map fun n => ⟨n.toNat⟩

def ContextId.toJson (c : ContextId) : Value := .number (.int c.val)

def UnitId.ofJson? (v : Value) : Option UnitId := v.uint64?.map fun n => ⟨n.toNat⟩

def UnitId.toJson (u : UnitId) : Value := .number (.int u.val)

def GenerationId.ofJson? (v : Value) : Option GenerationId := v.uint32?.map GenerationId.mk

def GenerationId.toJson (g : GenerationId) : Value := .number (.int g.val.toNat)

-- ================================================================ configurations

def LoaderConfig.recordForm : RecordForm :=
  ⟨["search_locations", "cache_capacity", "constants_capacity", "isolate"], false, true⟩

/-- The configuration that a value stands for; what is missing has its standard value. -/
def LoaderConfig.ofJson? (v : Value) : Option LoaderConfig := do
  let found ← LoaderConfig.recordForm.read? v
  let d := LoaderConfig.standard
  return {
    searchLocations := ← fieldOr? found "search_locations" d.searchLocations (Value.list? Value.string?)
    cacheCapacity := ← fieldOr? found "cache_capacity" d.cacheCapacity Value.uint64?
    constantsCapacity := ← fieldOr? found "constants_capacity" d.constantsCapacity Value.uint64?
    isolate := ← fieldOr? found "isolate" d.isolate Value.bool? }

def LoaderConfig.toJson (c : LoaderConfig) : Value :=
  .object [("search_locations", .array (c.searchLocations.map .string)),
    ("cache_capacity", ofUInt64 c.cacheCapacity), ("constants_capacity", ofUInt64 c.constantsCapacity),
    ("isolate", .bool c.isolate)]

end UnitLoading
