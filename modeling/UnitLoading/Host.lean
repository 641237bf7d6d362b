/-
A host in memory: it installs units per context and name without keeping them alive, finds the live ones
again, serves the definitions that were published under search locations, and links units. A host can be
set up to refuse certain names; a refusal leaves no trace.
-/
import UnitLoading.Error
import UnitLoading.Table
import UnitLoading.Unit

namespace UnitLoading

/-- Names that a host refuses, each with what it answers. -/
structure Refusals where
  /-- Installing fails, since the host claims to have the other name already. -/
  taken : Table String String
  /-- Installing fails for the given reason. -/
  rejected : Table String String
  /-- Linking fails for the given reason. -/
  unlinkable : Table String String
  deriving Inhabited

/-- The refusals of a host that takes everything. -/
def Refusals.none : Refusals := ⟨.empty, .empty, .empty⟩

/-- The state of a host. -/
structure Host where
  refusals : Refusals
  /-- Installed units by context and name, dead ones included. -/
  loaded : Table (ContextId × String) UnitId
  /-- Definitions by search location and name. -/
  published : Table (String × String) Definition
  installs : Nat
  links : Nat
  deriving Inhabited

namespace Host

/-- A new host with the given refusals. -/
def new (refusals : Refusals) : Host := ⟨refusals, .empty, .empty, 0, 0⟩

-- ================================================================ units

/-- The live unit that was installed in a context under a name. -/
def live? (alive : UnitId → Bool) (h : Host) (c : ContextId) (name : String) : Option UnitId :=
  (h.loaded.get? (c, name)).filter alive

/-- The live unit of a name in a context; a dead one is forgotten on the way. -/
def find (alive : UnitId → Bool) (h : Host) (c : ContextId) (name : String) : Option UnitId × Host :=
  match h.loaded.get? (c, name) with
  | none => (none, h)
  | some u => if alive u then (some u, h) else (none, { h with loaded := h.loaded.erase (c, name) })

/-- Takes a unit into the tables of a host that has nothing against its name. A unit needs bytes, and there
is room for one live unit per context and name; the same unit again changes nothing. -/
def accept (alive : UnitId → Bool) (h : Host) (c : ContextId) (u : CompiledUnit) : Except HostError Host :=
  if u.bytes.isEmpty then .error (.rejected u.name "unit has no bytes")
  else match h.live? alive c u.name with
    | some other => if other = u.id then .ok h else .error (.alreadyDefined u.name c)
    | none => .ok { h with loaded := h.loaded.insert (c, u.name) u.id, installs := h.installs + 1 }

/-- Installs a unit in a context. -/
def install (alive : UnitId → Bool) (h : Host) (c : ContextId) (u : CompiledUnit) : Except HostError Host :=
  match h.refusals.taken.get? u.name with
  | some other => .error (.alreadyDefined other c)
  | none => match h.refusals.rejected.get? u.name with
    | some reason => .error (.rejected u.name reason)
    | none => h.accept alive c u

/-- Links a unit; a unit that is linked already is not counted again. -/
def link (h : Host) (u : CompiledUnit) : Except HostError (Host × CompiledUnit) :=
  match h.refusals.unlinkable.get? u.name with
  | some reason => .error (.linkFailed u.name reason)
  | none => .ok (if u.linked then h else { h with links := h.links + 1 }, u.markLinked)

/-- Forgets every unit of a context. -/
def release (h : Host) (c : ContextId) : Host :=
  { h with loaded := h.loaded.filter fun key _ => key.1 ≠ c }

-- ================================================================ definitions

/-- Makes a definition available at a location, in the place of any earlier one of its name. -/
def publish (h : Host) (location : String) (d : Definition) : Host :=
  { h with published := h.published.insert (location, d.name) d }

/-- The definition of a name at the first of the locations that has one. -/
def locate (h : Host) (name : String) (locations : List String) : Option Definition :=
  locations.findSome? fun location => h.published.get? (location, name)

-- ================================================================ the view

theorem live?_eq_some_iff {alive : UnitId → Bool} {h : Host} {c : ContextId} {name : String} {u : UnitId} :
    h.live? alive c name = some u ↔ h.loaded.get? (c, name) = some u ∧ alive u = true := by
  simp [live?]

/-- Finding gives the live unit of the name in the context. -/
theorem fst_find (alive : UnitId → Bool) (h : Host) (c : ContextId) (name : String) :
    (h.find alive c name).1 = h.live? alive c name := by
  unfold find live?
  cases hg : h.loaded.get? (c, name) with
  | none => rfl
  | some u => cases ha : alive u <;> simp [Option.filter, ha]

/-- Finding leaves the live units of all names as they were. -/
theorem live?_snd_find (alive : UnitId → Bool) (h : Host) (c x : ContextId) (name y : String) :
    (h.find alive c name).2.live? alive x y = h.live? alive x y := by
  unfold find
  cases hg : h.loaded.get? (c, name) with
  | none => rfl
  | some u =>
    by_cases ha : alive u
    · simp [ha]
    · by_cases hx : (x, y) = (c, name)
      · cases hx; simp [live?, ha, hg, Option.filter]
      · simp only [live?, ha, Bool.false_eq_true, ↓reduceIte, Table.get?_erase, hx]

theorem live?_release (alive : UnitId → Bool) (h : Host) (c x : ContextId) (name : String) :
    (h.release c).live? alive x name = if x = c then none else h.live? alive x name := by
  have := Table.find?_filter_key (q := fun key : ContextId × String => decide (key.1 ≠ c))
    (l := h.loaded.entries) (x := (x, name))
  by_cases hx : x = c <;> simp_all [live?, release, Table.get?, Table.filter]

end Host

end UnitLoading
