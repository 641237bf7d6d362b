/-
The state of everything: the units built so far, the contexts, the hosts, the search locations of loaders,
and who holds what.

A unit lives as long as somebody holds a handle on it, be it running code or a foreign loader. The handles
are listed one by one; a unit dies with the last of them, and then posts a notice to the context that it
was defined in. A foreign loader in turn lives as long as it stands on the path of a loader that is held,
and gives up its handles when it goes.
-/
import UnitLoading.Context
import UnitLoading.Host
import UnitLoading.Loader

namespace UnitLoading

/-- The state of all contexts, hosts, loaders and units. -/
structure System where
  /-- Every unit built so far, dead ones included. -/
  units : Table UnitId CompiledUnit
  contexts : Table ContextId Context
  hosts : Table HostId Host
  /-- The search locations of each loader, in the order of their search. -/
  locations : Table LoaderId (List String)
  /-- One item for every handle that running code has on a unit. -/
  handles : List UnitId
  /-- One item for every handle that a foreign loader has on a unit. -/
  owned : List UnitId
  /-- The paths of the loaders that are held. -/
  paths : List (List Stop)
  /-- How many loaders have been made. -/
  loaderCount : Nat

namespace System

/-- The state before anything happened: there is the root context. -/
def initial : System where
  units := .empty
  contexts := Table.empty.insert .root (.fresh [])
  hosts := .empty
  locations := .empty
  handles := []
  owned := []
  paths := []
  loaderCount := 0

instance : Inhabited System := ⟨initial⟩

-- ================================================================ parts

/-- Whether somebody holds a handle on the unit. -/
def alive (s : System) (u : UnitId) : Bool := s.handles.contains u || s.owned.contains u

/-- The state of a context. -/
def context (s : System) (c : ContextId) : Context := (s.contexts.get? c).getD default

/-- The state of a host. -/
def host (s : System) (h : HostId) : Host := (s.hosts.get? h).getD default

/-- The search locations of a loader. -/
def locationsOf (s : System) (l : LoaderId) : List String := (s.locations.get? l).getD []

def setContext (s : System) (c : ContextId) (x : Context) : System :=
  { s with contexts := s.contexts.insert c x }

def setHost (s : System) (h : HostId) (x : Host) : System :=
  { s with hosts := s.hosts.insert h x }

/-- Applies an operation to the cache of a context. -/
def onCache (s : System) (c : ContextId) (f : UnitCache → α × UnitCache) : α × System :=
  let x := s.context c
  let (a, cache) := f x.cache
  (a, s.setContext c { x with cache })

@[simp] theorem context_setContext (s : System) (c x : ContextId) (a : Context) :
    (s.setContext c a).context x = if x = c then a else s.context x := by
  by_cases h : x = c <;> simp [context, setContext, h]

@[simp] theorem context_setHost (s : System) (h : HostId) (c : ContextId) (a : Host) :
    (s.setHost h a).context c = s.context c := rfl

@[simp] theorem host_setHost (s : System) (h x : HostId) (a : Host) :
    (s.setHost h a).host x = if x = h then a else s.host x := by
  by_cases hx : x = h <;> simp [host, setHost, hx]

@[simp] theorem host_setContext (s : System) (c : ContextId) (h : HostId) (a : Context) :
    (s.setContext c a).host h = s.host h := rfl

-- ================================================================ handles

/-- One more handle of running code on a unit. -/
def retain (s : System) (u : UnitId) : System := { s with handles := u :: s.handles }

/-- One more handle of a foreign loader on a unit. -/
def own (s : System) (u : UnitId) : System := { s with owned := u :: s.owned }

theorem alive_retain_iff {s : System} {u v : UnitId} :
    (s.retain u).alive v = true ↔ v = u ∨ s.alive v = true := by
  simp [alive, retain, or_assoc]

theorem alive_own_iff {s : System} {u v : UnitId} :
    (s.own u).alive v = true ↔ v = u ∨ s.alive v = true := by
  simp [alive, own, or_left_comm]

/-- Posts the notice of a unit that died; a detached unit has nobody to tell. -/
def bury (s : System) (u : UnitId) : System :=
  match s.units.get? u with
  | none => s
  | some unit => match unit.context with
    | none => s
    | some c => (s.onCache c fun cache => ((), cache.post ⟨unit.name, u⟩)).2

/-- Buries a unit that has just lost a handle, if that was the last one. -/
def buryIfDead (s : System) (u : UnitId) : System := if s.alive u then s else s.bury u

/-- One handle of running code less on a unit. -/
def release (s : System) (u : UnitId) : System :=
  if u ∈ s.handles then { s with handles := s.handles.erase u }.buryIfDead u else s

/-- One handle of a foreign loader less on a unit. -/
def disown (s : System) (u : UnitId) : System :=
  if u ∈ s.owned then { s with owned := s.owned.erase u }.buryIfDead u else s

/-- Builds a unit. Nobody has a handle on it yet. -/
def build (s : System) (context : Option ContextId) (d : Definition) : UnitId × System :=
  let u : UnitId := ⟨s.units.size + 1⟩
  (u, { s with units := s.units.insert u (.ofDefinition u context d) })

/-- Builds a unit that belongs to no context and gives a handle on it. -/
def buildDetached (s : System) (d : Definition) : UnitId × System :=
  let (u, s) := s.build none d
  (u, s.retain u)

/-- Raises a unit's flag; gives whether the flag was down before. -/
def markLinked (s : System) (u : UnitId) : Bool × System :=
  match s.units.get? u with
  | none => (false, s)
  | some unit => (!unit.linked, { s with units := s.units.insert u unit.markLinked })

-- ================================================================ held loaders

/-- Holds a loader by its path. -/
def hold (s : System) (path : List Stop) : System := { s with paths := path :: s.paths }

/-- Whether a loader stands on a path that is held. -/
def reaches (s : System) (id : LoaderId) : Bool := s.paths.any fun path => path.any fun stop => stop.id = id

/-- Takes the units of a foreign loader that nobody reaches any more from it. -/
def abandon (s : System) : Stop → System
  | .dynamic .. => s
  | .foreign id units _ =>
    if s.reaches id then s else units.entries.foldl (fun s entry => s.disown entry.2) s

/-- Lets a loader go. The stops of its path that nobody else reaches go with it, nearest first. -/
def letGo (s : System) (path : List Stop) : System :=
  let id := path.head?.map Stop.id
  let s := { s with paths := s.paths.eraseP fun p => p.head?.map Stop.id == id }
  path.foldl abandon s

end System

end UnitLoading
