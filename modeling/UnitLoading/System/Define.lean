/-
Residency: finding the units of a context and defining new ones.

A definition first sweeps the cache. A name that still has a live unit keeps it: with the same bytes the
definition gives that unit, with other bytes it fails. Otherwise a unit is built and handed to the host,
and comes to reside in the context if the host takes it.
-/
import UnitLoading.System.Basic

namespace UnitLoading.System

-- ================================================================ look-up

/-- Gives the caller a handle on what was found. -/
def handOut (r : Option UnitId × System) : Option UnitId × System :=
  match r with
  | (some u, s) => (some u, s.retain u)
  | (none, s) => (none, s)

/-- Works off the notices of a context. -/
def sweep (s : System) (c : ContextId) : Nat × System := s.onCache c UnitCache.sweep

/-- The live unit that the cache of a context has under a name. -/
def cached (s : System) (c : ContextId) (name : String) : Option UnitId × System :=
  handOut (s.onCache c fun cache => cache.get s.alive name)

/-- The live unit of a name in a context. Waiting notices are worked off first. -/
def findResident (s : System) (c : ContextId) (name : String) : Option UnitId × System :=
  let s := if (s.context c).cache.queue.isEmpty then s else (s.sweep c).2
  s.cached c name

/-- The names of the live units of a context in increasing order. -/
def residentNames (s : System) (c : ContextId) : List String := (s.context c).cache.liveNames s.alive

-- ================================================================ hosts

/-- The live unit that a host has installed in a context under a name. -/
def findLoaded (s : System) (h : HostId) (c : ContextId) (name : String) : Option UnitId × System :=
  let (found, host) := (s.host h).find s.alive c name
  handOut (found, s.setHost h host)

/-- Hands a unit to a host. -/
def install (s : System) (h : HostId) (c : ContextId) (u : UnitId) : Except HostError Unit × System :=
  match s.units.get? u with
  | none => (.ok (), s)
  | some unit => match (s.host h).install s.alive c unit with
    | .ok host => (.ok (), s.setHost h host)
    | .error e => (.error e, s)

/-- Has a host link a unit. -/
def link (s : System) (h : HostId) (u : UnitId) : Except HostError Unit × System :=
  match s.units.get? u with
  | none => (.ok (), s)
  | some unit => match (s.host h).link unit with
    | .ok (host, unit) => (.ok (), { s.setHost h host with units := s.units.insert u unit })
    | .error e => (.error e, s)

/-- Whether a unit has been linked. -/
def isLinked (s : System) (u : UnitId) : Bool := (s.units.get? u).any (·.linked)

-- ================================================================ definition

/-- Whether a unit was built from these bytes. -/
def hasBytes (s : System) (u : UnitId) (bytes : List UInt8) : Bool :=
  (s.units.get? u).any (·.sameBytes bytes)

/-- Puts a unit under a name into the cache of a context. -/
def record (s : System) (c : ContextId) (name : String) (u : UnitId) : System :=
  (s.onCache c fun cache => ((), cache.record name u)).2

/-- Builds a unit of a context and has a host install it. A unit that the host refuses dies at once. -/
def buildInstalled (s : System) (c : ContextId) (h : HostId) (d : Definition) :
    Except LoadError UnitId × System :=
  let (u, s) := s.build (some c) d
  match (s.retain u).install h c u with
  | (.ok (), s) => (.ok u, s.record c d.name u)
  | (.error e, s) => (.error e.toLoadError, s.release u)

/-- Defines a unit in a context with the help of a host. -/
def defineIn (s : System) (c : ContextId) (h : HostId) (d : Definition) :
    Except LoadError UnitId × System :=
  if (s.context c).closed then (.error (.closed c), s)
  else
    let s := (s.sweep c).2
    match (s.context c).cache.live? s.alive d.name with
    | none => s.buildInstalled c h d
    | some u =>
      if s.hasBytes u d.bytes then (.ok u, s.retain u)
      else (.error (.duplicateDefinition d.name c), s)

/-- Defines a unit in the context of a loader. -/
def define (s : System) (l : Loader) (d : Definition) : Except LoadError UnitId × System :=
  s.defineIn l.context l.host d

end UnitLoading.System
