/-
Resolution: from a name to a unit. A loader asks, one after the other, its context, its host, the chain of
the caller's scope, what it delegates to, and last its own search locations; the first that knows the name
decides.

Each step is a search, a step of state that may find a unit, find none or fail, and steps are put together
with `orElse`. The scope is searched once: a parent is asked without it, except that a foreign parent
starts anew with the empty scope.
-/
import UnitLoading.Scope
import UnitLoading.System.Define

namespace UnitLoading

/-- Why a resolution ended without an answer. -/
inductive Failure where
  | error (e : LoadError)
  /-- A foreign loader broke off. -/
  | raised
  deriving DecidableEq, Repr

/-- A step of a resolution. A unit that it finds comes with a handle. -/
abbrev Search := System → Except Failure (Option UnitId) × System

namespace Search

/-- The second search, if the first finds nothing. -/
def orElse (a b : Search) : Search := fun s =>
  match a s with
  | (.ok none, s) => b s
  | r => r

/-- A look-up that cannot fail. -/
def ofLookup (f : System → Option UnitId × System) : Search := fun s =>
  let (found, s) := f s
  (.ok found, s)

/-- The search that finds nothing. -/
def nothing : Search := fun s => (.ok none, s)

/-- The search in which an error counts as finding nothing. -/
def forgiving (a : Search) : Search := fun s =>
  match a s with
  | (.error (.error _), s) => (.ok none, s)
  | r => r

end Search

namespace System

-- ================================================================ the scope's chain

/-- The contexts that a scope searches, in order. -/
def chain (s : System) (scope : ResolutionScope) : List ContextId :=
  scope.chain fun c => (s.context c).ancestors

/-- The first live unit of a name in the caches of these contexts; closed ones are passed by. -/
def firstCached (name : String) : List ContextId → System → Option UnitId × System
  | [], s => (none, s)
  | c :: cs, s =>
    if (s.context c).closed then firstCached name cs s
    else match s.cached c name with
      | (none, s) => firstCached name cs s
      | r => r

/-- The first live unit of a name along the chain of a scope. -/
def resolveViaChain (s : System) (scope : ResolutionScope) (name : String) : Option UnitId × System :=
  firstCached name (s.chain scope) s

-- ================================================================ steps

/-- What resides in the context. -/
def residentStep (c : ContextId) (name : String) : Search := .ofLookup fun s => s.findResident c name

/-- What the host has loaded into the context. -/
def loadedStep (h : HostId) (c : ContextId) (name : String) : Search :=
  .ofLookup fun s => s.findLoaded h c name

/-- What the chain of the scope has, if the caller gave a scope. -/
def scopeStep (scope : Option ResolutionScope) (name : String) : Search :=
  match scope with
  | none => .nothing
  | some scope => .ofLookup fun s => s.resolveViaChain scope name

/-- What the host finds at the search locations of the loader, defined in the loader's context. -/
def supplyStep (l : LoaderId) (c : ContextId) (h : HostId) (name : String) : Search := fun s =>
  match (s.host h).locate name (s.locationsOf l) with
  | none => (.ok none, s)
  | some d => match s.defineIn c h d with
    | (.ok u, s) => (.ok (some u), s)
    | (.error e, s) => (.error (.error e), s)

/-- What a foreign loader owns. -/
def ownedStep (units : Table String UnitId) (name : String) : Search :=
  .ofLookup fun s => handOut (units.get? name, s)

/-- Resolves a name at the stops of a path. -/
def resolveAlong (name : String) : Option ResolutionScope → List Stop → Search
  | _, [] => .nothing
  | _, .foreign _ units raises :: rest => fun s =>
    if name ∈ raises then (.error .raised, s)
    else (Search.orElse (ownedStep units name)
      (resolveAlong name (some .empty) rest).forgiving) s
  | scope, .dynamic l c h :: rest =>
    (residentStep c name).orElse <|
    (loadedStep h c name).orElse <|
    (scopeStep scope name).orElse <|
    (resolveAlong name none rest).orElse <|
    supplyStep l c h name

theorem resolveAlong_foreign (name : String) (scope : Option ResolutionScope) (id : LoaderId)
    (units : Table String UnitId) (raises : List String) (rest : List Stop) :
    resolveAlong name scope (.foreign id units raises :: rest) =
      if name ∈ raises then fun s => (.error .raised, s)
      else (ownedStep units name).orElse (resolveAlong name (some .empty) rest).forgiving := by
  rw [resolveAlong]
  split <;> rfl

theorem resolveAlong_dynamic (name : String) (scope : Option ResolutionScope) (id : LoaderId) (c : ContextId)
    (h : HostId) (rest : List Stop) :
    resolveAlong name scope (.dynamic id c h :: rest) =
      (residentStep c name).orElse ((loadedStep h c name).orElse ((scopeStep scope name).orElse
        ((resolveAlong name none rest).orElse (supplyStep id c h name)))) := by
  rw [resolveAlong]

-- ================================================================ resolution

/-- The answer of a search to its caller: a name that was not found is an error. -/
def settle (l : Loader) (name : String) (r : Except Failure (Option UnitId) × System) :
    Except Failure UnitId × System :=
  match r with
  | (.ok (some u), s) => (.ok u, s)
  | (.ok none, s) => (.error (.error (.notFound name l.context)), s)
  | (.error e, s) => (.error e, s)

/-- Resolves a name for a loader. -/
def resolve (s : System) (l : Loader) (name : String) (scope : ResolutionScope) :
    Except Failure UnitId × System :=
  settle l name (resolveAlong name (some scope) l.path s)

/-- Links a unit that was found for execution, if that is wanted and has not been done before. -/
def linkFound (s : System) (h : HostId) (u : UnitId) (wanted : Bool) : Except Failure UnitId × System :=
  if wanted && !s.isLinked u then
    match s.link h u with
    | (.ok (), s) => (.ok u, s)
    | (.error e, s) => (.error (.error (.host e)), s.release u)
  else (.ok u, s)

/-- Resolves a name for execution: what the host has loaded comes first. -/
def load (s : System) (l : Loader) (name : String) (link : Bool) (scope : ResolutionScope) :
    Except Failure UnitId × System :=
  match settle l name
    ((loadedStep l.host l.context name).orElse (resolveAlong name (some scope) l.path) s) with
  | (.ok u, s) => s.linkFound l.host u link
  | r => r

end System

end UnitLoading
