/-
Loaders and what they delegate to. A loader is made under a parent that is there already and keeps that
parent for good, so the whole delegation path is known when the loader is made: it is a list of stops that
only ever leads to older ones, and a walk along it ends.
-/
import UnitLoading.Ident
import UnitLoading.Table

namespace UnitLoading

/-- One stop of a delegation path. -/
inductive Stop where
  /-- A loader with its context and its host. -/
  | dynamic (id : LoaderId) (context : ContextId) (host : HostId)
  /-- A resolver of another make: it owns the units that it knows, and it fails hard at some names. What it
  does not know it looks up at the stops behind it. -/
  | foreign (id : LoaderId) (units : Table String UnitId) (raises : List String)

def Stop.id : Stop → LoaderId
  | dynamic id .. => id
  | foreign id .. => id

/-- A loader. -/
structure Loader where
  id : LoaderId
  context : ContextId
  host : HostId
  /-- Where it delegates to, nearest first; a root-scoped loader delegates to nothing. -/
  delegates : List Stop

/-- A foreign loader. -/
structure ForeignLoader where
  id : LoaderId
  units : Table String UnitId
  raises : List String
  /-- The path of the loader that it resolves through, if there is one. -/
  via : List Stop

/-- What a new loader delegates to. -/
inductive Parent where
  | dynamic (l : Loader)
  | foreign (f : ForeignLoader)

/-- The place of a loader in its delegation path. -/
inductive LoaderKind where
  | root
  | dynamic
  | foreign
  deriving DecidableEq, Repr

namespace Loader

/-- The loader itself as the first stop, and then its delegates. -/
def path (l : Loader) : List Stop := .dynamic l.id l.context l.host :: l.delegates

def kind (l : Loader) : LoaderKind :=
  match l.delegates with
  | [] => .root
  | .dynamic .. :: _ => .dynamic
  | .foreign .. :: _ => .foreign

end Loader

def ForeignLoader.path (f : ForeignLoader) : List Stop := .foreign f.id f.units f.raises :: f.via

def Parent.path : Parent → List Stop
  | dynamic l => l.path
  | foreign f => f.path

end UnitLoading
