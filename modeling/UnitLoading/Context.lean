/-
Contexts: domains of isolation, each with a unit cache and constant pools of its own. They form a tree
under the root. A context carries the path to the root with it, so walking up needs no other context.
-/
import UnitLoading.Cache
import UnitLoading.Constant.Pools

namespace UnitLoading

/-- The state of a context. -/
structure Context where
  /-- The contexts above this one, nearest first; the root has none, and is the last one of all others. -/
  ancestors : List ContextId
  cache : UnitCache
  pools : ConstantPools
  /-- A closed context is empty and stays so. -/
  closed : Bool
  deriving Inhabited

/-- Counts at a point in time. -/
structure ContextStats where
  id : ContextId
  /-- Cache entries, stale ones included. -/
  resident : Nat
  /-- Generations with a constant pool. -/
  constants : Nat
  /-- Notices waiting for a sweep. -/
  pendingReclamations : Nat
  closed : Bool
  deriving DecidableEq, Repr

namespace Context

/-- An empty open context below others. -/
def fresh (ancestors : List ContextId) : Context := ⟨ancestors, .empty, .empty, false⟩

/-- The context right above. -/
def parent? (x : Context) : Option ContextId := x.ancestors.head?

/-- Empties the context for good. -/
def close (x : Context) : Context :=
  { x with cache := x.cache.clear, pools := .empty, closed := true }

def stats (x : Context) (id : ContextId) : ContextStats :=
  ⟨id, x.cache.size, x.pools.size, x.cache.queue.length, x.closed⟩

end Context

end UnitLoading
