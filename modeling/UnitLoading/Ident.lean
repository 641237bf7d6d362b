/-
Identities. Contexts, units, hosts and loaders are numbered in the order of their creation; a number is
never used twice. Context 0 is the root, which is there from the start. Generations are numbered by the
compiler, in 32 bits.
-/
namespace UnitLoading

/-- The identity of a context. -/
structure ContextId where
  val : Nat
  deriving DecidableEq, Inhabited, Repr

/-- The identity of a unit: no two definitions share one, not even two of one name. -/
structure UnitId where
  val : Nat
  deriving DecidableEq, Inhabited, Repr

/-- The identity of a host. -/
structure HostId where
  val : Nat
  deriving DecidableEq, Inhabited, Repr

/-- The identity of a loader, dynamic or foreign: both are numbered in one sequence. -/
structure LoaderId where
  val : Nat
  deriving DecidableEq, Inhabited, Repr

/-- The identity of one compiled top-level form. -/
structure GenerationId where
  val : UInt32
  deriving DecidableEq, Inhabited, Repr

/-- The root context, the last ancestor of every other one. -/
def ContextId.root : ContextId := ⟨0⟩

/-- Whether this is the root context. -/
def ContextId.isRoot (c : ContextId) : Bool := c = root

def ContextId.text (c : ContextId) : String := s!"ctx:{c.val}"

def UnitId.text (u : UnitId) : String := s!"unit:{u.val}"

def GenerationId.text (g : GenerationId) : String := s!"gen:{g.val.toNat}"

end UnitLoading
