/-
The constant pools of a context, one per generation. A generation, not a unit's name, finds its pool, so
code compiled before a name was redefined still finds the constants that it was compiled with.
-/
import UnitLoading.Constant.Basic
import UnitLoading.Ident
import UnitLoading.Table

namespace UnitLoading

/-- Constant pools by generation. -/
structure ConstantPools where
  pools : Table GenerationId (List Constant)
  deriving Inhabited

namespace ConstantPools

def empty : ConstantPools := ⟨.empty⟩

/-- The pool of a generation. -/
def get? (p : ConstantPools) (g : GenerationId) : Option (List Constant) := p.pools.get? g

/-- Stores a generation's pool in the place of any earlier one. -/
def register (p : ConstantPools) (g : GenerationId) (values : List Constant) : ConstantPools :=
  ⟨p.pools.insert g values⟩

/-- How many generations have a pool. -/
def size (p : ConstantPools) : Nat := p.pools.size

@[simp] theorem get?_empty (g : GenerationId) : empty.get? g = none := rfl

@[simp] theorem get?_register (p : ConstantPools) (g x : GenerationId) (values : List Constant) :
    (p.register g values).get? x = if x = g then some values else p.get? x := by
  simp [register, get?]

end ConstantPools

end UnitLoading
