/-
The configuration of a loader.
-/
namespace UnitLoading

/-- Settings for a loader. -/
structure LoaderConfig where
  /-- The first search locations, in the order of their search. -/
  searchLocations : List String := []
  /-- How many units a fresh context should have room for. A hint: no answer depends on it. -/
  cacheCapacity : UInt64 := 64
  /-- How many generations a fresh context should have room for. A hint like the other. -/
  constantsCapacity : UInt64 := 64
  /-- Whether a loader under another one gets a context of its own. -/
  isolate : Bool := false
  deriving DecidableEq, Repr, Inhabited

/-- The settings where nothing is said. -/
def LoaderConfig.standard : LoaderConfig := {}

end UnitLoading
