/-
Handing out generation numbers: one after the other from a start, never zero, never one twice. The last
number of 32 bits is handed out too; after it every request fails. The counter has 64 bits and so has room
for the number behind the last one, where it stays.
-/
import UnitLoading.Error

namespace UnitLoading

/-- The generation with a number, if 32 bits hold it. -/
def GenerationId.ofUInt64? (n : UInt64) : Option GenerationId :=
  if n.toNat < UInt32.size then some ⟨n.toUInt32⟩ else none

/-- The state of an allocator: the number to hand out next. -/
structure GenerationAllocator where
  next : UInt64
  deriving DecidableEq, Repr

namespace GenerationAllocator

/-- An allocator whose first number is `start`, or one where `start` is zero. -/
def startingFrom (start : UInt32) : GenerationAllocator := ⟨(max start 1).toUInt64⟩

instance : Inhabited GenerationAllocator := ⟨startingFrom 1⟩

/-- The allocator with the counter one further. From the number behind the last one of 32 bits it does not
move. -/
def advance? (a : GenerationAllocator) : Option GenerationAllocator :=
  if a.next ≤ 0xffffffff then some ⟨a.next + 1⟩ else none

/-- The next number and the allocator after it. -/
def allocate (a : GenerationAllocator) : Except LoadError (GenerationId × GenerationAllocator) :=
  match a.advance?, GenerationId.ofUInt64? a.next with
  | some b, some g => .ok (g, b)
  | _, _ => .error .generationsExhausted

/-- The number that `allocate` would hand out. -/
def peek? (a : GenerationAllocator) : Option GenerationId := GenerationId.ofUInt64? a.next

-- ================================================================ up to the last number and behind it

variable {a : GenerationAllocator}

/-- The bound on the counter is the bound on what 32 bits hold. -/
theorem next_le_iff : a.next ≤ 0xffffffff ↔ a.next.toNat < UInt32.size := by
  rw [UInt64.le_iff_toNat_le, ← Nat.lt_succ_iff]
  rfl

theorem peek?_of_lt (h : a.next.toNat < UInt32.size) : a.peek? = some ⟨a.next.toUInt32⟩ := by
  rw [peek?, GenerationId.ofUInt64?, if_pos h]

theorem peek?_of_le (h : UInt32.size ≤ a.next.toNat) : a.peek? = none := by
  rw [peek?, GenerationId.ofUInt64?, if_neg (Nat.not_lt.2 h)]

theorem allocate_of_lt (h : a.next.toNat < UInt32.size) :
    a.allocate = .ok (⟨a.next.toUInt32⟩, ⟨a.next + 1⟩) := by
  rw [allocate, advance?, if_pos (next_le_iff.2 h), GenerationId.ofUInt64?, if_pos h]

theorem allocate_of_le (h : UInt32.size ≤ a.next.toNat) : a.allocate = .error .generationsExhausted := by
  rw [allocate, advance?, if_neg (mt next_le_iff.1 (Nat.not_lt.2 h))]

/-- Peeking tells just what allocating is going to give. -/
theorem peek?_eq (a : GenerationAllocator) : a.peek? = a.allocate.toOption.map Prod.fst := by
  rcases Nat.lt_or_ge a.next.toNat UInt32.size with h | h
  · rw [peek?_of_lt h, allocate_of_lt h]
    rfl
  · rw [peek?_of_le h, allocate_of_le h]
    rfl

end GenerationAllocator

end UnitLoading
