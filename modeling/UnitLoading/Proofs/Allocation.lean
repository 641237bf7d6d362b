/-
Generation numbers over a whole run of an allocator.

The counter of a run is known in closed form: it starts at the first number, goes one further with every
request, and stops behind the last number of 32 bits (`next_run`). From it follows what was handed out, a
stretch of numbers without a gap (`issued_run`), and that there is no way back from the end: a spent allocator
refuses everything and stays as it is (`run_of_le`). The counter itself has 64 bits; that it never comes near
their end is part of the closed form and assumed nowhere.
-/
import Mathlib.Algebra.Ring.Nat
import UnitLoading.Constant.Generations

namespace UnitLoading.GenerationAllocator

variable {a : GenerationAllocator}

-- ================================================================ runs

/-- A call of an allocator. -/
inductive Call where
  | allocate
  | peek
  deriving DecidableEq, Repr

/-- What a call answers. -/
inductive Answer where
  | allocated (r : Except LoadError GenerationId)
  | peeked (g? : Option GenerationId)

/-- A call's answer and the allocator after it; a request that fails leaves it as it was. -/
def perform (a : GenerationAllocator) : Call → Answer × GenerationAllocator
  | .allocate => match a.allocate with
    | .ok (g, b) => (.allocated (.ok g), b)
    | .error e => (.allocated (.error e), a)
  | .peek => (.peeked a.peek?, a)

/-- The answers to a row of calls and the allocator after them. -/
def run (a : GenerationAllocator) : List Call → List Answer × GenerationAllocator
  | [] => ([], a)
  | c :: cs => ((a.perform c).1 :: (run (a.perform c).2 cs).1, (run (a.perform c).2 cs).2)

/-- The number that an answer hands out. -/
def Answer.issued? : Answer → Option GenerationId
  | allocated (.ok g) => some g
  | _ => none

/-- The numbers that were handed out, in their order. -/
def issued (answers : List Answer) : List GenerationId := answers.filterMap Answer.issued?

/-- What a spent allocator answers. -/
def Call.refusal : Call → Answer
  | allocate => .allocated (.error .generationsExhausted)
  | peek => .peeked none

-- ================================================================ one call

theorem perform_peek (a : GenerationAllocator) : a.perform .peek = (.peeked a.peek?, a) := rfl

/-- A request that is granted moves the counter on; the counter has room for the number behind the last one. -/
theorem perform_allocate_of_lt (h : a.next.toNat < UInt32.size) :
    ∃ b, b.next.toNat = a.next.toNat + 1 ∧
      a.perform .allocate = (.allocated (.ok ⟨a.next.toUInt32⟩), b) := by
  have hroom : a.next.toNat + 1 < 2 ^ 64 := Nat.lt_trans (Nat.succ_lt_succ h) (by decide)
  refine ⟨⟨a.next + 1⟩, ?_, ?_⟩
  · rw [UInt64.toNat_add, UInt64.toNat_one, Nat.mod_eq_of_lt hroom]
  · rw [perform, allocate_of_lt h]

theorem perform_of_le (h : UInt32.size ≤ a.next.toNat) (c : Call) : a.perform c = (c.refusal, a) := by
  cases c with
  | allocate => rw [perform, allocate_of_le h, Call.refusal]
  | peek => rw [perform, peek?_of_le h, Call.refusal]

theorem peek?_eq_some_iff {g : GenerationId} : a.peek? = some g ↔ ∃ b, a.allocate = .ok (g, b) := by
  rw [peek?_eq]
  rcases a.allocate with e | ⟨g', b⟩ <;> simp [Except.toOption]

theorem peek?_eq_none_iff : a.peek? = none ↔ a.allocate = .error .generationsExhausted := by
  rcases Nat.lt_or_ge a.next.toNat UInt32.size with h | h
  · simp [peek?_of_lt h, allocate_of_lt h]
  · simp [peek?_of_le h, allocate_of_le h]

-- ================================================================ whole runs

/-- A spent allocator refuses every call and stays as it is. -/
theorem run_of_le (h : UInt32.size ≤ a.next.toNat) (cs : List Call) : a.run cs = (cs.map Call.refusal, a) := by
  induction cs with
  | nil => rfl
  | cons c cs ih => rw [run, perform_of_le h, ih, List.map_cons]

/-- The counter goes one further with every request, up to the number behind the last one. -/
theorem next_run (h : a.next.toNat ≤ UInt32.size) (cs : List Call) :
    (a.run cs).2.next.toNat = min (a.next.toNat + cs.count .allocate) UInt32.size := by
  induction cs generalizing a with
  | nil => exact (Nat.min_eq_left h).symm
  | cons c cs ih =>
    rw [run]
    cases c with
    | peek => rw [perform_peek, ih h, List.count_cons_of_ne (by decide)]
    | allocate =>
      rw [List.count_cons_self]
      rcases Nat.lt_or_eq_of_le h with hlt | hend
      · obtain ⟨b, hb, hcall⟩ := perform_allocate_of_lt hlt
        have hrest := ih (a := b) (by omega)
        rw [hcall, hrest]
        omega
      · rw [perform_of_le (Nat.le_of_eq hend.symm), ih h]
        omega

/-- The numbers of a run follow each other from the counter on; there are as many as requests, as long as
32 bits hold them. -/
theorem issued_run (h : a.next.toNat ≤ UInt32.size) (cs : List Call) :
    (issued (a.run cs).1).map (·.val.toNat) =
      List.range' a.next.toNat (min (cs.count .allocate) (UInt32.size - a.next.toNat)) := by
  induction cs generalizing a with
  | nil => simp [run, issued]
  | cons c cs ih =>
    rw [run]
    cases c with
    | peek =>
      rw [perform_peek, List.count_cons_of_ne (by decide)]
      exact ih h
    | allocate =>
      rw [List.count_cons_self]
      rcases Nat.lt_or_eq_of_le h with hlt | hend
      · obtain ⟨b, hb, hcall⟩ := perform_allocate_of_lt hlt
        have hmore : min (cs.count .allocate + 1) (UInt32.size - a.next.toNat) =
            min (cs.count .allocate) (UInt32.size - b.next.toNat) + 1 := by omega
        have hvalue : a.next.toUInt32.toNat = a.next.toNat := Nat.mod_eq_of_lt hlt
        rw [hcall, hmore, List.range'_succ, ← hb, ← ih (by omega), ← hvalue]
        rfl
      · have hnone : UInt32.size - a.next.toNat = 0 := by omega
        have hrest := ih h
        rw [perform_of_le (Nat.le_of_eq hend.symm)]
        rw [hnone, Nat.min_zero] at hrest ⊢
        exact hrest

-- ================================================================ from a start

theorem toNat_next_startingFrom (start : UInt32) : (startingFrom start).next.toNat = max start.toNat 1 := by
  have hmax : max start 1 = if start ≤ 1 then 1 else start := rfl
  rw [startingFrom, UInt32.toNat_toUInt64, hmax]
  split
  next h =>
    have := UInt32.le_iff_toNat_le.1 h
    exact (Nat.max_eq_right this).symm
  next h =>
    have := mt UInt32.le_iff_toNat_le.2 h
    exact (Nat.max_eq_left (Nat.le_of_not_le this)).symm

/-- Whatever is called in whatever order, the numbers handed out are those from the start on, or from one
where the start is zero, without a gap and each only once. In every state that a run reaches, peeking tells
what the next request gives; once the last number is gone, every further call is refused and the counter
stays behind it. -/
theorem issued_consecutive (start : UInt32) (calls : List Call) :
    let first := max start.toNat 1
    let answers := ((startingFrom start).run calls).1
    let a := ((startingFrom start).run calls).2
    (issued answers).map (·.val.toNat) =
        List.range' first (min (calls.count .allocate) (2 ^ 32 - first)) ∧
      (∀ g ∈ issued answers, 0 < g.val.toNat ∧ g.val.toNat ≤ 2 ^ 32 - 1) ∧
      a.next.toNat = min (first + calls.count .allocate) (2 ^ 32) ∧
      (∀ g, a.peek? = some g ↔ ∃ b, a.allocate = .ok (g, b)) ∧
      (a.peek? = none ↔ a.allocate = .error .generationsExhausted) ∧
      ((∃ g ∈ issued answers, g.val.toNat = 2 ^ 32 - 1) →
        a.next.toNat = 2 ^ 32 ∧ ∀ more, a.run more = (more.map Call.refusal, a)) := by
  intro first answers a
  have hfirst : (startingFrom start).next.toNat = first := toNat_next_startingFrom start
  have hle : first ≤ 2 ^ 32 := by
    have := start.toNat_lt
    omega
  have hnext : a.next.toNat = min (first + calls.count .allocate) (2 ^ 32) :=
    hfirst ▸ next_run (hfirst ▸ hle) calls
  have hissued : (issued answers).map (·.val.toNat) =
      List.range' first (min (calls.count .allocate) (2 ^ 32 - first)) :=
    hfirst ▸ issued_run (hfirst ▸ hle) calls
  have hrange : ∀ g ∈ issued answers, first ≤ g.val.toNat ∧
      g.val.toNat < first + min (calls.count .allocate) (2 ^ 32 - first) := by
    intro g hg
    have hmem := List.mem_map_of_mem (f := fun g : GenerationId => g.val.toNat) hg
    rw [hissued] at hmem
    exact List.mem_range'_1.1 hmem
  refine ⟨hissued, fun g hg => ?_, hnext, fun g => peek?_eq_some_iff, peek?_eq_none_iff, ?_⟩
  · have := hrange g hg
    omega
  · rintro ⟨g, hg, hlast⟩
    have hend : a.next.toNat = 2 ^ 32 := by
      have := hrange g hg
      omega
    exact ⟨hend, run_of_le (Nat.le_of_eq hend.symm)⟩

/-- Two numbers are left; peeking takes none of them, and the third request and all after it are refused. -/
theorem issued_consecutive_to_the_end :
    let calls : List Call := [.peek, .allocate, .allocate, .peek, .allocate]
    let answers := ((startingFrom 0xfffffffe).run calls).1
    let a := ((startingFrom 0xfffffffe).run calls).2
    (∃ g ∈ issued answers, g.val.toNat = 2 ^ 32 - 1) ∧
      (issued answers).map (·.val.toNat) = [2 ^ 32 - 2, 2 ^ 32 - 1] ∧ a.next.toNat = 2 ^ 32 ∧
      ∀ more, a.run more = (more.map Call.refusal, a) := by
  intro calls answers a
  have h := issued_consecutive 0xfffffffe calls
  have hlast : ∃ g ∈ issued answers, g.val.toNat = 2 ^ 32 - 1 := ⟨⟨0xffffffff⟩, by decide, by decide⟩
  exact ⟨hlast, h.1, h.2.2.2.2.2 hlast⟩

end UnitLoading.GenerationAllocator
