/-
What a body that runs with one more override can do to the scope.

The body is given the scope itself and may push, pop and run further bodies in it, in any order (`ScopeStep`).
Afterwards the scope is cut back to the depth that it had before. That undoes every push, however many there
were, but it puts nothing back. So what counts is how low the body takes the scope (`stays`): the overrides
below that floor are kept in their order, and a body that takes none of the earlier overrides off leaves the
scope as it was. This is exact. A body that takes an earlier override off could put the same context back, but
there is always a scope of the same depth whose contexts it does not know, and that one it does not restore
(`withOverride_restores`).

A step preserves the floor and never adds a context that it does not mention; both are shown for single steps
and for bodies at once, since a body may stand inside a step.
-/
import Mathlib.Data.Fintype.EquivFin
import UnitLoading.Scope

namespace UnitLoading

variable {c x : ContextId} {floor n : Nat}

-- ================================================================ steps and bodies

/-- What a body does with its scope, one step at a time. -/
inductive ScopeStep where
  | push (c : ContextId)
  | pop
  | withOverride (c : ContextId) (body : List ScopeStep)

namespace ScopeStep

mutual

/-- The scope after a step. -/
def run : ScopeStep → ResolutionScope → ResolutionScope
  | push c, s => s.push c
  | pop, s => s.pop.2
  | withOverride c body, s =>
    (Id.run (s.withOverride c fun inner => (pure ((), runAll body inner) : Id (Unit × ResolutionScope)))).2

/-- The scope after the steps of a body. -/
def runAll : List ScopeStep → ResolutionScope → ResolutionScope
  | [], s => s
  | step :: body, s => runAll body (step.run s)

end

mutual

/-- Whether a step never leaves less than `floor` overrides on the scope. -/
def stays (floor : Nat) : ScopeStep → ResolutionScope → Bool
  | push _, _ => true
  | pop, s => floor ≤ s.pop.2.depth
  | withOverride c body, s => staysAll floor body (s.push c)

/-- Whether no step of a body does. -/
def staysAll (floor : Nat) : List ScopeStep → ResolutionScope → Bool
  | [], _ => true
  | step :: body, s => step.stays floor s && staysAll floor body (step.run s)

end

mutual

/-- The contexts that a step pushes. -/
def mentions : ScopeStep → List ContextId
  | push c => [c]
  | pop => []
  | withOverride c body => c :: mentionsAll body

/-- The contexts that the steps of a body push. -/
def mentionsAll : List ScopeStep → List ContextId
  | [] => []
  | step :: body => step.mentions ++ mentionsAll body

end

theorem run_withOverride (c : ContextId) (body : List ScopeStep) (s : ResolutionScope) :
    (withOverride c body).run s = (runAll body (s.push c)).truncate s.depth := by
  rw [run]
  rfl

end ScopeStep

namespace ResolutionScope

-- ================================================================ cutting back

theorem depth_truncate (s : ResolutionScope) (n : Nat) : (s.truncate n).depth = min n s.depth := by
  have hlength : (s.truncate n).depth = s.depth - (s.depth - n) := List.length_drop ..
  omega

/-- Cutting back twice is cutting back to the lower depth. -/
theorem truncate_truncate (s : ResolutionScope) (h : floor ≤ n) :
    (s.truncate n).truncate floor = s.truncate floor := by
  rw [truncate, depth_truncate, truncate, truncate, List.drop_drop]
  congr 2
  omega

/-- There is nothing to cut off a scope that is not deeper. -/
theorem truncate_depth (s : ResolutionScope) : s.truncate s.depth = s := truncate_append [] s

theorem truncate_push (s : ResolutionScope) (c : ContextId) (h : floor ≤ s.depth) :
    (s.push c).truncate floor = s.truncate floor := by
  have hdepth : (s.push c).depth - floor = (s.depth - floor) + 1 := by
    have hpush : (s.push c).depth = s.depth + 1 := List.length_cons
    omega
  rw [truncate, hdepth]
  rfl

theorem truncate_pop (s : ResolutionScope) (h : floor ≤ s.pop.2.depth) :
    s.pop.2.truncate floor = s.truncate floor := by
  obtain ⟨overrides⟩ := s
  cases overrides with
  | nil => rfl
  | cons c cs => exact (truncate_push ⟨cs⟩ c h).symm

end ResolutionScope

namespace ScopeStep

open ResolutionScope

-- ================================================================ what stays below the floor

mutual

/-- A step that stays at a floor keeps the overrides below it. -/
theorem run_truncate (step : ScopeStep) {s : ResolutionScope} (hstays : step.stays floor s = true)
    (hfloor : floor ≤ s.depth) :
    floor ≤ (step.run s).depth ∧ (step.run s).truncate floor = s.truncate floor := by
  cases step with
  | push c =>
    rw [run]
    exact ⟨Nat.le_succ_of_le hfloor, truncate_push s c hfloor⟩
  | pop =>
    rw [stays, decide_eq_true_eq] at hstays
    rw [run]
    exact ⟨hstays, truncate_pop s hstays⟩
  | withOverride c body =>
    rw [stays] at hstays
    obtain ⟨hdepth, hkept⟩ := runAll_truncate body hstays (Nat.le_succ_of_le hfloor)
    rw [run_withOverride, depth_truncate, truncate_truncate _ hfloor, hkept]
    exact ⟨by omega, truncate_push s c hfloor⟩

theorem runAll_truncate (body : List ScopeStep) {s : ResolutionScope}
    (hstays : staysAll floor body s = true) (hfloor : floor ≤ s.depth) :
    floor ≤ (runAll body s).depth ∧ (runAll body s).truncate floor = s.truncate floor := by
  cases body with
  | nil =>
    rw [runAll]
    exact ⟨hfloor, rfl⟩
  | cons step body =>
    rw [staysAll, Bool.and_eq_true] at hstays
    obtain ⟨hdepth, hkept⟩ := run_truncate step hstays.1 hfloor
    rw [runAll, ← hkept]
    exact runAll_truncate body hstays.2 hdepth

end

-- ================================================================ only the depth counts

mutual

/-- How deep a scope is after a step, and whether the step stays at a floor, hangs on nothing but how deep it
was before. -/
theorem run_congr (floor : Nat) (step : ScopeStep) {s t : ResolutionScope} (h : s.depth = t.depth) :
    (step.run s).depth = (step.run t).depth ∧ step.stays floor s = step.stays floor t := by
  cases step with
  | push c =>
    rw [run, run, stays, stays]
    exact ⟨congrArg Nat.succ h, rfl⟩
  | pop =>
    have hpop : s.pop.2.depth = t.pop.2.depth := by
      rw [ResolutionScope.pop, ResolutionScope.pop, depth, depth, List.length_tail, List.length_tail]
      exact congrArg (fun k => k - 1) h
    rw [run, run, stays, stays, hpop]
    exact ⟨rfl, rfl⟩
  | withOverride c body =>
    have hpush : (s.push c).depth = (t.push c).depth := congrArg Nat.succ h
    obtain ⟨hdepth, hstays⟩ := runAll_congr floor body hpush
    rw [run_withOverride, run_withOverride, depth_truncate, depth_truncate, stays, stays, h, hdepth]
    exact ⟨rfl, hstays⟩

theorem runAll_congr (floor : Nat) (body : List ScopeStep) {s t : ResolutionScope}
    (h : s.depth = t.depth) :
    (runAll body s).depth = (runAll body t).depth ∧ staysAll floor body s = staysAll floor body t := by
  cases body with
  | nil => exact ⟨h, rfl⟩
  | cons step body =>
    obtain ⟨hdepth, hstays⟩ := run_congr floor step h
    obtain ⟨hdepth', hstays'⟩ := runAll_congr floor body hdepth
    rw [runAll, runAll, staysAll, staysAll, hstays, hstays']
    exact ⟨hdepth', rfl⟩

end

-- ================================================================ contexts that a body does not know

mutual

/-- A context that a step does not push comes to stand on the scope no more often. -/
theorem count_run_le (step : ScopeStep) (s : ResolutionScope) (hx : x ∉ step.mentions) :
    (step.run s).overrides.count x ≤ s.overrides.count x := by
  cases step with
  | push c =>
    have hne : c ≠ x := by
      rintro rfl
      exact hx List.mem_cons_self
    rw [run]
    exact Nat.le_of_eq (List.count_cons_of_ne hne)
  | pop =>
    rw [run]
    exact (List.tail_sublist _).count_le x
  | withOverride c body =>
    rw [mentions, List.mem_cons, not_or] at hx
    rw [run_withOverride]
    calc ((runAll body (s.push c)).truncate s.depth).overrides.count x
        ≤ (runAll body (s.push c)).overrides.count x := (List.drop_sublist _ _).count_le x
      _ ≤ (s.push c).overrides.count x := count_runAll_le body (s.push c) hx.2
      _ = s.overrides.count x := List.count_cons_of_ne (Ne.symm hx.1)

theorem count_runAll_le (body : List ScopeStep) (s : ResolutionScope) (hx : x ∉ mentionsAll body) :
    (runAll body s).overrides.count x ≤ s.overrides.count x := by
  cases body with
  | nil => exact Nat.le_refl _
  | cons step body =>
    rw [mentionsAll, List.mem_append, not_or] at hx
    rw [runAll]
    exact Nat.le_trans (count_runAll_le body _ hx.2) (count_run_le step s hx.1)

end

mutual

/-- Where a step goes below a floor, less than that many of the contexts that it does not push are left. -/
theorem count_run_lt (step : ScopeStep) {s : ResolutionScope} (hx : x ∉ step.mentions)
    (hgoes : step.stays floor s = false) :
    (step.run s).overrides.count x < floor := by
  cases step with
  | push c => cases hgoes
  | pop =>
    rw [stays, decide_eq_false_iff_not, Nat.not_le] at hgoes
    rw [run]
    exact Nat.lt_of_le_of_lt List.count_le_length hgoes
  | withOverride c body =>
    rw [mentions, List.mem_cons, not_or] at hx
    rw [stays] at hgoes
    rw [run_withOverride]
    exact Nat.lt_of_le_of_lt ((List.drop_sublist _ _).count_le x) (count_runAll_lt body hx.2 hgoes)

theorem count_runAll_lt (body : List ScopeStep) {s : ResolutionScope} (hx : x ∉ mentionsAll body)
    (hgoes : staysAll floor body s = false) : (runAll body s).overrides.count x < floor := by
  cases body with
  | nil => cases hgoes
  | cons step body =>
    rw [mentionsAll, List.mem_append, not_or] at hx
    rw [staysAll, Bool.and_eq_false_iff] at hgoes
    rw [runAll]
    rcases hgoes with hgoes | hgoes
    · exact Nat.lt_of_le_of_lt (count_runAll_le body _ hx.2) (count_run_lt step hx.1 hgoes)
    · exact count_runAll_lt body hx.2 hgoes

end

/-- There are more contexts than a body mentions. -/
theorem exists_unmentioned (cs : List ContextId) : ∃ x, x ∉ cs := by
  obtain ⟨k, hk⟩ := Infinite.exists_notMem_finset (cs.map ContextId.val).toFinset
  refine ⟨⟨k⟩, fun hmem => hk ?_⟩
  exact List.mem_toFinset.2 (List.mem_map_of_mem hmem)

-- ================================================================ restoring

/-- Running a body with one more override leaves no scope deeper than before, and it keeps the overrides below
any floor that the body stays at. So a body that takes off none of the overrides from before the call restores
the scope exactly, and no other body restores all scopes of a depth. -/
theorem withOverride_restores (c : ContextId) (body : List ScopeStep) :
    (∀ s, ((withOverride c body).run s).depth ≤ s.depth) ∧
    (∀ s floor, floor ≤ s.depth → staysAll floor body (s.push c) = true →
      floor ≤ ((withOverride c body).run s).depth ∧
        ((withOverride c body).run s).truncate floor = s.truncate floor) ∧
    (∀ s, staysAll s.depth body (s.push c) = true → (withOverride c body).run s = s) ∧
    ∀ n, (∀ s : ResolutionScope, s.depth = n → (withOverride c body).run s = s) ↔
      ∀ s : ResolutionScope, s.depth = n → staysAll n body (s.push c) = true := by
  have hrestores : ∀ s, staysAll s.depth body (s.push c) = true → (withOverride c body).run s = s := by
    intro s hstays
    have hkept := (run_truncate (withOverride c body) hstays (Nat.le_refl _)).2
    rw [run_withOverride, truncate_truncate _ (Nat.le_refl _), truncate_depth] at hkept
    rw [run_withOverride, hkept]
  refine ⟨fun s => ?_, fun s floor hfloor hstays => run_truncate (withOverride c body) hstays hfloor, hrestores,
    ?_⟩
  · rw [run_withOverride, depth_truncate]
    exact Nat.min_le_left ..
  intro n
  constructor
  · intro hall s hs
    by_contra hgoes
    rw [Bool.not_eq_true] at hgoes
    -- a scope of the same depth, made of a context that the body does not know
    obtain ⟨x, hx⟩ := exists_unmentioned (withOverride c body).mentions
    have hdepth : (⟨List.replicate n x⟩ : ResolutionScope).depth = n := List.length_replicate
    have hsame : (withOverride c body).stays n ⟨List.replicate n x⟩ = false := by
      rw [(run_congr n (withOverride c body) (hdepth.trans hs.symm)).2, stays]
      exact hgoes
    have hfewer := count_run_lt _ hx hsame
    rw [hall _ hdepth, List.count_replicate_self] at hfewer
    exact Nat.lt_irrefl _ hfewer
  · intro hstays s hs
    apply hrestores s
    rw [hs]
    exact hstays s hs

/-- A body may take the new override off, push others and nest, and yet restore the scope; one that takes an
earlier override off keeps what is below it. -/
theorem withOverride_restores_unbalanced :
    let careful : List ScopeStep :=
      [.pop, .push ⟨4⟩, .push ⟨3⟩, .withOverride ⟨4⟩ [.pop, .pop, .push ⟨3⟩], .push ⟨3⟩]
    let greedy : List ScopeStep := [.pop, .pop, .push ⟨4⟩, .push ⟨3⟩]
    (withOverride ⟨3⟩ careful).run ⟨[⟨2⟩, ⟨1⟩]⟩ = ⟨[⟨2⟩, ⟨1⟩]⟩ ∧
      ((withOverride ⟨3⟩ greedy).run ⟨[⟨2⟩, ⟨1⟩]⟩).truncate 1 = ⟨[⟨1⟩]⟩ := by
  intro careful greedy
  obtain ⟨-, -, hrestores, -⟩ := withOverride_restores ⟨3⟩ careful
  obtain ⟨-, hfloor, -⟩ := withOverride_restores ⟨3⟩ greedy
  exact ⟨hrestores ⟨[⟨2⟩, ⟨1⟩]⟩ rfl, (hfloor ⟨[⟨2⟩, ⟨1⟩]⟩ 1 (Nat.le_succ 1) rfl).2⟩

/-- An override that was there before the call and that the body takes off is lost. -/
theorem withOverride_loses :
    (withOverride ⟨2⟩ [.pop, .pop]).run ⟨[⟨1⟩]⟩ = .empty ∧
      (withOverride ⟨2⟩ [.pop, .pop]).run ⟨[⟨1⟩]⟩ ≠ (⟨[⟨1⟩]⟩ : ResolutionScope) :=
  ⟨rfl, by decide⟩

end ScopeStep

end UnitLoading
