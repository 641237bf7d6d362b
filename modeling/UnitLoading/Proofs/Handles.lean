/-
What handing out and giving up handles does to a state: each operation has one equation for every part of
the state that it reaches, and leaves the others as they are. The notices of a death are the only trace of
it outside the lists of handles.
-/
import UnitLoading.System.Lifecycle

namespace UnitLoading.System

variable {s : System} {u v : UnitId} {c : ContextId}

-- ================================================================ dying

/-- The notices that the death of a unit posts to a context. -/
def obituary (s : System) (u : UnitId) (c : ContextId) : List Notice :=
  match s.units.get? u with
  | none => []
  | some x => if x.context = some c then [⟨x.name, u⟩] else []

theorem context_bury (s : System) (u : UnitId) (c : ContextId) :
    (s.bury u).context c = { s.context c with
      cache := { (s.context c).cache with queue := (s.context c).cache.queue ++ s.obituary u c } } := by
  unfold bury obituary
  cases hu : s.units.get? u with
  | none => simp
  | some x =>
    cases hx : x.context with
    | none => simp [hx]
    | some d =>
      by_cases hd : d = c
      · subst hd
        simp [hx, onCache, UnitCache.post]
      · have hd' : c ≠ d := fun e => hd e.symm
        simp [hx, onCache, hd, hd']

/-- A context has the same entries, and is open or closed, as before a death. -/
theorem tables_bury (s : System) (u : UnitId) (c : ContextId) :
    ((s.bury u).context c).cache.entries = (s.context c).cache.entries ∧
      ((s.bury u).context c).closed = (s.context c).closed := by
  rw [context_bury]
  exact ⟨rfl, rfl⟩

/-- A death touches nothing but the contexts. -/
theorem bury_eq (s : System) (u : UnitId) : s.bury u = { s with contexts := (s.bury u).contexts } := by
  unfold bury
  split
  · rfl
  · split <;> rfl

@[simp] theorem alive_bury (s : System) (u v : UnitId) : (s.bury u).alive v = s.alive v := by
  rw [bury_eq]
  rfl

/-- A handle less, and a death if it was the last one, touch nothing but handles and contexts. -/
theorem release_eq (s : System) (u : UnitId) :
    s.release u = { s with handles := s.handles.erase u, contexts := (s.release u).contexts } := by
  unfold release
  split
  · unfold buryIfDead
    split
    · rfl
    · rw [bury_eq]
  · rename_i hu
    rw [List.erase_of_not_mem hu]

theorem disown_eq (s : System) (u : UnitId) :
    s.disown u = { s with owned := s.owned.erase u, contexts := (s.disown u).contexts } := by
  unfold disown
  split
  · unfold buryIfDead
    split
    · rfl
    · rw [bury_eq]
  · rename_i hu
    rw [List.erase_of_not_mem hu]

theorem tables_buryIfDead (s : System) (u : UnitId) (c : ContextId) :
    ((s.buryIfDead u).context c).cache.entries = (s.context c).cache.entries ∧
      ((s.buryIfDead u).context c).closed = (s.context c).closed := by
  unfold buryIfDead
  split
  · exact ⟨rfl, rfl⟩
  · exact tables_bury s u c

theorem tables_release (s : System) (u : UnitId) (c : ContextId) :
    ((s.release u).context c).cache.entries = (s.context c).cache.entries ∧
      ((s.release u).context c).closed = (s.context c).closed := by
  unfold release
  split
  · exact tables_buryIfDead _ u c
  · exact ⟨rfl, rfl⟩

theorem tables_disown (s : System) (u : UnitId) (c : ContextId) :
    ((s.disown u).context c).cache.entries = (s.context c).cache.entries ∧
      ((s.disown u).context c).closed = (s.context c).closed := by
  unfold disown
  split
  · exact tables_buryIfDead _ u c
  · exact ⟨rfl, rfl⟩

@[simp] theorem handles_release (s : System) (u : UnitId) : (s.release u).handles = s.handles.erase u := by
  rw [release_eq]

@[simp] theorem owned_release (s : System) (u : UnitId) : (s.release u).owned = s.owned := by
  rw [release_eq]

@[simp] theorem handles_disown (s : System) (u : UnitId) : (s.disown u).handles = s.handles := by
  rw [disown_eq]

@[simp] theorem owned_disown (s : System) (u : UnitId) : (s.disown u).owned = s.owned.erase u := by
  rw [disown_eq]

@[simp] theorem paths_disown (s : System) (u : UnitId) : (s.disown u).paths = s.paths := by
  rw [disown_eq]

/-- A handle that comes and goes again leaves a living unit alone. -/
theorem release_retain_of_alive (hu : s.alive u = true) : (s.retain u).release u = s := by
  have hmem : u ∈ (s.retain u).handles := List.mem_cons_self
  have herase : { s.retain u with handles := (s.retain u).handles.erase u } = s := by simp [retain]
  rw [release, if_pos hmem, herase, buryIfDead, if_pos hu]

/-- With the only handle on it a unit dies. -/
theorem release_retain_of_dead (hu : s.alive u = false) : (s.retain u).release u = s.bury u := by
  have hmem : u ∈ (s.retain u).handles := List.mem_cons_self
  have herase : { s.retain u with handles := (s.retain u).handles.erase u } = s := by simp [retain]
  rw [release, if_pos hmem, herase, buryIfDead, if_neg (by simp [hu])]

/-- Whoever lives after a handle went has lived before. -/
theorem alive_of_alive_release (h : (s.release u).alive v = true) : s.alive v = true := by
  simp only [alive, handles_release, owned_release, Bool.or_eq_true, List.contains_iff_mem] at h ⊢
  exact h.imp_left List.mem_of_mem_erase

theorem alive_of_alive_disown (h : (s.disown u).alive v = true) : s.alive v = true := by
  simp only [alive, handles_disown, owned_disown, Bool.or_eq_true, List.contains_iff_mem] at h ⊢
  exact h.imp_right List.mem_of_mem_erase

end UnitLoading.System
