/-
Releasing hosts: what a host still has of a context after a loader over that context was closed.

Several loaders can share a context and have different hosts. A closing takes the units of the context away
from one host only, that of the loader that is closed, and only if it finds the context open; a loader that
is closed after another one leaves its own host as it was. So whether a host is rid of a context hangs on
which loader was closed first (`released_iff`, `kept_by_later_closing`). What is settled then is settled for
good: a closed context is sealed, and a host that has nothing of it gets nothing of it.
-/
import UnitLoading.Proofs.Closing

namespace UnitLoading

variable {s t : System} {c : ContextId} {h : HostId} {name : String} {l : Loader} {cmds : List Command}

namespace System

-- ================================================================ asking a host

/-- A host that is asked gives its live unit. -/
theorem findLoaded_answer (s : System) (h : HostId) (c : ContextId) (name : String) :
    (s.perform (.findLoaded h c name)).1 = .ofLookup (s.loaded? h c name) := by
  show Answer.ofLookup (s.findLoaded h c name).1 = _
  rw [findLoaded_eq, fst_handOut]

theorem absent_iff_loaded?_none :
    (s.perform (.findLoaded h c name)).1 = .absent ↔ s.loaded? h c name = none := by
  rw [findLoaded_answer]
  cases s.loaded? h c name <;> simp [Answer.ofLookup]

/-- The host that takes part in closing a context has nothing of it afterwards. -/
theorem loaded?_shut (s : System) (c : ContextId) (h : HostId) (name : String) :
    (s.shut c h).loaded? h c name = none := by
  have hhost : (s.shut c h).host h = (s.host h).release c := (host_setHost ..).trans (if_pos rfl)
  rw [loaded?, hhost, Host.live?_release, if_pos rfl]

end System

/-- A host that has no live unit of a name in a closed context will not get one. -/
theorem Run.loaded?_none (hr : Run Command.LoaderLevel s cmds t) (hs : s.Consistent)
    (hclosed : (s.context c).closed = true) (hnone : s.loaded? h c name = none) :
    t.loaded? h c name = none := by
  have hsealed := hr.isSealed hs hclosed
  rw [Option.eq_none_iff_forall_ne_some]
  intro u hu
  obtain ⟨hslot, halive⟩ := Host.live?_eq_some_iff.1 hu
  -- the entry would have stood there before, and its unit would have come back to life
  have hbefore : s.slot? h c name = some u := hsealed.slot hslot
  have hlived : s.alive u = true := (hr.onward hs).dead (hs.loaded hbefore) halive
  have hfound : s.loaded? h c name = some u := Host.live?_eq_some_iff.2 ⟨hbefore, hlived⟩
  rw [hnone] at hfound
  cases hfound

namespace System

-- ================================================================ when a host is released

/-- After a loader was closed, its host has nothing of its context exactly if the loader found the context
open or the host had nothing of it anyway. A host that has nothing of a closed context stays without. -/
theorem released_iff (hr : s.Reachable Command.LoaderLevel) (hl : s.Holds l.path)
    (hroot : l.context ≠ .root) :
    ((∀ name, ((s.perform (.close l)).2.perform (.findLoaded l.host l.context name)).1 = .absent) ↔
      (s.context l.context).closed = false ∨
        ∀ name, (s.perform (.findLoaded l.host l.context name)).1 = .absent) ∧
    ∀ cmds t, Run Command.LoaderLevel (s.perform (.close l)).2 cmds t → ∀ h name,
      ((s.perform (.close l)).2.perform (.findLoaded h l.context name)).1 = .absent →
        (t.perform (.findLoaded h l.context name)).1 = .absent := by
  have hreach : (s.perform (.close l)).2.Reachable Command.LoaderLevel := hr.step id hl
  have hclosed : ((s.perform (.close l)).2.context l.context).closed = true := closed_close hroot
  have hnotRoot : l.context.isRoot = false := by simpa [ContextId.isRoot] using hroot
  constructor
  · show (∀ name, ((s.close l).perform (.findLoaded l.host l.context name)).1 = .absent) ↔ _
    rw [close_eq, hnotRoot, Bool.false_or]
    cases (s.context l.context).closed with
    | true => simp
    | false =>
      refine iff_of_true ?_ (.inl rfl)
      intro name
      exact absent_iff_loaded?_none.2 (loaded?_shut s l.context l.host name)
  · intro cmds t hrun h name hnone
    rw [absent_iff_loaded?_none] at hnone ⊢
    exact hrun.loaded?_none hreach.consistent hclosed hnone

end System

/-- Two loaders that share a context and have a host each. -/
def Loader.left : Loader := ⟨⟨0⟩, ⟨1⟩, ⟨0⟩, []⟩

def Loader.right : Loader := ⟨⟨1⟩, ⟨1⟩, ⟨1⟩, []⟩

namespace System

/-- The state in which those two were made and the second has defined a unit. -/
def paired : System :=
  let hosts := ((System.initial.perform (.newHost .none)).2.perform (.newHost .none)).2
  let left := ((hosts.perform (.newContext .root)).2.perform (.loaderInContext none ⟨1⟩ [] ⟨0⟩)).2
  ((left.perform (.loaderInContext none ⟨1⟩ [] ⟨1⟩)).2.perform (.define .right ⟨"a", [1], none⟩)).2

theorem paired_holds_left : paired.Holds Loader.left.path :=
  ⟨_, List.mem_cons_of_mem _ List.mem_cons_self, List.suffix_rfl⟩

theorem paired_holds_right : paired.Holds Loader.right.path :=
  ⟨_, List.mem_cons_self, List.suffix_rfl⟩

theorem reachable_paired : paired.Reachable Command.LoaderLevel := by
  have hnone : ∀ s, System.HoldsParent s none := fun _ _ hp => absurd hp (by simp)
  refine ⟨_, .step (.step (.step (.step (.step (.step .start id trivial) id trivial) id rfl) id ?_) id ?_)
    id ?_⟩
  · exact ⟨hnone _, rfl, rfl⟩
  · exact ⟨hnone _, rfl, rfl⟩
  · exact ⟨_, List.mem_cons_self, List.suffix_rfl⟩

/-- Closed first, the second loader takes the unit away from its host. -/
theorem released_iff_paired :
    (paired.context ⟨1⟩).closed = false ∧
      ∀ name, ((paired.perform (.close .right)).2.perform (.findLoaded ⟨1⟩ ⟨1⟩ name)).1 = .absent := by
  obtain ⟨hiff, -⟩ := released_iff reachable_paired paired_holds_right (by decide)
  exact ⟨rfl, hiff.2 (.inl rfl)⟩

/-- Closed after the other one, it leaves the unit there, and both ways of resolving the name give it. -/
theorem kept_by_later_closing :
    let parted := (paired.perform (.close .left)).2
    let closed := (parted.perform (.close .right)).2
    parted.Reachable Command.LoaderLevel ∧ parted.Holds Loader.right.path ∧
      Loader.right.context ≠ .root ∧
      (closed.perform (.findLoaded Loader.right.host Loader.right.context "a")).1 = .unit ⟨1⟩ ∧
      (closed.perform (.resolve .right "a" .empty)).1 = .unit ⟨1⟩ ∧
      (closed.perform (.load .right "a" false .empty)).1 = .unit ⟨1⟩ := by
  intro parted closed
  have hreach : parted.Reachable Command.LoaderLevel := reachable_paired.step id paired_holds_left
  refine ⟨hreach, paired_holds_right, by decide, rfl, rfl, rfl⟩

end System

end UnitLoading
