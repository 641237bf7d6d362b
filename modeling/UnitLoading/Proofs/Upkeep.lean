/-
Upkeep: what looking for a unit does to a state although no unit is found.

A look-up may take out a stale entry, work off notices or, at the end of a resolution that is given up,
leave behind a unit that a host refused. `Upkeep` lists these steps, each with the circumstances under which
it is taken, and `Upkeeps` is any number of them. They keep a state consistent, and they leave its life as
it is: `SameLife` says that two states agree on everything but stale entries, pending notices, dead units
and the counters of installs and units.
-/
import Mathlib.Logic.Relation
import UnitLoading.Proofs.Consistent

namespace UnitLoading

variable {s t r : System} {c : ContextId} {h : HostId} {name : String} {u : UnitId} {d : Definition}

-- ================================================================ new units at a host

namespace Host

/-- What a host has against a new unit that is to be installed in a context. -/
def refusal? (alive : UnitId → Bool) (y : Host) (c : ContextId) (d : Definition) : Option HostError :=
  match y.refusals.taken.get? d.name, y.refusals.rejected.get? d.name with
  | some other, _ => some (.alreadyDefined other c)
  | none, some reason => some (.rejected d.name reason)
  | none, none =>
    if d.bytes.isEmpty then some (.rejected d.name "unit has no bytes")
    else if (y.live? alive c d.name).isSome then some (.alreadyDefined d.name c)
    else none

/-- A host has something against a second living unit of a name. -/
theorem live?_of_refusal?_none {alive : UnitId → Bool} {y : Host} (he : y.refusal? alive c d = none) :
    y.live? alive c d.name = none := by
  unfold refusal? at he
  split at he
  · exact absurd he (by simp)
  · exact absurd he (by simp)
  · split at he
    · exact absurd he (by simp)
    · split at he
      · exact absurd he (by simp)
      · next hnone => simpa using hnone

/-- The host with one more unit. -/
def withLoaded (y : Host) (c : ContextId) (name : String) (u : UnitId) : Host :=
  { y with loaded := y.loaded.insert (c, name) u, installs := y.installs + 1 }

/-- A host that takes a unit has it in its table afterwards, or had it before. -/
theorem install_ok {alive : UnitId → Bool} {y z : Host} {x : CompiledUnit}
    (hz : y.install alive c x = .ok z) : z = y ∨ z = y.withLoaded c x.name x.id := by
  unfold install accept at hz
  split at hz
  · cases hz
  · split at hz
    · cases hz
    · split at hz
      · cases hz
      · split at hz
        · split at hz
          · exact .inl (Except.ok.inj hz).symm
          · cases hz
        · exact .inr (Except.ok.inj hz).symm

/-- A host takes a unit that it does not have yet exactly if it has nothing against it. -/
theorem install_new {alive : UnitId → Bool} {y : Host} (hu : y.live? alive c d.name ≠ some u) :
    y.install alive c (.ofDefinition u (some c) d)
      = match y.refusal? alive c d with
        | some e => .error e
        | none => .ok (y.withLoaded c d.name u) := by
  have hname : (CompiledUnit.ofDefinition u (some c) d).name = d.name := rfl
  have hbytes : (CompiledUnit.ofDefinition u (some c) d).bytes = d.bytes := rfl
  have hid : (CompiledUnit.ofDefinition u (some c) d).id = u := rfl
  unfold install accept refusal?
  rw [hname, hbytes, hid]
  cases y.refusals.taken.get? d.name with
  | some other => rfl
  | none =>
    cases y.refusals.rejected.get? d.name with
    | some reason => rfl
    | none =>
      cases hb : d.bytes.isEmpty with
      | true => rfl
      | false =>
        cases hlive : y.live? alive c d.name with
        | none => rfl
        | some other =>
          have hne : other ≠ u := fun e => hu (by rw [hlive, e])
          simp [hne]

end Host

namespace System

-- ================================================================ the view

/-- The live unit that the cache of a context has under a name. -/
def resident? (s : System) (c : ContextId) (name : String) : Option UnitId :=
  (s.context c).cache.live? s.alive name

/-- The live unit that a host has loaded into a context under a name. -/
def loaded? (s : System) (h : HostId) (c : ContextId) (name : String) : Option UnitId :=
  (s.host h).live? s.alive c name

theorem alive_of_resident? (hu : s.resident? c name = some u) : s.alive u = true :=
  (UnitCache.live?_eq_some_iff.1 hu).2

theorem alive_of_loaded? (hu : s.loaded? h c name = some u) : s.alive u = true :=
  (Host.live?_eq_some_iff.1 hu).2

/-- Two states with the same living parts. -/
structure SameLife (s t : System) : Prop where
  handles : t.handles = s.handles
  owned : t.owned = s.owned
  paths : t.paths = s.paths
  locations : t.locations = s.locations
  loaderCount : t.loaderCount = s.loaderCount
  unit {u : UnitId} {x : CompiledUnit} : s.units.get? u = some x → t.units.get? u = some x
  knows (c : ContextId) : t.Knows c ↔ s.Knows c
  ancestors (c : ContextId) : (t.context c).ancestors = (s.context c).ancestors
  pools (c : ContextId) : (t.context c).pools = (s.context c).pools
  closed (c : ContextId) : (t.context c).closed = (s.context c).closed
  resident (c : ContextId) (name : String) : t.resident? c name = s.resident? c name
  hasHost (h : HostId) : t.HasHost h ↔ s.HasHost h
  refusals (h : HostId) : (t.host h).refusals = (s.host h).refusals
  published (h : HostId) : (t.host h).published = (s.host h).published
  links (h : HostId) : (t.host h).links = (s.host h).links
  loaded (h : HostId) (c : ContextId) (name : String) : t.loaded? h c name = s.loaded? h c name

namespace SameLife

theorem refl (s : System) : s.SameLife s :=
  ⟨rfl, rfl, rfl, rfl, rfl, id, fun _ => .rfl, fun _ => rfl, fun _ => rfl, fun _ => rfl, fun _ _ => rfl,
    fun _ => .rfl, fun _ => rfl, fun _ => rfl, fun _ => rfl, fun _ _ _ => rfl⟩

theorem trans (hst : s.SameLife t) (htr : t.SameLife r) : s.SameLife r where
  handles := htr.handles.trans hst.handles
  owned := htr.owned.trans hst.owned
  paths := htr.paths.trans hst.paths
  locations := htr.locations.trans hst.locations
  loaderCount := htr.loaderCount.trans hst.loaderCount
  unit hu := htr.unit (hst.unit hu)
  knows c := (htr.knows c).trans (hst.knows c)
  ancestors c := (htr.ancestors c).trans (hst.ancestors c)
  pools c := (htr.pools c).trans (hst.pools c)
  closed c := (htr.closed c).trans (hst.closed c)
  resident c name := (htr.resident c name).trans (hst.resident c name)
  hasHost h := (htr.hasHost h).trans (hst.hasHost h)
  refusals h := (htr.refusals h).trans (hst.refusals h)
  published h := (htr.published h).trans (hst.published h)
  links h := (htr.links h).trans (hst.links h)
  loaded h c name := (htr.loaded h c name).trans (hst.loaded h c name)

/-- The same units are alive. -/
theorem alive (hl : s.SameLife t) (u : UnitId) : t.alive u = s.alive u := by
  rw [System.alive, System.alive, hl.handles, hl.owned]

theorem onward (hl : s.SameLife t) : s.Onward t where
  built hu := by
    obtain ⟨x, hx⟩ := Option.isSome_iff_exists.1 hu
    rw [Built, hl.unit hx]
    rfl
  dead _ hu := by rwa [hl.alive] at hu

/-- A context may get another cache with the same live entries. -/
theorem setContext {cache : UnitCache} (hc : s.Knows c)
    (hlive : ∀ name, cache.live? s.alive name = s.resident? c name) :
    s.SameLife (s.setContext c { s.context c with cache }) := by
  refine ⟨rfl, rfl, rfl, rfl, rfl, id, fun a => knows_setContext hc,
    context_setContext_congr (f := Context.ancestors) rfl, context_setContext_congr (f := Context.pools) rfl,
    context_setContext_congr (f := Context.closed) rfl, fun a name => ?_, fun _ => .rfl, fun _ => rfl,
    fun _ => rfl, fun _ => rfl, fun _ _ _ => rfl⟩
  exact context_setContext_congr (f := fun x => x.cache.live? s.alive name) (hlive name) a

/-- A host may get another table with the same live entries. -/
theorem setHost {y : Host} (hh : s.HasHost h) (href : y.refusals = (s.host h).refusals)
    (hpub : y.published = (s.host h).published) (hlinks : y.links = (s.host h).links)
    (hlive : ∀ c name, y.live? s.alive c name = s.loaded? h c name) : s.SameLife (s.setHost h y) := by
  refine ⟨rfl, rfl, rfl, rfl, rfl, id, fun _ => .rfl, fun _ => rfl, fun _ => rfl, fun _ => rfl,
    fun _ _ => rfl, fun k => hasHost_setHost hh, host_setHost_congr href, host_setHost_congr hpub,
    host_setHost_congr hlinks, fun k c name => ?_⟩
  exact host_setHost_congr (f := fun y => y.live? s.alive c name) (hlive c name) k

/-- A unit that was built is nothing as long as it has no handle. -/
theorem build (hs : s.Consistent) (context : Option ContextId) (d : Definition) :
    s.SameLife (s.build context d).2 := by
  refine ⟨rfl, rfl, rfl, rfl, rfl, fun {u x} hu => ?_, fun _ => .rfl, fun _ => rfl, fun _ => rfl,
    fun _ => rfl, fun _ _ => rfl, fun _ => .rfl, fun _ => rfl, fun _ => rfl, fun _ => rfl,
    fun _ _ _ => rfl⟩
  have hb : s.Built u := by simp [Built, hu]
  exact ((Table.get?_insert ..).trans (if_neg (ne_nextUnit hs.toNumbered hb))).trans hu

/-- A death posts a notice, and that is all. -/
theorem bury (hn : s.Numbered) (u : UnitId) : s.SameLife (s.bury u) := by
  unfold System.bury
  split
  · exact .refl s
  · next x hx =>
    split
    · exact .refl s
    · next c hc => exact .setContext (hn.unit_context hx hc) fun _ => rfl

end SameLife

-- ================================================================ steps of upkeep

/-- Takes the entry of a name out of the cache of a context. -/
def evict (s : System) (c : ContextId) (name : String) : System :=
  s.setContext c { s.context c with
    cache := { (s.context c).cache with entries := (s.context c).cache.entries.erase name } }

/-- Takes the entry of a name in a context out of the table of a host. -/
def forget (s : System) (h : HostId) (c : ContextId) (name : String) : System :=
  s.setHost h { s.host h with loaded := (s.host h).loaded.erase (c, name) }

/-- The state after a host refused a new unit, which then died. -/
def refused (s : System) (c : ContextId) (d : Definition) : System :=
  (s.withNew (some c) d).release s.nextUnit

/-- One step of upkeep. -/
inductive Upkeep : System → System → Prop
  | evict {s : System} {c : ContextId} {name : String} {u : UnitId} (hc : s.Knows c)
      (hu : (s.context c).cache.entries.get? name = some u) (dead : s.alive u = false) :
      Upkeep s (s.evict c name)
  | sweep {s : System} {c : ContextId} (hc : s.Knows c) : Upkeep s (s.sweep c).2
  | forget {s : System} {h : HostId} {c : ContextId} {name : String} {u : UnitId} (hh : s.HasHost h)
      (hu : (s.host h).loaded.get? (c, name) = some u) (dead : s.alive u = false) :
      Upkeep s (s.forget h c name)
  | refuse {s : System} {c : ContextId} {h : HostId} {d : Definition} {e : HostError} (hc : s.Knows c)
      (hopen : (s.context c).closed = false) (absent : s.resident? c d.name = none)
      (he : (s.host h).refusal? s.alive c d = some e) : Upkeep s (s.refused c d)

/-- Any number of steps of upkeep. -/
def Upkeeps : System → System → Prop := Relation.ReflTransGen Upkeep

/-- A new unit that dies at once leaves nothing but its record and its notice. -/
theorem refused_eq (hs : s.Consistent) (c : ContextId) (d : Definition) :
    s.refused c d = (s.build (some c) d).2.bury s.nextUnit := by
  have hdead : (s.build (some c) d).2.alive s.nextUnit = false := not_alive_nextUnit hs
  exact release_retain_of_dead hdead

theorem Upkeep.consistent (hu : Upkeep s t) (hs : s.Consistent) : t.Consistent := by
  cases hu with
  | evict hc _ _ =>
    refine hs.setContext hc rfl (fun name u hu => ?_) fun n hn => ⟨hs.notice hn, hs.dead hn⟩
    rw [Table.get?_erase] at hu
    split at hu
    · exact absurd hu (by simp)
    · exact hs.entry hu
  | sweep hc =>
    refine hs.setContext hc rfl (fun name u hu => ?_) (fun n hn => absurd hn List.not_mem_nil)
    exact hs.entry (UnitCache.get?_purge.1 hu).1
  | forget hh _ _ =>
    refine hs.setHost hh (fun _ _ _ => hs.published) fun c name u hu => ?_
    rw [Table.get?_erase] at hu
    split at hu
    · exact absurd hu (by simp)
    · exact hs.loaded hu
  | refuse hc _ _ _ =>
    refine (hs.withNew (fun a ha => ?_) _).release _
    rw [← Option.some.inj ha]
    exact hc

theorem Upkeep.sameLife (hu : Upkeep s t) (hs : s.Consistent) : s.SameLife t := by
  cases hu with
  | @evict c name u hc hu dead =>
    refine .setContext hc fun x => ?_
    rw [resident?, UnitCache.live?, UnitCache.live?, Table.get?_erase]
    split
    · next e =>
      rw [e, hu, Option.filter_some, if_neg (by simp [dead])]
      rfl
    · rfl
  | sweep hc => exact .setContext hc fun x => UnitCache.live?_sweep (fun n hn => hs.dead hn) x
  | @forget h c name u hh hu dead =>
    refine .setHost hh rfl rfl rfl fun a x => ?_
    rw [loaded?, Host.live?, Host.live?, Table.get?_erase]
    split
    · next e =>
      rw [e, hu, Option.filter_some, if_neg (by simp [dead])]
      rfl
    · rfl
  | @refuse c h d e hc _ _ _ =>
    have hnew : (s.withNew (some c) d).Consistent :=
      hs.withNew (fun a ha => by rwa [← Option.some.inj ha]) d
    have hbuilt : (s.build (some c) d).2.Numbered := hnew.toNumbered.congr rfl rfl rfl
    rw [refused_eq hs]
    exact (SameLife.build hs (some c) d).trans (.bury hbuilt _)

theorem Upkeeps.consistent (hu : Upkeeps s t) (hs : s.Consistent) : t.Consistent := by
  induction hu with
  | refl => exact hs
  | tail _ hstep ih => exact hstep.consistent ih

/-- Upkeep leaves the life of a state as it is. -/
theorem Upkeeps.sameLife (hu : Upkeeps s t) (hs : s.Consistent) : s.SameLife t := by
  induction hu with
  | refl => exact .refl s
  | tail hrest hstep ih => exact ih.trans (hstep.sameLife (Upkeeps.consistent hrest hs))

end System

end UnitLoading
