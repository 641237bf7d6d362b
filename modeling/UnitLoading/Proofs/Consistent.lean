/-
Consistency: what holds of every state that a program can bring about, whatever commands it gives.

# The three parts

- `Numbered`: units, contexts and hosts are numbered without gaps, so the next number is new, and what is
  on record about them names only what exists.
- `Grounded`: handles, cache entries, host entries and notices are about units that were built, and a
  notice is about a unit that is dead.
- `Wired`: a delegation path leads from newer stops to older ones, all of them known, and a ledger of the
  stops on held paths accounts for the handles that foreign loaders have.

# How it is kept

Each part reads only some fields of a state, so it is kept by updates of the other fields for nothing. The
updates that operations are made of have one lemma each (`Consistent.setContext`, `Consistent.setHost`,
`Consistent.retain`, …), stated for any new contents that are about built units. That a unit once dead
stays dead is the relation `Onward`, which composes along a run.
-/
import Mathlib.Data.List.Count
import Mathlib.Data.List.Perm.Subperm
import UnitLoading.Proofs.Handles
import UnitLoading.Proofs.Run

namespace UnitLoading

variable {s t : System} {c a : ContextId} {h k : HostId} {u v : UnitId} {x : Context} {y : Host}

namespace System

-- ================================================================ the parts

/-- Whether a unit was ever built. -/
def Built (s : System) (u : UnitId) : Prop := (s.units.get? u).isSome = true

/-- Numbers are given out in order, and records name only what exists. -/
structure Numbered (s : System) : Prop where
  unit_iff (u : UnitId) : s.Built u ↔ 0 < u.val ∧ u.val ≤ s.units.size
  unit_id {u : UnitId} {x : CompiledUnit} : s.units.get? u = some x → x.id = u
  unit_context {u : UnitId} {x : CompiledUnit} {c : ContextId} :
    s.units.get? u = some x → x.context = some c → s.Knows c
  context_iff (c : ContextId) : s.Knows c ↔ c.val < s.contexts.size
  root : s.Knows .root
  ancestor {c a : ContextId} : a ∈ (s.context c).ancestors → s.Knows a
  host_iff (h : HostId) : s.HasHost h ↔ h.val < s.hosts.size
  published {h : HostId} {location name : String} {d : Definition} :
    (s.host h).published.get? (location, name) = some d → d.name = name

/-- Everything that points at a unit points at one that was built, and notices are about dead ones. -/
structure Grounded (s : System) : Prop where
  alive {u : UnitId} : s.alive u = true → s.Built u
  entry {c : ContextId} {name : String} {u : UnitId} :
    (s.context c).cache.entries.get? name = some u → s.Built u
  loaded {h : HostId} {c : ContextId} {name : String} {u : UnitId} :
    (s.host h).loaded.get? (c, name) = some u → s.Built u
  notice {c : ContextId} {n : Notice} : n ∈ (s.context c).cache.queue → s.Built n.unit
  dead {c : ContextId} {n : Notice} : n ∈ (s.context c).cache.queue → s.alive n.unit = false

end System

/-- Whether the context and the host of a stop were made. -/
def Stop.KnownIn (s : System) : Stop → Prop
  | dynamic _ c h => s.Knows c ∧ s.HasHost h
  | foreign .. => True

/-- The units that a stop has handles on, one item for each. -/
def Stop.owns : Stop → List UnitId
  | dynamic .. => []
  | foreign _ units _ => units.values

theorem Stop.KnownIn.mono {f : Stop} (hf : f.KnownIn s) (hk : ∀ c, s.Knows c → t.Knows c)
    (hh : ∀ h, s.HasHost h → t.HasHost h) : f.KnownIn t := by
  cases f with
  | dynamic id c h => exact ⟨hk c hf.1, hh h hf.2⟩
  | foreign => trivial

namespace System

/-- A list of the stops on held paths, each of them once, that accounts for the handles of foreign
loaders. -/
structure Ledger (s : System) (stops : List Stop) : Prop where
  distinct : (stops.map Stop.id).Nodup
  numbered : ∀ f ∈ stops, f.id.val < s.loaderCount
  known : ∀ f ∈ stops, f.KnownIn s
  covers : ∀ p ∈ s.paths, ∀ f ∈ p, f ∈ stops
  owned (u : UnitId) : (stops.flatMap Stop.owns).count u ≤ s.owned.count u

/-- Held paths lead from newer stops to older ones and are accounted for. -/
structure Wired (s : System) : Prop where
  ledger : ∃ stops, s.Ledger stops
  older : ∀ p ∈ s.paths, p.Pairwise fun f g => g.id.val < f.id.val

/-- The numbering and the tables are in order. -/
structure Sound (s : System) : Prop extends Numbered s, Grounded s

/-- What holds of every state of a program. -/
structure Consistent (s : System) : Prop extends Sound s, Wired s

/-- What was built stays built, and what has died stays dead. -/
structure Onward (s t : System) : Prop where
  built {u : UnitId} : s.Built u → t.Built u
  dead {u : UnitId} : s.Built u → t.alive u = true → s.alive u = true

theorem Onward.refl (s : System) : s.Onward s := ⟨id, fun _ => id⟩

theorem Onward.trans {r : System} (hst : s.Onward t) (htr : t.Onward r) : s.Onward r where
  built hu := htr.built (hst.built hu)
  dead hu hr := hst.dead hu (htr.dead (hst.built hu) hr)

-- ================================================================ known contexts and hosts

theorem knows_setContext (hc : s.Knows c) : (s.setContext c x).Knows a ↔ s.Knows a := by
  by_cases h : a = c
  · subst h
    simp [Knows, setContext] at hc ⊢
    exact hc
  · simp [Knows, setContext, h]

theorem size_contexts_setContext (hc : s.Knows c) :
    (s.setContext c x).contexts.size = s.contexts.size := by
  rw [Knows] at hc
  simp [setContext, Table.size_insert, hc]

theorem hasHost_setHost (hh : s.HasHost h) : (s.setHost h y).HasHost k ↔ s.HasHost k := by
  by_cases e : k = h
  · subst e
    simp [HasHost, setHost] at hh ⊢
    exact hh
  · simp [HasHost, setHost, e]

theorem size_hosts_setHost (hh : s.HasHost h) : (s.setHost h y).hosts.size = s.hosts.size := by
  rw [HasHost] at hh
  simp [setHost, Table.size_insert, hh]

/-- What a new state of one context has in common with the old one, all contexts have. -/
theorem context_setContext_congr {α : Type} {f : Context → α} (hf : f x = f (s.context c)) (a : ContextId) :
    f ((s.setContext c x).context a) = f (s.context a) := by
  rw [context_setContext]
  split
  · next e => rw [e, hf]
  · rfl

theorem host_setHost_congr {α : Type} {f : Host → α} (hf : f y = f (s.host h)) (k : HostId) :
    f ((s.setHost h y).host k) = f (s.host k) := by
  rw [host_setHost]
  split
  · next e => rw [e, hf]
  · rfl

/-- Writing back what a context was changes nothing. -/
theorem setContext_context (hc : s.Knows c) : s.setContext c (s.context c) = s := by
  obtain ⟨x, hx⟩ := Option.isSome_iff_exists.1 hc
  simp only [setContext, context, hx, Option.getD_some]
  rw [Table.insert_of_get? hx]

/-- Writing back what a host was changes nothing. -/
theorem setHost_host (hh : s.HasHost h) : s.setHost h (s.host h) = s := by
  obtain ⟨y, hy⟩ := Option.isSome_iff_exists.1 hh
  simp only [setHost, host, hy, Option.getD_some]
  rw [Table.insert_of_get? hy]

-- ================================================================ each part by itself

theorem Numbered.congr (hn : s.Numbered) (hu : t.units = s.units) (hc : t.contexts = s.contexts)
    (hh : t.hosts = s.hosts) : t.Numbered := by
  cases s
  cases t
  subst hu hc hh
  exact ⟨hn.unit_iff, hn.unit_id, hn.unit_context, hn.context_iff, hn.root, hn.ancestor, hn.host_iff,
    hn.published⟩

theorem Numbered.setContext (hn : s.Numbered) (hc : s.Knows c)
    (hx : x.ancestors = (s.context c).ancestors) : (s.setContext c x).Numbered where
  unit_iff := hn.unit_iff
  unit_id := hn.unit_id
  unit_context hu hctx := (knows_setContext hc).2 (hn.unit_context hu hctx)
  context_iff a := by rw [knows_setContext hc, size_contexts_setContext hc, hn.context_iff]
  root := (knows_setContext hc).2 hn.root
  ancestor {b a} ha := by
    rw [knows_setContext hc]
    rw [context_setContext] at ha
    split at ha
    · rw [hx] at ha
      exact hn.ancestor ha
    · exact hn.ancestor ha
  host_iff := hn.host_iff
  published := hn.published

theorem Numbered.setHost (hn : s.Numbered) (hh : s.HasHost h)
    (hy : ∀ location name d, y.published.get? (location, name) = some d → d.name = name) :
    (s.setHost h y).Numbered where
  unit_iff := hn.unit_iff
  unit_id := hn.unit_id
  unit_context := hn.unit_context
  context_iff := hn.context_iff
  root := hn.root
  ancestor := hn.ancestor
  host_iff k := by rw [hasHost_setHost hh, size_hosts_setHost hh, hn.host_iff]
  published hp := by
    rw [host_setHost] at hp
    split at hp
    · exact hy _ _ _ hp
    · exact hn.published hp

/-- The tables stay grounded when handles come and go, as long as no dead unit gets one. -/
theorem Grounded.of_onward (hg : s.Grounded) (hc : t.contexts = s.contexts) (hh : t.hosts = s.hosts)
    (ho : s.Onward t) (ha : ∀ u, t.alive u = true → t.Built u) : t.Grounded := by
  have hctx : ∀ c, t.context c = s.context c := fun c => by rw [context, context, hc]
  have hhost : ∀ k, t.host k = s.host k := fun k => by rw [host, host, hh]
  refine ⟨ha _, ?_, ?_, ?_, ?_⟩
  · intro c name u hu
    rw [hctx] at hu
    exact ho.built (hg.entry hu)
  · intro k c name u hu
    rw [hhost] at hu
    exact ho.built (hg.loaded hu)
  · intro c n hn
    rw [hctx] at hn
    exact ho.built (hg.notice hn)
  · intro c n hn
    rw [hctx] at hn
    -- a notice of a living unit would be one of a unit that has come back
    by_contra hcon
    have hlive : s.alive n.unit = true := ho.dead (hg.notice hn) (by simpa using hcon)
    rw [hg.dead hn] at hlive
    exact absurd hlive (by simp)

theorem Grounded.setContext (hg : s.Grounded)
    (he : ∀ name u, x.cache.entries.get? name = some u → s.Built u)
    (hq : ∀ n ∈ x.cache.queue, s.Built n.unit ∧ s.alive n.unit = false) :
    (s.setContext c x).Grounded where
  alive := hg.alive
  entry hu := by
    rw [context_setContext] at hu
    split at hu
    · exact he _ _ hu
    · exact hg.entry hu
  loaded := hg.loaded
  notice hn := by
    rw [context_setContext] at hn
    split at hn
    · exact (hq _ hn).1
    · exact hg.notice hn
  dead hn := by
    rw [context_setContext] at hn
    split at hn
    · exact (hq _ hn).2
    · exact hg.dead hn

theorem Grounded.setHost (hg : s.Grounded)
    (hl : ∀ c name u, y.loaded.get? (c, name) = some u → s.Built u) : (s.setHost h y).Grounded where
  alive := hg.alive
  entry := hg.entry
  loaded hu := by
    rw [host_setHost] at hu
    split at hu
    · exact hl _ _ _ hu
    · exact hg.loaded hu
  notice := hg.notice
  dead := hg.dead

theorem Wired.congr (hw : s.Wired) (hp : t.paths = s.paths) (hn : t.loaderCount = s.loaderCount)
    (ho : t.owned = s.owned) (hk : ∀ c, s.Knows c → t.Knows c) (hh : ∀ h, s.HasHost h → t.HasHost h) :
    t.Wired := by
  obtain ⟨stops, hl⟩ := hw.ledger
  refine ⟨⟨stops, hl.distinct, ?_, fun f hf => Stop.KnownIn.mono (hl.known f hf) hk hh, ?_, ?_⟩, ?_⟩
  · rw [hn]
    exact hl.numbered
  · rw [hp]
    exact hl.covers
  · rw [ho]
    exact hl.owned
  · rw [hp]
    exact hw.older

-- ================================================================ updates

theorem Sound.setContext (hs : s.Sound) (hc : s.Knows c) (hx : x.ancestors = (s.context c).ancestors)
    (he : ∀ name u, x.cache.entries.get? name = some u → s.Built u)
    (hq : ∀ n ∈ x.cache.queue, s.Built n.unit ∧ s.alive n.unit = false) : (s.setContext c x).Sound where
  toNumbered := hs.toNumbered.setContext hc hx
  toGrounded := hs.toGrounded.setContext he hq

theorem Consistent.setContext (hs : s.Consistent) (hc : s.Knows c)
    (hx : x.ancestors = (s.context c).ancestors)
    (he : ∀ name u, x.cache.entries.get? name = some u → s.Built u)
    (hq : ∀ n ∈ x.cache.queue, s.Built n.unit ∧ s.alive n.unit = false) :
    (s.setContext c x).Consistent where
  toSound := hs.toSound.setContext hc hx he hq
  toWired := hs.toWired.congr rfl rfl rfl (fun _ => (knows_setContext hc).2) fun _ => id

theorem Consistent.setHost (hs : s.Consistent) (hh : s.HasHost h)
    (hy : ∀ location name d, y.published.get? (location, name) = some d → d.name = name)
    (hl : ∀ c name u, y.loaded.get? (c, name) = some u → s.Built u) : (s.setHost h y).Consistent where
  toNumbered := hs.toNumbered.setHost hh hy
  toGrounded := hs.toGrounded.setHost hl
  toWired := hs.toWired.congr rfl rfl rfl (fun _ => id) fun _ => (hasHost_setHost hh).2

-- ================================================================ handles

theorem alive_of_mem_handles (hu : u ∈ s.handles) : s.alive u = true := by
  simp [System.alive, hu]

theorem alive_of_mem_owned (hu : u ∈ s.owned) : s.alive u = true := by
  simp [System.alive, hu]

/-- Handles on live units may come, and any handle may go. -/
theorem Sound.setHandles {handles owned : List UnitId} (hs : s.Sound)
    (ha : ∀ u, u ∈ handles ∨ u ∈ owned → s.alive u = true) : { s with handles, owned }.Sound := by
  have ho : ∀ u, ({ s with handles, owned } : System).alive u = true → s.alive u = true := by
    intro u hu
    apply ha
    simpa only [System.alive, Bool.or_eq_true, List.contains_iff_mem] using hu
  exact {
    toNumbered := hs.toNumbered.congr rfl rfl rfl
    toGrounded := hs.toGrounded.of_onward rfl rfl ⟨id, fun _ => ho _⟩ fun u hu => hs.alive (ho u hu) }

/-- A notice of a dead unit may be posted anywhere. -/
theorem Sound.bury (hs : s.Sound) (hu : s.Built u) (hd : s.alive u = false) : (s.bury u).Sound := by
  unfold System.bury
  split
  · exact hs
  · next unit hunit =>
    split
    · exact hs
    · next c hc =>
      refine hs.setContext (hs.unit_context hunit hc) rfl (fun _ _ => hs.entry) fun n hn => ?_
      rcases List.mem_append.1 hn with hn | hn
      · exact ⟨hs.notice hn, hs.dead hn⟩
      · rw [List.mem_singleton] at hn
        subst hn
        exact ⟨hu, hd⟩

theorem Sound.buryIfDead (hs : s.Sound) (hu : s.Built u) : (s.buryIfDead u).Sound := by
  unfold System.buryIfDead
  split
  · exact hs
  · next hd => exact hs.bury hu (by simpa using hd)

theorem knows_bury (hn : s.Numbered) : (s.bury u).Knows c ↔ s.Knows c := by
  unfold bury
  split
  · rfl
  · next unit hunit =>
    split
    · rfl
    · next d hd => exact knows_setContext (hn.unit_context hunit hd)

theorem knows_buryIfDead (hn : s.Numbered) : (s.buryIfDead u).Knows c ↔ s.Knows c := by
  unfold buryIfDead
  split
  · rfl
  · exact knows_bury hn

theorem Sound.retain (hs : s.Sound) (hu : s.alive u = true) : (s.retain u).Sound := by
  refine hs.setHandles fun v hv => ?_
  rcases hv with hv | hv
  · rcases List.mem_cons.1 hv with rfl | hv
    · exact hu
    · exact alive_of_mem_handles hv
  · exact alive_of_mem_owned hv

theorem Sound.own (hs : s.Sound) (hu : s.alive u = true) : (s.own u).Sound := by
  refine hs.setHandles fun v hv => ?_
  rcases hv with hv | hv
  · exact alive_of_mem_handles hv
  · rcases List.mem_cons.1 hv with rfl | hv
    · exact hu
    · exact alive_of_mem_owned hv

theorem Sound.release (hs : s.Sound) (u : UnitId) : (s.release u).Sound := by
  unfold System.release
  split
  · next hu =>
    have ht : ({ s with handles := s.handles.erase u } : System).Sound := hs.setHandles fun v hv =>
      hv.elim (fun hv => alive_of_mem_handles (List.mem_of_mem_erase hv)) alive_of_mem_owned
    exact ht.buryIfDead (hs.alive (alive_of_mem_handles hu))
  · exact hs

theorem Sound.disown (hs : s.Sound) (u : UnitId) : (s.disown u).Sound := by
  unfold System.disown
  split
  · next hu =>
    have ht : ({ s with owned := s.owned.erase u } : System).Sound := hs.setHandles fun v hv =>
      hv.elim alive_of_mem_handles fun hv => alive_of_mem_owned (List.mem_of_mem_erase hv)
    exact ht.buryIfDead (hs.alive (alive_of_mem_owned hu))
  · exact hs

theorem knows_release (hn : s.Numbered) : (s.release u).Knows c ↔ s.Knows c := by
  unfold System.release
  split
  · exact knows_buryIfDead (hn.congr rfl rfl rfl)
  · rfl

theorem knows_disown (hn : s.Numbered) : (s.disown u).Knows c ↔ s.Knows c := by
  unfold System.disown
  split
  · exact knows_buryIfDead (hn.congr rfl rfl rfl)
  · rfl

theorem Consistent.retain (hs : s.Consistent) (hu : s.alive u = true) : (s.retain u).Consistent where
  toSound := hs.toSound.retain hu
  toWired := hs.toWired.congr rfl rfl rfl (fun _ => id) fun _ => id

theorem Consistent.release (hs : s.Consistent) (u : UnitId) : (s.release u).Consistent where
  toSound := hs.toSound.release u
  toWired := by
    refine hs.toWired.congr ?_ ?_ ?_ (fun _ => (knows_release hs.toNumbered).2) fun k hk => ?_
    · rw [release_eq]
    · rw [release_eq]
    · rw [release_eq]
    · rw [release_eq]
      exact hk

-- ================================================================ units

/-- The number of the next unit. -/
def nextUnit (s : System) : UnitId := ⟨s.units.size + 1⟩

/-- The state in which a unit was just built and running code has the one handle on it. -/
def withNew (s : System) (context : Option ContextId) (d : Definition) : System :=
  (s.build context d).2.retain s.nextUnit

theorem not_built_nextUnit (hn : s.Numbered) : ¬ s.Built s.nextUnit := by
  intro hb
  have := ((hn.unit_iff _).1 hb).2
  simp only [nextUnit] at this
  omega

theorem not_alive_nextUnit (hs : s.Consistent) : s.alive s.nextUnit = false := by
  rw [← Bool.not_eq_true]
  exact fun ha => not_built_nextUnit hs.toNumbered (hs.alive ha)

theorem ne_nextUnit (hn : s.Numbered) (hu : s.Built u) : u ≠ s.nextUnit := by
  rintro rfl
  exact not_built_nextUnit hn hu

theorem get?_withNew (context : Option ContextId) (d : Definition) :
    (s.withNew context d).units.get? u
      = if u = s.nextUnit then some (.ofDefinition s.nextUnit context d) else s.units.get? u :=
  Table.get?_insert ..

theorem built_withNew {context : Option ContextId} {d : Definition} :
    (s.withNew context d).Built u ↔ u = s.nextUnit ∨ s.Built u := by
  by_cases hu : u = s.nextUnit <;> simp [Built, get?_withNew, hu]

theorem alive_withNew {context : Option ContextId} {d : Definition} :
    (s.withNew context d).alive u = true ↔ u = s.nextUnit ∨ s.alive u = true := alive_retain_iff

theorem onward_withNew (hn : s.Numbered) (context : Option ContextId) (d : Definition) :
    s.Onward (s.withNew context d) where
  built hu := built_withNew.2 (.inr hu)
  dead hu ha := (alive_withNew.1 ha).resolve_left (ne_nextUnit hn hu)

theorem Sound.withNew {context : Option ContextId} (hs : s.Sound) (hc : ∀ c ∈ context, s.Knows c)
    (d : Definition) : (s.withNew context d).Sound where
  toGrounded := hs.toGrounded.of_onward rfl rfl (onward_withNew hs.toNumbered context d) fun u hu => by
    rcases alive_withNew.1 hu with hu | hu
    · exact built_withNew.2 (.inl hu)
    · exact built_withNew.2 (.inr (hs.alive hu))
  unit_iff u := by
    have hsize : (s.withNew context d).units.size = s.units.size + 1 := by
      have hnew : s.units.get? ⟨s.units.size + 1⟩ = none :=
        Option.not_isSome_iff_eq_none.1 (not_built_nextUnit hs.toNumbered)
      simp [System.withNew, build, System.retain, Table.size_insert, hnew]
    rw [built_withNew, hs.unit_iff, hsize]
    constructor
    · rintro (rfl | hu)
      · simp [nextUnit]
      · omega
    · intro hu
      by_cases e : u.val = s.units.size + 1
      · exact .inl (by cases u; simp_all [nextUnit])
      · exact .inr (by omega)
  unit_id hu := by
    rw [get?_withNew] at hu
    split at hu
    · next e =>
      rw [← Option.some.inj hu, e]
      rfl
    · exact hs.unit_id hu
  unit_context hu hctx := by
    rw [get?_withNew] at hu
    split at hu
    · rw [← Option.some.inj hu] at hctx
      exact hc _ hctx
    · exact hs.unit_context hu hctx
  context_iff := hs.context_iff
  root := hs.root
  ancestor := hs.ancestor
  host_iff := hs.host_iff
  published := hs.published

theorem Consistent.withNew {context : Option ContextId} (hs : s.Consistent)
    (hc : ∀ c ∈ context, s.Knows c) (d : Definition) : (s.withNew context d).Consistent where
  toSound := hs.toSound.withNew hc d
  toWired := hs.toWired.congr rfl rfl rfl (fun _ => id) fun _ => id

/-- The record of a unit may change as long as it stays the record of that unit in its context. -/
theorem Consistent.setUnit {old new : CompiledUnit} (hs : s.Consistent) (hu : s.units.get? u = some old)
    (hid : new.id = u) (hctx : new.context = old.context) :
    { s with units := s.units.insert u new }.Consistent := by
  have hbuilt : ∀ v, ({ s with units := s.units.insert u new } : System).Built v ↔ s.Built v := by
    intro v
    by_cases hv : v = u
    · subst hv
      simp [Built, hu]
    · simp [Built, hv]
  exact {
    toGrounded := hs.toGrounded.of_onward rfl rfl ⟨(hbuilt _).2, fun _ => id⟩ fun v hv =>
      (hbuilt v).2 (hs.alive hv)
    toWired := hs.toWired.congr rfl rfl rfl (fun _ => id) fun _ => id
    unit_iff := fun v => by
      rw [hbuilt, hs.unit_iff]
      simp [Table.size_insert, hu]
    unit_id := fun {v x} hv => by
      rw [Table.get?_insert] at hv
      split at hv
      · next e => rw [← Option.some.inj hv, hid, e]
      · exact hs.unit_id hv
    unit_context := fun {v x c} hv hc => by
      rw [Table.get?_insert] at hv
      split at hv
      · rw [← Option.some.inj hv, hctx] at hc
        exact hs.unit_context hu hc
      · exact hs.unit_context hv hc
    context_iff := hs.context_iff
    root := hs.root
    ancestor := hs.ancestor
    host_iff := hs.host_iff
    published := hs.published }

-- ================================================================ new contexts and hosts

/-- The next number for a context is free. -/
theorem get?_contexts_size (hn : s.Numbered) : s.contexts.get? ⟨s.contexts.size⟩ = none := by
  rw [← Option.not_isSome_iff_eq_none]
  intro h
  exact absurd ((hn.context_iff _).1 h) (by simp)

theorem Consistent.newContext {parent : ContextId} (hs : s.Consistent) (hp : s.Knows parent) :
    (s.newContext parent).2.Consistent := by
  have hnew := get?_contexts_size hs.toNumbered
  have hk : ∀ a, (s.newContext parent).2.Knows a ↔ a = ⟨s.contexts.size⟩ ∨ s.Knows a := by
    intro a
    by_cases ha : a = ⟨s.contexts.size⟩ <;> simp [System.newContext, Knows, System.setContext, ha]
  exact {
    toGrounded := hs.toGrounded.setContext (by simp [Context.fresh, UnitCache.empty])
      (by simp [Context.fresh, UnitCache.empty])
    toWired := hs.toWired.congr rfl rfl rfl (fun a ha => (hk a).2 (.inr ha)) fun _ => id
    unit_iff := hs.unit_iff
    unit_id := hs.unit_id
    unit_context := fun hu hc => (hk _).2 (.inr (hs.unit_context hu hc))
    context_iff := fun a => by
      have hsize : (s.newContext parent).2.contexts.size = s.contexts.size + 1 := by
        simp [System.newContext, System.setContext, Table.size_insert, hnew]
      rw [hk, hs.context_iff, hsize]
      constructor
      · rintro (rfl | ha)
        · exact Nat.lt_succ_self _
        · omega
      · intro ha
        by_cases e : a.val = s.contexts.size
        · exact .inl (by cases a; simp_all)
        · exact .inr (by omega)
    root := (hk _).2 (.inr hs.root)
    ancestor := fun {b a} ha => by
      refine (hk a).2 (.inr ?_)
      rw [System.newContext, context_setContext] at ha
      split at ha
      · rcases List.mem_cons.1 ha with rfl | ha
        · exact hp
        · exact hs.ancestor ha
      · exact hs.ancestor ha
    host_iff := hs.host_iff
    published := hs.published }

theorem get?_hosts_size (hn : s.Numbered) : s.hosts.get? ⟨s.hosts.size⟩ = none := by
  rw [← Option.not_isSome_iff_eq_none]
  intro h
  exact absurd ((hn.host_iff _).1 h) (by simp)

theorem Consistent.newHost (hs : s.Consistent) (refusals : Refusals) :
    (s.newHost refusals).2.Consistent := by
  have hnew := get?_hosts_size hs.toNumbered
  have hk : ∀ k, (s.newHost refusals).2.HasHost k ↔ k = ⟨s.hosts.size⟩ ∨ s.HasHost k := by
    intro k
    by_cases hk : k = ⟨s.hosts.size⟩ <;> simp [System.newHost, HasHost, System.setHost, hk]
  exact {
    toGrounded := hs.toGrounded.setHost (by simp [Host.new])
    toWired := hs.toWired.congr rfl rfl rfl (fun _ => id) fun k h => (hk k).2 (.inr h)
    unit_iff := hs.unit_iff
    unit_id := hs.unit_id
    unit_context := hs.unit_context
    context_iff := hs.context_iff
    root := hs.root
    ancestor := hs.ancestor
    host_iff := fun k => by
      have hsize : (s.newHost refusals).2.hosts.size = s.hosts.size + 1 := by
        simp [System.newHost, System.setHost, Table.size_insert, hnew]
      rw [hk, hs.host_iff, hsize]
      constructor
      · rintro (rfl | h)
        · exact Nat.lt_succ_self _
        · omega
      · intro h
        by_cases e : k.val = s.hosts.size
        · exact .inl (by cases k; simp_all)
        · exact .inr (by omega)
    published := fun hp => by
      rw [System.newHost, host_setHost] at hp
      split at hp
      · simp [Host.new] at hp
      · exact hs.published hp }

end System

end UnitLoading
