/-
Thinning out: what changes leave of the living units and of the entries for them.

A cache entry does not keep its unit alive, and whether a unit lives is a matter of handles that no cache
sees. So what a change does is told in both terms: all changes but two only thin a state out (`Thins`):
fewer units live, fewer entries stand, and an entry of a living unit goes only when its context is closed.
The other two are the ways in which a unit comes to life (`Change.thins`).
-/
import UnitLoading.Proofs.Perform

namespace UnitLoading.System

variable {s t r : System} {c : ContextId} {h : HostId} {name : String} {u v : UnitId} {d : Definition}

-- ================================================================ definitions

/-- Whether a unit was defined in a context under a name. -/
def DefinedIn (s : System) (u : UnitId) (c : ContextId) (name : String) : Prop :=
  ∃ x, s.units.get? u = some x ∧ x.context = some c ∧ x.name = name

/-- Whether a unit that was defined in a context under a name is alive. -/
def Lives (s : System) (c : ContextId) (name : String) (u : UnitId) : Prop :=
  s.alive u = true ∧ s.DefinedIn u c name

/-- The cache entry of a name in a context, stale or not. -/
def entryAt? (s : System) (c : ContextId) (name : String) : Option UnitId :=
  (s.context c).cache.entries.get? name

/-- The entry of a host for a name in a context, stale or not. -/
def slot? (s : System) (h : HostId) (c : ContextId) (name : String) : Option UnitId :=
  (s.host h).loaded.get? (c, name)

theorem DefinedIn.built (hu : s.DefinedIn u c name) : s.Built u := by
  obtain ⟨x, hx, -, -⟩ := hu
  rw [Built, hx]
  rfl

/-- A unit has one context and one name. -/
theorem DefinedIn.unique {a : ContextId} {m : String} (hu : s.DefinedIn u c name)
    (hv : s.DefinedIn u a m) : c = a ∧ name = m := by
  obtain ⟨x, hx, hc, hn⟩ := hu
  obtain ⟨y, hy, ha, hm⟩ := hv
  obtain rfl : x = y := Option.some.inj (hx.symm.trans hy)
  exact ⟨Option.some.inj (hc.symm.trans ha), hn.symm.trans hm⟩

theorem definedIn_withNew (context : Option ContextId) (d : Definition) :
    (s.withNew context d).DefinedIn u c name ↔
      if u = s.nextUnit then context = some c ∧ d.name = name else s.DefinedIn u c name := by
  unfold DefinedIn
  rw [get?_withNew]
  split
  · constructor
    · rintro ⟨x, hx, hc, hn⟩
      rw [← Option.some.inj hx] at hc hn
      exact ⟨hc, hn⟩
    · rintro ⟨hc, hn⟩
      exact ⟨_, rfl, hc, hn⟩
  · exact .rfl

theorem definedIn_markLinked : (s.markLinked v).2.DefinedIn u c name ↔ s.DefinedIn u c name := by
  unfold System.markLinked
  split
  · exact .rfl
  · next x hx =>
    unfold DefinedIn
    by_cases hu : u = v
    · subst hu
      simp [hx, CompiledUnit.markLinked]
    · simp [hu]

theorem DefinedIn.withNew {context : Option ContextId} (hn : s.Numbered) (hu : s.DefinedIn u c name) :
    (s.withNew context d).DefinedIn u c name := by
  rw [definedIn_withNew, if_neg (ne_nextUnit hn hu.built)]
  exact hu

theorem lives_withNew (hn : s.Numbered) (context : Option ContextId) (d : Definition) :
    (s.withNew context d).Lives c name u ↔
      (u = s.nextUnit ∧ context = some c ∧ d.name = name) ∨ s.Lives c name u := by
  have hnew : ¬ s.Lives c name s.nextUnit := fun hu => not_built_nextUnit hn hu.2.built
  rw [Lives, alive_withNew, definedIn_withNew]
  by_cases hu : u = s.nextUnit
  · subst hu
    rw [if_pos rfl, or_iff_left hnew]
    simp
  · rw [if_neg hu]
    simp [hu, Lives]

-- ================================================================ installing

theorem context_installed (s : System) (c : ContextId) (h : HostId) (d : Definition) (a : ContextId) :
    (s.installed c h d).context a = if a = c then
      { s.context c with cache := (s.context c).cache.record d.name s.nextUnit } else s.context a :=
  context_setContext _ c a _

/-- The new unit gets the entry of its name in the cache, and no other entry is touched. -/
theorem entryAt?_installed (s : System) (c : ContextId) (h : HostId) (d : Definition) (a : ContextId)
    (name : String) : (s.installed c h d).entryAt? a name
      = if a = c ∧ name = d.name then some s.nextUnit else s.entryAt? a name := by
  rw [entryAt?, context_installed]
  by_cases hac : a = c <;> simp [hac, UnitCache.record, entryAt?]

/-- The new unit gets the entry of its name at its host, and no other entry is touched. -/
theorem slot?_installed (s : System) (c : ContextId) (h : HostId) (d : Definition) (k : HostId)
    (a : ContextId) (name : String) : (s.installed c h d).slot? k a name
      = if k = h ∧ a = c ∧ name = d.name then some s.nextUnit else s.slot? k a name := by
  rw [slot?, System.installed, System.record, onCache, host_setContext, host_setHost]
  by_cases hk : k = h
  · subst hk
    simp [Host.withLoaded, slot?]
  · rw [if_neg hk, if_neg fun e => hk e.1]
    rfl

-- ================================================================ thinning out

/-- Fewer units live and fewer entries stand, but in a context that is still open no living unit has lost
its entry. -/
structure Thins (s t : System) : Prop where
  alive {u : UnitId} : t.alive u = true → s.alive u = true
  defined {u : UnitId} {c : ContextId} {name : String} : s.DefinedIn u c name → t.DefinedIn u c name
  known {u : UnitId} {c : ContextId} {name : String} :
    t.alive u = true → t.DefinedIn u c name → s.DefinedIn u c name
  entry {c : ContextId} {name : String} {u : UnitId} : t.entryAt? c name = some u → s.entryAt? c name = some u
  slot {h : HostId} {c : ContextId} {name : String} {u : UnitId} :
    t.slot? h c name = some u → s.slot? h c name = some u
  keeps {c : ContextId} {name : String} {u : UnitId} :
    (t.context c).closed = false → t.alive u = true → s.entryAt? c name = some u → t.entryAt? c name = some u
  opens {c : ContextId} : (t.context c).closed = false → (s.context c).closed = false
  closes {c : ContextId} :
    (t.context c).closed = true → (s.context c).closed = true ∨ ∀ name, t.entryAt? c name = none

namespace Thins

theorem trans (hst : s.Thins t) (htr : t.Thins r) : s.Thins r where
  alive hu := hst.alive (htr.alive hu)
  defined hu := htr.defined (hst.defined hu)
  known ha hu := hst.known (htr.alive ha) (htr.known ha hu)
  entry he := hst.entry (htr.entry he)
  slot hl := hst.slot (htr.slot hl)
  keeps ho ha he := htr.keeps ho ha (hst.keeps (htr.opens ho) (htr.alive ha) he)
  opens ho := hst.opens (htr.opens ho)
  closes {c} hc := by
    rcases htr.closes hc with hc | hnone
    · rcases hst.closes hc with hc | hnone
      · exact .inl hc
      · refine .inr fun name => ?_
        rw [Option.eq_none_iff_forall_ne_some]
        intro u he
        have hlast : t.entryAt? c name = some u := htr.entry he
        rw [hnone name] at hlast
        exact absurd hlast (by simp)
    · exact .inr hnone

/-- Where all tables and records are the same, it is enough that no unit comes to life. -/
theorem of_tables (hu : t.units = s.units)
    (hc : ∀ c, (t.context c).cache.entries = (s.context c).cache.entries ∧
      (t.context c).closed = (s.context c).closed)
    (hh : ∀ h, (t.host h).loaded = (s.host h).loaded) (ha : ∀ u, t.alive u = true → s.alive u = true) :
    s.Thins t := by
  have hdefined : ∀ u c name, t.DefinedIn u c name ↔ s.DefinedIn u c name := fun u c name => by
    rw [DefinedIn, DefinedIn, hu]
  have hentry : ∀ c name, t.entryAt? c name = s.entryAt? c name := fun c name => by
    rw [entryAt?, entryAt?, (hc c).1]
  exact {
    alive := ha _
    defined := (hdefined _ _ _).2
    known := fun _ => (hdefined _ _ _).1
    entry := fun he => by rwa [hentry] at he
    slot := fun hl => by rwa [slot?, hh] at hl
    keeps := fun _ _ he => by rwa [hentry]
    opens := fun ho => by rwa [(hc _).2] at ho
    closes := fun ho => .inl (by rwa [(hc _).2] at ho) }

theorem bury (s : System) (u : UnitId) : s.Thins (s.bury u) := by
  refine of_tables ?_ (tables_bury s u) (fun h => ?_) fun v hv => by rwa [alive_bury] at hv
  · rw [bury_eq]
  · rw [bury_eq]
    rfl

theorem release (s : System) (u : UnitId) : s.Thins (s.release u) := by
  refine of_tables ?_ (tables_release s u) (fun h => ?_) fun _ => alive_of_alive_release
  · rw [release_eq]
  · rw [release_eq]
    rfl

theorem disown (s : System) (u : UnitId) : s.Thins (s.disown u) := by
  refine of_tables ?_ (tables_disown s u) (fun h => ?_) fun _ => alive_of_alive_disown
  · rw [disown_eq]
  · rw [disown_eq]
    rfl

theorem own (hu : s.alive u = true) : s.Thins (s.own u) := by
  refine of_tables rfl (fun _ => ⟨rfl, rfl⟩) (fun _ => rfl) fun v hv => ?_
  rcases alive_own_iff.1 hv with rfl | hv
  · exact hu
  · exact hv

/-- A unit that was built but is not alive matters to nobody. -/
theorem build (hs : s.Consistent) (context : Option ContextId) (d : Definition) :
    s.Thins (s.build context d).2 where
  alive := id
  defined {u c name} hu := by
    refine (definedIn_withNew (s := s) context d).2 ?_
    rw [if_neg (ne_nextUnit hs.toNumbered hu.built)]
    exact hu
  known {u c name} ha hu := by
    have hnew := (definedIn_withNew (s := s) context d).1 hu
    rwa [if_neg (ne_nextUnit hs.toNumbered (hs.alive ha))] at hnew
  entry := id
  slot := id
  keeps _ _ := id
  opens := id
  closes := .inl

theorem markLinked (s : System) (u : UnitId) : s.Thins (s.markLinked u).2 := by
  have hsame : (s.markLinked u).2 = { s with units := (s.markLinked u).2.units } := by
    unfold System.markLinked
    split <;> rfl
  have hentry : ∀ c name, (s.markLinked u).2.entryAt? c name = s.entryAt? c name := fun c name => by
    rw [hsame]
    rfl
  have hclosed : ∀ c, ((s.markLinked u).2.context c).closed = (s.context c).closed := fun c => by
    rw [hsame]
    rfl
  exact {
    alive := fun hv => by rwa [alive_markLinked] at hv
    defined := definedIn_markLinked.2
    known := fun _ => definedIn_markLinked.1
    entry := fun he => by rwa [hentry] at he
    slot := fun hl => by
      rw [hsame] at hl
      exact hl
    keeps := fun _ _ he => by rwa [hentry]
    opens := fun ho => by rwa [hclosed] at ho
    closes := fun ho => .inl (by rwa [hclosed] at ho) }

/-- A context may get another cache, if its living entries are those that it had and the others are some
of those. -/
theorem setContext {cache : UnitCache}
    (he : ∀ name u, cache.entries.get? name = some u → s.entryAt? c name = some u)
    (hk : ∀ name u, s.alive u = true → s.entryAt? c name = some u → cache.entries.get? name = some u) :
    s.Thins (s.setContext c { s.context c with cache }) := by
  have hclosed : ∀ a, ((s.setContext c { s.context c with cache }).context a).closed
      = (s.context a).closed := context_setContext_congr (f := Context.closed) rfl
  refine ⟨id, id, fun _ => id, fun {a name u} h => ?_, id, fun {a name u} _ ha h => ?_, fun ho => ?_,
    fun ho => .inl ?_⟩
  · rw [entryAt?, context_setContext] at h
    split at h
    · next e =>
      rw [e]
      exact he name u h
    · exact h
  · rw [entryAt?, context_setContext]
    split
    · next e =>
      rw [e] at h
      exact hk name u ha h
    · exact h
  · rwa [hclosed] at ho
  · rwa [hclosed] at ho

theorem setHost {y : Host}
    (hl : ∀ c name u, y.loaded.get? (c, name) = some u → s.slot? h c name = some u) :
    s.Thins (s.setHost h y) := by
  refine ⟨id, id, fun _ => id, id, fun {k c name u} hu => ?_, fun _ _ => id, id, .inl⟩
  rw [slot?, host_setHost] at hu
  split at hu
  · next e =>
    rw [e]
    exact hl c name u hu
  · exact hu

/-- Closing a context takes all of its entries away. -/
theorem shut (s : System) (c : ContextId) (h : HostId) : s.Thins (s.shut c h) := by
  have hcontext : ∀ a, (s.shut c h).context a = if a = c then (s.context c).close else s.context a :=
    fun a => context_setContext s c a _
  refine ⟨id, id, fun _ => id, fun {a name u} hu => ?_, fun {k a name u} hu => ?_,
    fun {a name u} hopen _ hu => ?_, fun {a} hopen => ?_, fun {a} hclosed => ?_⟩
  · rw [entryAt?, hcontext] at hu
    split at hu
    · exact absurd hu (by simp [Context.close, UnitCache.clear, UnitCache.empty])
    · exact hu
  · rw [slot?, System.shut, releaseHost, host_setHost] at hu
    split at hu
    · next e =>
      rw [get?_release] at hu
      split at hu
      · rw [e]
        exact hu
      · exact absurd hu (by simp)
    · exact hu
  · rw [hcontext] at hopen
    split at hopen
    · exact absurd hopen (by simp [Context.close])
    · next e =>
      rw [entryAt?, hcontext, if_neg e]
      exact hu
  · rw [hcontext] at hopen
    split at hopen
    · exact absurd hopen (by simp [Context.close])
    · exact hopen
  · rw [hcontext] at hclosed
    split at hclosed
    · next e =>
      refine .inr fun name => ?_
      rw [entryAt?, hcontext, if_pos e]
      rfl
    · exact .inl hclosed

end Thins

theorem Upkeep.thins (hu : Upkeep s t) (hs : s.Consistent) : s.Thins t := by
  cases hu with
  | @evict c name u hc hu dead =>
    refine .setContext (fun x v hv => ?_) fun x v ha hv => ?_
    · rw [Table.get?_erase] at hv
      split at hv
      · exact absurd hv (by simp)
      · exact hv
    · rw [Table.get?_erase]
      split
      -- the entry that goes is the one of a dead unit
      · next e =>
        rw [entryAt?, e, hu] at hv
        rw [Option.some.inj hv, ha] at dead
        exact absurd dead (by simp)
      · exact hv
  | @sweep c hc =>
    refine .setContext (fun x v hv => ?_) fun x v ha hv => ?_
    · exact (UnitCache.get?_purge.1 hv).1
    -- a notice would say that the living unit is dead
    · refine UnitCache.get?_purge.2 ⟨hv, fun hm => ?_⟩
      rw [hs.dead hm] at ha
      exact absurd ha (by simp)
  | @forget h c name u hh hu dead =>
    refine .setHost fun a x v hv => ?_
    rw [Table.get?_erase] at hv
    split at hv
    · exact absurd hv (by simp)
    · exact hv
  | @refuse c h d e hc hopen absent he =>
    rw [refused_eq hs]
    exact (Thins.build hs (some c) d).trans (.bury _ _)

/-- A change thins a state out, or it is one of the two ways in which a unit comes to life. -/
theorem Change.thins (hc : Change s t) (hs : s.Consistent) :
    s.Thins t ∨ (∃ c h d, s.Admits c h d ∧ t = s.installed c h d) ∨ ∃ d, t = s.withNew none d := by
  cases hc with
  | installed ha => exact .inr (.inl ⟨_, _, _, ha, rfl⟩)
  | detached d => exact .inr (.inr ⟨d, rfl⟩)
  | upkeep hu => exact .inl (hu.thins hs)
  | retain hu =>
    refine .inl (.of_tables rfl (fun _ => ⟨rfl, rfl⟩) (fun _ => rfl) fun v hv => ?_)
    rcases alive_retain_iff.1 hv with rfl | hv
    · exact hu
    · exact hv
  | release u => exact .inl (.release s u)
  | @link h u hh hu hok =>
    obtain ⟨x, hx⟩ := Option.isSome_iff_exists.1 (hs.alive hu)
    have hhost : ∀ y, y.loaded = (s.host h).loaded → s.Thins (s.setHost h y) := fun y hy =>
      .setHost fun _ _ _ hv => by rwa [hy] at hv
    rw [link_eq hx] at hok ⊢
    cases hun : (s.host h).refusals.unlinkable.get? x.name with
    | some reason => simp [hun] at hok
    | none =>
      refine .inl ((hhost _ ?_).trans (.markLinked _ u))
      split <;> rfl
  | markLinked u => exact .inl (.markLinked s u)
  | @newForeign units via hu hvia raises =>
    have hthin : s.Thins s := .of_tables rfl (fun _ => ⟨rfl, rfl⟩) (fun _ => rfl) fun _ => id
    have hadopt := adopt_induction (P := s.Thins)
      (fun t v ht hv => ht.trans (.own (alive_of_mem_handles hv)))
      (fun t v ht => ht.trans (.disown t v)) units .empty s hthin hu
    exact .inl (hadopt.trans (.of_tables rfl (fun _ => ⟨rfl, rfl⟩) (fun _ => rfl) fun _ => id))
  | letGo hp =>
    exact .inl (letGo_induction _ (P := s.Thins) (fun t v ht => ht.trans (.disown t v))
      (.of_tables rfl (fun _ => ⟨rfl, rfl⟩) (fun _ => rfl) fun _ => id))
  | newLoader | hold | addLocation =>
    exact .inl (.of_tables rfl (fun _ => ⟨rfl, rfl⟩) (fun _ => rfl) fun _ => id)
  | newContext hp =>
    have hnew : s.context ⟨s.contexts.size⟩ = default := by
      rw [System.context, get?_contexts_size hs.toNumbered]
      rfl
    refine .inl (.of_tables rfl (fun c => ⟨?_, ?_⟩) (fun _ => rfl) fun _ => id)
    · refine context_setContext_congr (f := fun x => x.cache.entries) ?_ c
      rw [hnew]
      rfl
    · refine context_setContext_congr (f := Context.closed) ?_ c
      rw [hnew]
      rfl
  | newHost refusals => exact .inl (.setHost fun _ _ _ hv => absurd hv (by simp [Host.new]))
  | publish hh location d =>
    exact .inl (.setHost fun _ _ _ => id)
  | register hc hopen g values =>
    refine .inl (.of_tables rfl (fun a => ⟨?_, ?_⟩) (fun _ => rfl) fun _ => id)
    · refine context_setContext_congr (f := fun x => x.cache.entries) ?_ a
      rfl
    · refine context_setContext_congr (f := Context.closed) ?_ a
      rfl
  | shut hc hh hroot hopen => exact .inl (.shut s _ _)

end UnitLoading.System
