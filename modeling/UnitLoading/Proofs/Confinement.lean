/-
Confinement: how little a definition, a look-up or a resolution changes.

At most one unit comes to life, and it is the one that is given. It is new, it bears the name that was asked
for and belongs to a context in which a unit may be built: the context of the loader, or, for a resolution,
that of a loader on the path, but no context that only the scope leads to. It gets the entry of its name in
the cache of its context and at the host of that loader, where nothing living stood before. All else is as
it was (`Confined`): the other units and their flags, every other living entry anywhere, pools, closed flags
and search locations.

A resolution may pass and tidy up any number of tables on its way, and may leave behind a unit that a host
refused, but all that is upkeep (`Upkeeps.isLinked` adds to `SameLife` that it raises no flag).
-/
import UnitLoading.Proofs.Fading
import UnitLoading.Proofs.Isolation

namespace UnitLoading

variable {s t r : System} {c a : ContextId} {h k : HostId} {name : String} {u v : UnitId} {d : Definition}
  {f : Finding} {answer : Answer} {cmd : Command} {l : Loader} {allowed : ContextId → HostId → Prop}

namespace System

-- ================================================================ flags of units

/-- A unit that is built is not linked yet. -/
theorem isLinked_withNew (hn : s.Numbered) (context : Option ContextId) (d : Definition) (v : UnitId) :
    (s.withNew context d).isLinked v = s.isLinked v := by
  rw [isLinked, get?_withNew, isLinked]
  split
  · next hv =>
    have hnone : s.units.get? v = none := by
      rw [hv, ← Option.not_isSome_iff_eq_none]
      exact not_built_nextUnit hn
    rw [hnone]
    rfl
  · rfl

theorem isLinked_release (s : System) (u v : UnitId) : (s.release u).isLinked v = s.isLinked v := by
  rw [release_eq]
  rfl

theorem Upkeep.isLinked (hu : Upkeep s t) (hs : s.Consistent) (v : UnitId) : t.isLinked v = s.isLinked v := by
  cases hu with
  | evict | sweep | forget => rfl
  | refuse =>
    rw [refused, isLinked_release]
    exact isLinked_withNew hs.toNumbered _ _ v

theorem Upkeeps.isLinked (hu : Upkeeps s t) (hs : s.Consistent) (v : UnitId) :
    t.isLinked v = s.isLinked v := by
  induction hu with
  | refl => rfl
  | tail hrest hstep ih => exact (hstep.isLinked (Upkeeps.consistent hrest hs) v).trans ih

/-- A search raises no flag. -/
theorem Outcome.isLinked (ho : Outcome s f answer t) (hs : s.Consistent) (v : UnitId) :
    t.isLinked v = s.isLinked v := by
  cases ho with
  | @live u r ht hu => exact ht.isLinked hs v
  | @fresh c h d r ht ha =>
    exact (isLinked_withNew (ht.consistent hs).toNumbered (some c) d v).trans (ht.isLinked hs v)
  | failure ht => exact ht.isLinked hs v
  | nothing ht => exact ht.isLinked hs v

/-- Linking a unit raises no other flag. -/
theorem isLinked_link (h : HostId) (hv : v ≠ u) : (s.link h u).2.isLinked v = s.isLinked v := by
  unfold System.link
  split
  · rfl
  · split
    · rw [System.isLinked, System.isLinked, Table.get?_insert, if_neg hv]
    · rfl

-- ================================================================ what is left alone

/-- Nothing happened to units other than the one given, to pools, closed flags and search locations. -/
structure Spares (s : System) (answer : Answer) (t : System) : Prop where
  alive (v : UnitId) : answer ≠ .unit v → t.alive v = s.alive v
  isLinked (v : UnitId) : answer ≠ .unit v → t.isLinked v = s.isLinked v
  pools (a : ContextId) : (t.context a).pools = (s.context a).pools
  closed (a : ContextId) : (t.context a).closed = (s.context a).closed
  locations (i : LoaderId) : t.locationsOf i = s.locationsOf i

/-- No unit came to life, and every living entry is as it was. -/
structure Rests (s t : System) : Prop where
  alive (v : UnitId) : t.alive v = s.alive v
  resident (a : ContextId) (x : String) : t.resident? a x = s.resident? a x
  loaded (k : HostId) (a : ContextId) (x : String) : t.loaded? k a x = s.loaded? k a x

/-- A new unit of a context came to life and got its two entries, which were free. Every other living entry
is as it was. -/
structure Settles (s t : System) (c : ContextId) (h : HostId) (name : String) (u : UnitId) : Prop where
  new : ¬ s.Built u
  lives : t.Lives c name u
  free : s.resident? c name = none ∧ s.loaded? h c name = none
  resident (a : ContextId) (x : String) :
    t.resident? a x = if a = c ∧ x = name then some u else s.resident? a x
  loaded (k : HostId) (a : ContextId) (x : String) :
    t.loaded? k a x = if k = h ∧ a = c ∧ x = name then some u else s.loaded? k a x

/-- What answer and next state may be if nothing is to happen but that one unit of the name is built where
that is allowed, and given. -/
def Confined (s : System) (name : String) (allowed : ContextId → HostId → Prop) (r : Answer × System) : Prop :=
  s.Spares r.1 r.2 ∧
    (s.Rests r.2 ∨ ∃ c h u, allowed c h ∧ r.1 = .unit u ∧ s.Settles r.2 c h name u)

theorem SameLife.confined (hl : s.SameLife t) (hlinked : ∀ v, t.isLinked v = s.isLinked v) :
    s.Confined name allowed (answer, t) := by
  refine ⟨⟨fun v _ => hl.alive v, fun v _ => hlinked v, hl.pools, hl.closed, fun i => ?_⟩,
    .inl ⟨hl.alive, hl.resident, hl.loaded⟩⟩
  rw [locationsOf, locationsOf, hl.locations]

/-- One more handle on a living unit counts for nothing. -/
theorem SameLife.confined_retain (hl : s.SameLife r) (hlinked : ∀ v, r.isLinked v = s.isLinked v)
    (hu : r.alive u = true) : s.Confined name allowed (answer, r.retain u) := by
  have halive : ∀ v, (r.retain u).alive v = s.alive v := by
    intro v
    rw [alive_retain_of_alive hu]
    exact hl.alive v
  refine ⟨⟨fun v _ => halive v, fun v _ => hlinked v, hl.pools, hl.closed, fun i => ?_⟩,
    .inl ⟨halive, fun a x => ?_, fun k a x => ?_⟩⟩
  · rw [locationsOf, locationsOf, ← hl.locations]
    rfl
  · rw [resident?_retain hu]
    exact hl.resident a x
  · rw [loaded?_retain hu]
    exact hl.loaded k a x

/-- A new unit that is installed is confined to its context and its host. -/
theorem SameLife.confined_installed (hl : s.SameLife r) (hlinked : ∀ v, r.isLinked v = s.isLinked v)
    (hr : r.Consistent) (ha : r.Admits c h d) (hc : allowed c h) :
    s.Confined d.name allowed (.unit r.nextUnit, r.installed c h d) := by
  have hfree : r.loaded? h c d.name = none := Host.live?_of_refusal?_none ha.agreed
  refine ⟨⟨fun v hv => ?_, fun v _ => ?_, fun a => ?_, fun a => ?_, fun i => ?_⟩,
    .inr ⟨c, h, r.nextUnit, hc, rfl, ?_, ?_, ⟨?_, ?_⟩, fun a x => ?_, fun k a x => ?_⟩⟩
  · have hother : v ≠ r.nextUnit := fun e => hv (by rw [e])
    rw [← hl.alive, Bool.eq_iff_iff]
    exact alive_withNew.trans (or_iff_right hother)
  · rw [← hlinked]
    exact isLinked_withNew hr.toNumbered (some c) d v
  · rw [← hl.pools]
    exact (unmoved_installed r c h d a).2
  · rw [← hl.closed]
    exact (unmoved_installed r c h d a).1
  · rw [locationsOf, locationsOf, ← hl.locations]
    rfl
  · exact hl.not_built_nextUnit hr
  · exact (lives_withNew hr.toNumbered (some c) d).2 (.inl ⟨rfl, rfl, rfl⟩)
  · rw [← hl.resident]
    exact ha.absent
  · rw [← hl.loaded]
    exact hfree
  · rw [resident?_installed_eq hr, hl.resident]
  · rw [loaded?_installed_eq hr, hl.loaded]

/-- An outcome is confined to where its finding may have a unit built. -/
theorem Outcome.confined (ho : Outcome s f answer t) (hs : s.Consistent)
    (hf : ∀ c h d, f = .fresh c h d → allowed c h ∧ d.name = name) : s.Confined name allowed (answer, t) := by
  cases ho with
  | @live u r ht hu => exact (ht.sameLife hs).confined_retain (fun v => ht.isLinked hs v) hu
  | @fresh c h d r ht ha =>
    obtain ⟨hc, rfl⟩ := hf c h d rfl
    exact (ht.sameLife hs).confined_installed (fun v => ht.isLinked hs v) (ht.consistent hs) ha hc
  | failure ht => exact (ht.sameLife hs).confined fun v => ht.isLinked hs v
  | nothing ht => exact (ht.sameLife hs).confined fun v => ht.isLinked hs v

-- ================================================================ linking what was found

theorem locationsOf_link (s : System) (h : HostId) (u : UnitId) (i : LoaderId) :
    (s.link h u).2.locationsOf i = s.locationsOf i := by
  unfold System.link
  split
  · rfl
  · split <;> rfl

/-- Linking the unit that is given raises its flag and touches nothing else. -/
theorem Confined.link (hr : s.Confined name allowed (.unit u, r)) (h : HostId) :
    s.Confined name allowed (.unit u, (r.link h u).2) := by
  have htables : r.SameTables (r.link h u).2 := .link r h u
  have halive : ∀ v, (r.link h u).2.alive v = r.alive v := fun v => alive_link r h u v
  obtain ⟨hspares, hstate⟩ := hr
  refine ⟨⟨fun v hv => ?_, fun v hv => ?_, fun a => ?_, fun a => ?_, fun i => ?_⟩, ?_⟩
  · exact (halive v).trans (hspares.alive v hv)
  · have hother : v ≠ u := fun e => hv (by rw [e])
    exact (isLinked_link h hother).trans (hspares.isLinked v hv)
  · rw [context_link]
    exact hspares.pools a
  · rw [context_link]
    exact hspares.closed a
  · rw [locationsOf_link]
    exact hspares.locations i
  · rcases hstate with hrests | ⟨c, k, v, hc, hv, hnew⟩
    · left
      exact ⟨fun v => (halive v).trans (hrests.alive v),
        fun a x => (htables.resident? halive a x).trans (hrests.resident a x),
        fun k a x => (htables.loaded? halive k a x).trans (hrests.loaded k a x)⟩
    · right
      refine ⟨c, k, v, hc, hv, hnew.new, ⟨(halive v).trans hnew.lives.1, definedIn_link.2 hnew.lives.2⟩,
        hnew.free, fun a x => ?_, fun k a x => ?_⟩
      · exact (htables.resident? halive a x).trans (hnew.resident a x)
      · exact (htables.loaded? halive k a x).trans (hnew.loaded k a x)

/-- A load is confined as the search that it starts from: it may raise the flag of the unit that it gives,
and where that fails, the unit goes again. -/
theorem load_confined {scope : ResolutionScope} (hs : s.Consistent) (hl : s.Holds l.path)
    (hscope : s.KnowsScope scope) (name : String) (link : Bool) :
    s.Confined name (fun c h => ∃ id, .dynamic id c h ∈ l.path) (s.perform (.load l name link scope)) := by
  have ho := sought_outcome hs hl hscope name
  have hsearch := ho.confined hs fun c h d hf => seeking_fresh hs hf
  show s.Confined name _ (.ofResolution (s.load l name link scope).1, (s.load l name link scope).2)
  rw [load_eq]
  obtain ⟨result, t, hr⟩ : ∃ result t, s.sought l name scope = (result, t) := ⟨_, _, rfl⟩
  rw [hr] at ho hsearch ⊢
  cases result with
  | error e => exact hsearch
  | ok u =>
    dsimp only
    rw [linkFound_eq]
    split
    · cases (t.link l.host u).1 with
      | ok => exact hsearch.link l.host
      | error e =>
        apply (ho.sameLife_release hs).confined
        intro v
        rw [isLinked_release]
        exact ho.isLinked hs v
    · exact hsearch

/-- Whatever a loader is asked for, at most one unit comes to life. -/
theorem effects_confined {scope : ResolutionScope} (hr : s.Reachable Command.Public) (hl : s.Holds l.path)
    (hscope : s.KnowsScope scope) (name : String) (d : Definition) :
    s.Confined d.name (fun c h => c = l.context ∧ h = l.host) (s.perform (.define l d)) ∧
      s.Confined name (fun _ _ => False) (s.perform (.findResident l name)) ∧
      ∀ cmd, cmd.Resolves l name scope →
        s.Confined name (fun c h => ∃ id, .dynamic id c h ∈ l.path) (s.perform cmd) := by
  have hs := hr.consistent
  obtain ⟨hc, hh⟩ := Holds.stop hl hs
  refine ⟨?_, ?_, ?_⟩
  · apply (defineIn_outcome hs hc hh d).confined hs
    intro c h e hf
    obtain ⟨rfl, rfl, rfl⟩ := defining_fresh hf
    exact ⟨⟨rfl, rfl⟩, rfl⟩
  · apply (findResident_outcome hs hc name).confined hs
    intro c h e hf
    exact absurd hf Finding.ofLookup_ne_fresh
  · rintro cmd (rfl | ⟨link, rfl⟩)
    · exact (resolve_outcome hs hl hscope name).confined hs fun c h d hf => resolving_fresh hs hf
    · exact load_confined hs hl hscope name link

/-- The state with a second loader under the one whose host supplies a unit, over a context of its own. -/
def isolated : System := (unlinkable.perform (.isolatedLoader .first)).2

/-- What the loader above supplies is built in the root and not in the context of the loader that asked. -/
theorem effects_confined_supplied :
    (isolated.perform (.resolve .nested "a" .empty)).1 = .unit ⟨1⟩ ∧
      isolated.Confined "a" (fun c h => ∃ id, .dynamic id c h ∈ Loader.nested.path)
        (isolated.perform (.resolve .nested "a" .empty)) ∧
      (isolated.perform (.resolve .nested "a" .empty)).2.Lives .root "a" ⟨1⟩ := by
  have hreachable : isolated.Reachable Command.LoaderLevel := reachable_unlinkable.step id holds_unlinkable
  have hholds : isolated.Holds Loader.nested.path := ⟨_, List.mem_cons_self, List.suffix_rfl⟩
  have hconfined := effects_confined hreachable.public hholds (knowsScope_empty _) "a" ⟨"a", [1], none⟩
  exact ⟨rfl, hconfined.2.2 _ (.inl rfl), rfl, _, rfl, rfl, rfl⟩

end System

end UnitLoading
