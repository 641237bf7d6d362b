/-
Asking the host first: a load gives what a resolution gives.

A load looks into the host's table before the cache of the context, a resolution looks into the cache
first. Two facts make this no difference.

# What is found

Entries of both tables stand under the context and the name of their units, and in a context only one unit
of a name lives. So where both tables have a living unit, it is the same one (`Resident.loaded?_eq`). This
does not ask whether the context is open: in a closed one the cache has nothing, and the host is next in
either order.

# What is done on the way

Where the host has nothing that lives, asking it at most makes it forget a dead unit. The resolution asks
it one step later anyway, so from there on both are in the very same state (`resolveAlong_asked`): not only
do the answers agree, new units even get the same numbers.
-/
import UnitLoading.Proofs.Residency
import UnitLoading.Proofs.Closing

namespace UnitLoading

variable {s t : System} {c : ContextId} {h k : HostId} {name : String} {u v : UnitId} {l : Loader}
  {scope : ResolutionScope} {x : CompiledUnit} {f : Finding} {a : Answer}

/-- A host that has forgotten a dead unit has nothing more to forget. -/
theorem Host.find_snd_find (alive : UnitId → Bool) (y : Host) (c : ContextId) (name : String) :
    ((y.find alive c name).2.find alive c name).2 = (y.find alive c name).2 := by
  unfold find
  cases hu : y.loaded.get? (c, name) with
  | none => simp [hu]
  | some u =>
    by_cases ha : alive u = true
    · simp [hu, ha]
    · simp [ha]

theorem Search.orElse_of_none {a b : Search} (ha : a s = (.ok none, t)) : a.orElse b s = b t := by
  unfold Search.orElse
  rw [ha]

namespace System

-- ================================================================ asking earlier or later

theorem loaded?_asked (s : System) (h : HostId) (c : ContextId) (name : String) :
    (s.asked h c name).loaded? h c name = s.loaded? h c name := by
  have hhost : (s.asked h c name).host h = ((s.host h).find s.alive c name).2 :=
    (host_setHost ..).trans (if_pos rfl)
  rw [loaded?, hhost]
  exact Host.live?_snd_find ..

theorem asked_asked (hh : s.HasHost h) : (s.asked h c name).asked h c name = s.asked h c name := by
  have hhost : (s.asked h c name).host h = ((s.host h).find s.alive c name).2 :=
    (host_setHost ..).trans (if_pos rfl)
  have hsame : ((((s.asked h c name).host h).find (s.asked h c name).alive c name).2)
      = (s.asked h c name).host h := by
    rw [hhost]
    exact Host.find_snd_find ..
  have hknown : (s.asked h c name).HasHost h := (hasHost_setHost hh).2 hh
  rw [asked, hsame, setHost_host hknown]

theorem loadedStep_of_none (hnone : s.loaded? h c name = none) :
    loadedStep h c name s = (.ok none, s.asked h c name) := by
  rw [loadedStep, Search.ofLookup, findLoaded_eq, hnone]
  rfl

/-- Looking into a cache does not touch the hosts, whatever is in them. -/
theorem findResident_setHost (s : System) (h : HostId) (y : Host) (c : ContextId) (name : String) :
    (s.setHost h y).findResident c name
      = ((s.findResident c name).1, (s.findResident c name).2.setHost h y) := by
  have hcached : ∀ r : System, (r.setHost h y).cached c name
      = ((r.cached c name).1, (r.cached c name).2.setHost h y) := by
    intro r
    simp only [cached, onCache]
    show handOut (((r.context c).cache.get r.alive name).1, _) = _
    cases ((r.context c).cache.get r.alive name).1 <;> rfl
  unfold findResident
  rw [context_setHost]
  split
  · exact hcached s
  · exact hcached (s.sweep c).2

theorem hosts_findResident (s : System) (c : ContextId) (name : String) :
    (s.findResident c name).2.hosts = s.hosts := by
  have hcached : ∀ r : System, (r.cached c name).2.hosts = r.hosts := by
    intro r
    simp only [cached, onCache]
    cases ((r.context c).cache.get r.alive name).1 <;> rfl
  unfold findResident
  split
  · exact hcached s
  · exact hcached (s.sweep c).2

/-- Where neither the cache nor the host has a living unit, asking the host beforehand leads to the same. -/
theorem resolveAlong_asked {id : LoaderId} {rest : List Stop} {scope : Option ResolutionScope}
    (hs : s.Consistent) (hc : s.Knows c) (hh : s.HasHost h) (habsent : s.resident? c name = none)
    (hnone : s.loaded? h c name = none) :
    resolveAlong name scope (.dynamic id c h :: rest) (s.asked h c name)
      = resolveAlong name scope (.dynamic id c h :: rest) s := by
  have hlook := findResident_outcome hs hc name
  rw [habsent] at hlook
  obtain ⟨found, t, ht⟩ : ∃ found t, s.findResident c name = (found, t) := ⟨_, _, rfl⟩
  have hhosts : t.hosts = s.hosts := by
    have hkept := hosts_findResident s c name
    rw [ht] at hkept
    exact hkept
  rw [ht] at hlook
  obtain rfl : found = none := by
    cases found with
    | none => rfl
    | some u => cases hlook
  have hlife : s.SameLife t := by
    cases hlook with
    | nothing hup => exact hup.sameLife hs
  have hasked : t.asked h c name = t.setHost h ((s.host h).find s.alive c name).2 := by
    have halive : t.alive = s.alive := funext hlife.alive
    rw [asked, halive, System.host, hhosts]
    rfl
  -- the cache has nothing in either state, and then the host has forgotten its dead unit in both
  have hfirst : residentStep c name s = (.ok none, t) := by
    rw [residentStep, Search.ofLookup, ht]
  have hfirst' : residentStep c name (s.asked h c name) = (.ok none, t.asked h c name) := by
    rw [residentStep, Search.ofLookup, asked, findResident_setHost, ht, hasked]
  have hsecond : loadedStep h c name t = (.ok none, t.asked h c name) :=
    loadedStep_of_none ((hlife.loaded h c name).trans hnone)
  have hsecond' : loadedStep h c name (t.asked h c name) = (.ok none, t.asked h c name) := by
    have htnone : (t.asked h c name).loaded? h c name = none := by
      rw [loaded?_asked, hlife.loaded]
      exact hnone
    rw [loadedStep_of_none htnone, asked_asked ((hlife.hasHost h).2 hh)]
  unfold resolveAlong
  rw [Search.orElse_of_none hfirst, Search.orElse_of_none hfirst', Search.orElse_of_none hsecond,
    Search.orElse_of_none hsecond']

-- ================================================================ the same unit

/-- What a host has in a context is what the cache has, if that has anything. -/
theorem Resident.loaded?_eq (hr : s.Resident) (hu : s.loaded? h c name = some u)
    (hv : s.resident? c name = some v) : v = u := by
  obtain ⟨hslot, hu⟩ := Host.live?_eq_some_iff.1 hu
  obtain ⟨hentry, hv⟩ := UnitCache.live?_eq_some_iff.1 hv
  exact hr.unique ⟨hv, hr.entry_defined hentry⟩ ⟨hu, hr.slot_defined hslot⟩

/-- Asking the host first either makes no difference at all, or both orders find a unit at once. -/
theorem sought_eq_resolve (hs : s.Consistent) (hr : s.Resident) (hl : s.Holds l.path) (name : String)
    (scope : ResolutionScope) :
    s.sought l name scope = s.resolve l name scope ∨
      ∃ u, s.seeking l name scope = .live u ∧ s.resolving l name scope = .live u := by
  obtain ⟨hc, hh⟩ := Holds.stop hl hs
  cases hloaded : s.loaded? l.host l.context name with
  | some u =>
    right
    refine ⟨u, ?_, ?_⟩
    · rw [seeking, hloaded]
      rfl
    · rw [resolving, Loader.path, finding, hloaded]
      cases hresident : s.resident? l.context name with
      | none => rfl
      | some v =>
        rw [hr.loaded?_eq hloaded hresident]
        rfl
  | none =>
    cases hresident : s.resident? l.context name with
    | some v =>
      right
      refine ⟨v, ?_, ?_⟩
      · rw [seeking, hloaded, resolving, Loader.path, finding, hresident]
        rfl
      · rw [resolving, Loader.path, finding, hresident]
        rfl
    | none =>
      left
      rw [sought, resolve, Search.orElse_of_none (loadedStep_of_none hloaded), Loader.path,
        resolveAlong_asked hs hc hh hresident hloaded]

/-- A living unit that was found has the record that it had before the search. -/
theorem Outcome.record_of_live (ho : Outcome s (.live u) a t) (hs : s.Consistent) :
    a = .unit u ∧ ∃ x, s.units.get? u = some x ∧ t.units.get? u = some x := by
  cases ho with
  | live ht hu =>
    have hlife := ht.sameLife hs
    rw [hlife.alive] at hu
    obtain ⟨x, hx⟩ := Option.isSome_iff_exists.1 (hs.alive hu)
    exact ⟨rfl, x, hx, hlife.unit hx⟩

theorem Outcome.record (ho : Outcome s f (.unit u) t) (hs : s.Consistent) :
    ∃ x, t.units.get? u = some x := by
  have ht : t.Consistent := ho.changes.consistent hs
  exact Option.isSome_iff_exists.1 (ht.alive (ho.alive rfl))

theorem Outcome.refusals (ho : Outcome s f a t) (hs : s.Consistent) (k : HostId) :
    (t.host k).refusals = (s.host k).refusals := by
  cases ho with
  | @fresh c h d r ht ha =>
    have hhost : ((r.installed c h d).host k).refusals = (r.host k).refusals := by
      refine host_setHost_congr (f := Host.refusals) ?_ k
      rfl
    exact hhost.trans ((ht.sameLife hs).refusals k)
  | live ht | failure ht | nothing ht => exact (ht.sameLife hs).refusals k

/-- What a load starts from and a resolution give the same answer, and the same record of a unit. -/
theorem sought_agrees (hs : s.Consistent) (hr : s.Resident) (hl : s.Holds l.path)
    (hscope : s.KnowsScope scope) (name : String) :
    (s.sought l name scope).1 = (s.resolve l name scope).1 ∧
      ∀ u, (s.resolve l name scope).1 = .ok u →
        ∃ x, (s.resolve l name scope).2.units.get? u = some x ∧
          (s.sought l name scope).2.units.get? u = some x := by
  have hres := resolve_outcome hs hl hscope name
  have hseek := sought_outcome hs hl hscope name
  rcases sought_eq_resolve hs hr hl name scope with heq | ⟨u, hseeking, hresolving⟩
  · rw [heq]
    refine ⟨rfl, ?_⟩
    intro u hu
    rw [Answer.ofResolution_eq_unit.2 hu] at hres
    obtain ⟨x, hx⟩ := hres.record hs
    exact ⟨x, hx, hx⟩
  · rw [hresolving] at hres
    rw [hseeking] at hseek
    obtain ⟨hu, x, hx, hxres⟩ := hres.record_of_live hs
    obtain ⟨hv, y, hy, hyseek⟩ := hseek.record_of_live hs
    rw [hx] at hy
    rw [Answer.ofResolution_eq_unit] at hu hv
    rw [hu, hv]
    refine ⟨rfl, ?_⟩
    intro w hw
    rw [← Except.ok.inj hw]
    exact ⟨x, hxres, by rw [hyseek, hy]⟩

-- ================================================================ linking what was found

theorem load_plain (s : System) (l : Loader) (name : String) (scope : ResolutionScope) :
    s.load l name false scope = s.sought l name scope := by
  rw [load_eq]
  obtain ⟨result, t, hr⟩ : ∃ result t, s.sought l name scope = (result, t) := ⟨_, _, rfl⟩
  rw [hr]
  cases result <;> rfl

theorem get?_markLinked (hx : s.units.get? u = some x) :
    (s.markLinked u).2.units.get? u = some x.markLinked := by
  simp [System.markLinked, hx]

/-- A host that takes everything links what was found, unless that is linked already. -/
theorem linkFound_plain (hplain : (s.host h).refusals = .none) (hx : s.units.get? u = some x) :
    (s.linkFound h u true).1 = .ok u ∧ (s.linkFound h u true).2.units.get? u = some x.markLinked := by
  have hlinked : s.isLinked u = x.linked := by
    rw [isLinked, hx]
    rfl
  rw [linkFound_eq, hlinked]
  cases hflag : x.linked with
  | true =>
    have hsame : x.markLinked = x := by
      cases x
      cases hflag
      rfl
    rw [hsame]
    exact ⟨rfl, hx⟩
  | false =>
    have hagreed : (s.host h).refusals.unlinkable.get? x.name = none := by
      rw [hplain]
      rfl
    rw [link_eq hx, hagreed]
    exact ⟨rfl, get?_markLinked hx⟩

/-- With a host that takes everything, a load gives the unit that was sought with its flag up. -/
theorem load_linked (hs : s.Consistent) (hl : s.Holds l.path) (hscope : s.KnowsScope scope)
    (hplain : (s.host l.host).refusals = .none) :
    (s.load l name true scope).1 = (s.sought l name scope).1 ∧
      ∀ u x, (s.sought l name scope).1 = .ok u → (s.sought l name scope).2.units.get? u = some x →
        (s.load l name true scope).2.units.get? u = some x.markLinked := by
  have ho := sought_outcome hs hl hscope name
  rw [load_eq]
  obtain ⟨result, t, ht⟩ : ∃ result t, s.sought l name scope = (result, t) := ⟨_, _, rfl⟩
  rw [ht] at ho ⊢
  cases result with
  | error e =>
    refine ⟨rfl, ?_⟩
    intro u x hu
    cases hu
  | ok v =>
    have htakes : (t.host l.host).refusals = .none := (ho.refusals hs l.host).trans hplain
    obtain ⟨y, hy⟩ := ho.record hs
    refine ⟨(linkFound_plain htakes hy).1, ?_⟩
    intro u x hu hx
    obtain rfl : v = u := Except.ok.inj hu
    exact (linkFound_plain htakes hx).2

-- ================================================================ agreement

/-- In every state that commands through the loaders reach, a load gives what a resolution gives: without
linking the same answer and the same unit, with linking at a host that takes everything the same answer
and the same unit with its flag up. -/
theorem load_agrees (hr : s.Reachable Command.LoaderLevel) (hl : s.Holds l.path)
    (hscope : s.KnowsScope scope) (name : String) :
    let found := s.perform (.resolve l name scope)
    let plain := s.perform (.load l name false scope)
    let linked := s.perform (.load l name true scope)
    plain.1 = found.1 ∧
    (∀ u, found.1 = .unit u → ∃ x, found.2.units.get? u = some x ∧ plain.2.units.get? u = some x) ∧
    ((s.host l.host).refusals = .none →
      linked.1 = found.1 ∧
      ∀ u, found.1 = .unit u →
        ∃ x, found.2.units.get? u = some x ∧ linked.2.units.get? u = some x.markLinked) := by
  intro found plain linked
  have hs := hr.consistent
  obtain ⟨hanswer, hrecord⟩ := sought_agrees hs hr.resident hl hscope name
  refine ⟨?_, ?_, ?_⟩
  · show Answer.ofResolution (s.load l name false scope).1 = .ofResolution (s.resolve l name scope).1
    rw [load_plain, hanswer]
  · intro u hu
    obtain ⟨x, hx, hxseek⟩ := hrecord u (Answer.ofResolution_eq_unit.1 hu)
    refine ⟨x, hx, ?_⟩
    show (s.load l name false scope).2.units.get? u = some x
    rw [load_plain]
    exact hxseek
  · intro hplain
    obtain ⟨hsame, hlinked⟩ := load_linked hs hl hscope hplain
    constructor
    · show Answer.ofResolution (s.load l name true scope).1 = .ofResolution (s.resolve l name scope).1
      rw [hsame, hanswer]
    · intro u hu
      have hok : (s.resolve l name scope).1 = .ok u := Answer.ofResolution_eq_unit.1 hu
      obtain ⟨x, hx, hxseek⟩ := hrecord u hok
      exact ⟨x, hx, hlinked u x (hanswer.trans hok) hxseek⟩

/-- A loader with a context of its own resolves and loads the unit of the root, and loading links it. -/
theorem load_agrees_branched :
    (branched.perform (.resolve .nested "a" .empty)).1 = .unit ⟨1⟩ ∧
      (branched.perform (.load .nested "a" false .empty)).1 = .unit ⟨1⟩ ∧
      (branched.perform (.load .nested "a" true .empty)).1 = .unit ⟨1⟩ ∧
      ∃ x, (branched.perform (.resolve .nested "a" .empty)).2.units.get? ⟨1⟩ = some x ∧
        (branched.perform (.load .nested "a" true .empty)).2.units.get? ⟨1⟩ = some x.markLinked := by
  have hscope : branched.KnowsScope .empty := fun _ hc => absurd hc List.not_mem_nil
  have hfound : (branched.perform (.resolve .nested "a" .empty)).1 = .unit ⟨1⟩ := rfl
  obtain ⟨hplain, -, hlinked⟩ := load_agrees reachable_branched branched_holds_nested hscope "a"
  obtain ⟨hanswer, hrecord⟩ := hlinked rfl
  exact ⟨hfound, hplain.trans hfound, hanswer.trans hfound, hrecord ⟨1⟩ hfound⟩

end System

end UnitLoading
