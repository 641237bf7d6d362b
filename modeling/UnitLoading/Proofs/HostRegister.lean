/-
The register of a host: what its table comes to, all laziness taken away.

A host does not keep its units alive and is not told when they die. It forgets a dead unit when somebody
asks for just its name in just its context, or when another unit takes its place, so at any time its table
holds any number of units that died long ago. A register that is kept beside the host and remembers, for each
context and name, the unit that was last accepted there and not released since says all that the host ever
answers, once the units that have died are left out.

`enroll` follows a run with the register. Whatever happens elsewhere passes the host by (`PassesBy`): units
die, other hosts are used, the host itself forgets dead units. `Enrolled` relates host and register and is
kept by every command, and so by every run in which no loader uses the host (`Run.enrolled`). What the host
has for the search locations is not kept in the register; it is the last publication of each name
(`Run.published`).
-/
import UnitLoading.Proofs.HostRelease
import UnitLoading.Proofs.Places
import UnitLoading.Proofs.Fading

namespace UnitLoading

variable {s t r : System} {c a : ContextId} {h k : HostId} {name x location : String} {u v : UnitId}
  {d : Definition} {f : Finding} {answer : Answer} {cmd : Command} {cmds : List Command}

-- ================================================================ the register

/-- Units by context and name, and how often an installation has changed them. -/
structure Register where
  accepted : ContextId → String → Option UnitId
  changes : Nat

namespace Register

def empty : Register := ⟨fun _ _ => none, 0⟩

/-- The living unit of a name in a context. -/
def live? (alive : UnitId → Bool) (m : Register) (c : ContextId) (name : String) : Option UnitId :=
  (m.accepted c name).filter alive

/-- Notes that a unit was accepted. That is a change unless the unit was there. -/
def accept (alive : UnitId → Bool) (m : Register) (c : ContextId) (name : String) (u : UnitId) : Register where
  accepted a x := if a = c ∧ x = name then some u else m.accepted a x
  changes := if m.live? alive c name = some u then m.changes else m.changes + 1

/-- Strikes out all units of a context. -/
def release (m : Register) (c : ContextId) : Register :=
  { m with accepted := fun a x => if a = c then none else m.accepted a x }

end Register

namespace Command

/-- Whether a loader uses the host in carrying out a command: it may install units there or have it forget
a context. -/
def Through (h : HostId) : Command → Prop
  | define l _ | close l => l.host = h
  | resolve l _ _ | load l _ _ _ => ∃ id c, .dynamic id c h ∈ l.path
  | _ => False

/-- Whether a command has a host take a unit, forget a context or serve a definition, past all loaders. -/
def Addresses (h : HostId) : Command → Prop
  | publish k .. | install k .. | releaseHost k _ => k = h
  | _ => False

/-- The definition of a name that a command publishes at a location of a host. -/
def publication? (h : HostId) (location name : String) : Command → Option Definition
  | publish k place d => if k = h ∧ place = location ∧ d.name = name then some d else none
  | _ => none

end Command

/-- The definition of a name that was most recently published at a location of a host. -/
def lastPublished? (h : HostId) (location name : String) (cmds : List Command) : Option Definition :=
  cmds.reverse.findSome? fun cmd => cmd.publication? h location name

namespace System

/-- The register of a host after a command. -/
def enroll (s : System) (h : HostId) (m : Register) : Command → Register
  | .install k c u =>
    match s.units.get? u, (s.install k c u).1 with
    | some unit, .ok () => if k = h then m.accept s.alive c unit.name u else m
    | _, _ => m
  | .releaseHost k c => if k = h then m.release c else m
  | _ => m

/-- The register of a host after a list of commands, and the state that they lead to. -/
def register (h : HostId) (cmds : List Command) : Register × System :=
  cmds.foldl (fun r cmd => (r.2.enroll h r.1 cmd, (r.2.perform cmd).2)) (.empty, .initial)

theorem register_append (h : HostId) (cmds : List Command) (cmd : Command) :
    register h (cmds ++ [cmd]) = ((register h cmds).2.enroll h (register h cmds).1 cmd,
      ((register h cmds).2.perform cmd).2) := by
  rw [register, List.foldl_append]
  rfl

-- ================================================================ passing a host by

/-- A host has installed nothing and been told to forget nothing: its living units are those that it had, as
far as they still live, and it serves the same definitions. -/
structure PassesBy (h : HostId) (s t : System) : Prop where
  onward : s.Onward t
  loaded (c : ContextId) (name : String) : t.loaded? h c name = (s.loaded? h c name).filter t.alive
  published : (t.host h).published = (s.host h).published
  installs : (t.host h).installs = (s.host h).installs

namespace PassesBy

theorem trans (hs : s.Consistent) (hst : PassesBy h s t) (htr : PassesBy h t r) : PassesBy h s r where
  onward := hst.onward.trans htr.onward
  loaded c name := by
    rw [htr.loaded, hst.loaded]
    exact htr.onward.filter_filter fun u hu => hst.onward.built (hs.alive (alive_of_loaded? hu))
  published := htr.published.trans hst.published
  installs := htr.installs.trans hst.installs

/-- A table that nobody has touched fades. -/
theorem of_table (hs : s.Consistent) (ho : s.Onward t) (hl : (t.host h).loaded = (s.host h).loaded)
    (hp : (t.host h).published = (s.host h).published) (hi : (t.host h).installs = (s.host h).installs) :
    PassesBy h s t where
  onward := ho
  loaded c name := by
    rw [loaded?, loaded?, Host.live?, Host.live?, hl]
    exact (ho.filter_filter fun u hu => hs.loaded hu).symm
  published := hp
  installs := hi

theorem of_host (hs : s.Consistent) (ho : s.Onward t) (hh : t.host h = s.host h) : PassesBy h s t :=
  .of_table hs ho (by rw [hh]) (by rw [hh]) (by rw [hh])

theorem of_hosts (hs : s.Consistent) (ho : s.Onward t) (hh : t.hosts = s.hosts) : PassesBy h s t :=
  .of_host hs ho (by rw [host, host, hh])

end PassesBy

theorem host_setHost_of_ne {y : Host} (hk : k ≠ h) : (s.setHost k y).host h = s.host h :=
  (host_setHost ..).trans (if_neg hk.symm)

theorem Upkeep.installs (hu : Upkeep s t) (h : HostId) : (t.host h).installs = (s.host h).installs := by
  cases hu with
  | evict | sweep => rfl
  | forget =>
    refine host_setHost_congr (f := Host.installs) ?_ h
    rfl
  | refuse =>
    rw [refused, release_eq]
    rfl

/-- A host forgets dead units only while others search. -/
theorem Upkeeps.passesBy (hu : Upkeeps s t) (hs : s.Consistent) (h : HostId) : PassesBy h s t := by
  induction hu with
  | refl => exact .of_hosts hs (.refl s) rfl
  | tail hrest hstep ih =>
    have hlife := hstep.sameLife (Upkeeps.consistent hrest hs)
    refine ih.trans hs ⟨hlife.onward, ?_, hlife.published h, hstep.installs h⟩
    intro c name
    rw [← hlife.loaded]
    exact (filter_alive fun u hu => alive_of_loaded? hu).symm

/-- A search that builds nothing at a host passes it by. -/
theorem Outcome.passesBy (ho : Outcome s f answer t) (hs : s.Consistent) (hf : ∀ c d, f ≠ .fresh c h d) :
    PassesBy h s t := by
  cases ho with
  | @live u r ht hu =>
    have hr := ht.consistent hs
    exact (ht.passesBy hs h).trans hs (.of_hosts hr ((Change.retain hu).onward hr) rfl)
  | @fresh c k d r ht ha =>
    have hr := ht.consistent hs
    have hk : k ≠ h := fun e => hf c d (by rw [e])
    refine (ht.passesBy hs h).trans hs (.of_host hr ((Change.installed ha).onward hr) ?_)
    exact host_setHost_of_ne hk
  | failure ht => exact ht.passesBy hs h
  | nothing ht => exact ht.passesBy hs h

/-- Linking a unit only counts links. -/
theorem host_link_congr {α : Type} {f : Host → α} (hf : ∀ y : Host, f { y with links := y.links + 1 } = f y)
    (s : System) (k : HostId) (u : UnitId) (h : HostId) : f ((s.link k u).2.host h) = f (s.host h) := by
  unfold System.link
  split
  · rfl
  · split
    · next y x hok =>
      have hsame : f y = f (s.host k) := by
        unfold Host.link at hok
        split at hok
        · cases hok
        · rw [← (Prod.mk.inj (Except.ok.inj hok)).1]
          split
          · rfl
          · exact hf _
      exact host_setHost_congr hsame h
    · rfl

theorem PassesBy.link (hs : s.Consistent) (ho : s.Onward (s.link k u).2) (h : HostId) :
    PassesBy h s (s.link k u).2 :=
  .of_table hs ho (host_link_congr (f := Host.loaded) (fun _ => rfl) s k u h)
    (host_link_congr (f := Host.published) (fun _ => rfl) s k u h)
    (host_link_congr (f := Host.installs) (fun _ => rfl) s k u h)

/-- A load passes by every host that no loader on its path has. -/
theorem load_passesBy {l : Loader} {scope : ResolutionScope} (hs : s.Consistent) (hl : s.Holds l.path)
    (hscope : s.KnowsScope scope) (hpath : ¬ ∃ id c, .dynamic id c h ∈ l.path) (name : String) (link : Bool) :
    PassesBy h s (s.load l name link scope).2 := by
  have ho := sought_outcome hs hl hscope name
  have hhost : s.HasHost l.host := (hs.toWired.known hl List.mem_cons_self).2
  have hsearch : PassesBy h s (s.sought l name scope).2 := by
    refine ho.passesBy hs fun c d hf => hpath ?_
    obtain ⟨⟨id, hstop⟩, -⟩ := seeking_fresh hs hf
    exact ⟨id, c, hstop⟩
  rw [load_eq]
  obtain ⟨result, t, hr⟩ : ∃ result t, s.sought l name scope = (result, t) := ⟨_, _, rfl⟩
  rw [hr] at ho hsearch ⊢
  cases result with
  | error e => exact hsearch
  | ok u =>
    have ht : t.Consistent := ho.changes.consistent hs
    refine hsearch.trans hs ?_
    dsimp only
    rw [linkFound_eq]
    split
    · cases (t.link l.host u).1 with
      | ok => exact .link ht ((link_changes (ho.hasHost hs hhost) (ho.alive rfl)).moves.onward ht) h
      | error e =>
        refine .of_hosts ht ((Change.release u).onward ht) ?_
        rw [release_eq]
    · exact .of_hosts ht (.refl t) rfl

-- ================================================================ commands that pass a host by

/-- Units die with a loader, and the hosts are not told. -/
theorem hosts_letGo (s : System) (path : List Stop) : (s.letGo path).hosts = s.hosts :=
  letGo_induction path (P := fun t => t.hosts = s.hosts) (fun t u ht => by
    rw [disown_eq]
    exact ht) rfl

theorem hosts_configuredLoader (s : System) (config : LoaderConfig) (parent : Option Parent) (k : HostId) :
    (s.configuredLoader config parent k).2.hosts = s.hosts := by
  unfold System.configuredLoader
  split
  · rfl
  · split <;> rfl
  · rfl

/-- A host that was not made yet has nothing, as a new host has. -/
theorem PassesBy.newHost (hs : s.Consistent) (refusals : Refusals) (h : HostId) :
    PassesBy h s (s.newHost refusals).2 := by
  have hnew : s.host ⟨s.hosts.size⟩ = default := by
    rw [System.host, get?_hosts_size hs.toNumbered]
    rfl
  refine .of_table hs (.of_eq rfl rfl rfl) (host_setHost_congr (f := Host.loaded) ?_ h)
    (host_setHost_congr (f := Host.published) ?_ h) (host_setHost_congr (f := Host.installs) ?_ h)
  all_goals
    rw [hnew]
    rfl

/-- A command passes a host by unless it addresses the host, or a loader uses the host in carrying it out. -/
theorem perform_passesBy (hs : s.Consistent) (hp : cmd.Possible s) (hthrough : ¬ cmd.Through h)
    (haddress : ¬ cmd.Addresses h) : PassesBy h s (s.perform cmd).2 := by
  have hon : s.Onward (s.perform cmd).2 := (perform_moves hs hp).onward hs
  have hlookup : ∀ {found answer t}, Outcome s (.ofLookup found) answer t → PassesBy h s t := fun ho =>
    ho.passesBy hs fun _ _ => Finding.ofLookup_ne_fresh
  cases cmd with
  | define l d =>
    obtain ⟨hc, hh⟩ := Holds.stop hp hs
    refine (defineIn_outcome hs hc hh d).passesBy hs fun c e hf => hthrough ?_
    exact (defining_fresh hf).2.1.symm
  | findResident l x => exact hlookup (findResident_outcome hs (Holds.stop hp hs).1 x)
  | resolveViaChain scope x => exact hlookup (resolveViaChain_outcome hs hp x)
  | cached c x => exact hlookup (cached_outcome hp x)
  | findLoaded k c x => exact hlookup (findLoaded_outcome hp c x)
  | resolve l x scope =>
    refine (resolve_outcome hs hp.1 hp.2 x).passesBy hs fun c d hf => hthrough ?_
    obtain ⟨⟨id, hstop⟩, -⟩ := resolving_fresh hs hf
    exact ⟨id, c, hstop⟩
  | load l x link scope => exact load_passesBy hs hp.1 hp.2 hthrough x link
  | close l =>
    refine .of_host hs hon ?_
    show (s.close l).host h = s.host h
    rw [close_eq]
    split
    · rfl
    · exact host_setHost_of_ne hthrough
  | install k c u =>
    refine .of_host hs hon ?_
    show (s.install k c u).2.host h = s.host h
    unfold System.install
    split
    · rfl
    · split
      · exact host_setHost_of_ne haddress
      · rfl
  | publish k location d => exact .of_host hs hon (host_setHost_of_ne haddress)
  | releaseHost k c => exact .of_host hs hon (host_setHost_of_ne haddress)
  | link k u => exact .link hs hon h
  | newHost refusals => exact .newHost hs refusals h
  | newForeign units raises via => exact .of_hosts hs hon (adopt_frame units s hp.1).2.2
  | createLoader parent locations k =>
    cases parent <;> exact .of_hosts hs hon rfl
  | configuredLoader config parent k => exact .of_hosts hs hon (hosts_configuredLoader s config parent k)
  | loaderFromFile file content parent k =>
    refine .of_hosts hs hon ?_
    simp only [perform, answering, loaderFromFile]
    split
    · rfl
    · exact hosts_configuredLoader s _ parent k
  | release u =>
    refine .of_hosts hs hon ?_
    show (s.release u).hosts = s.hosts
    rw [release_eq]
  | letGo path => exact .of_hosts hs hon (hosts_letGo s path)
  | markLinked u =>
    refine .of_hosts hs hon ?_
    show (s.markLinked u).2.hosts = s.hosts
    unfold System.markLinked
    split <;> rfl
  | insertCached c x make =>
    refine .of_hosts hs hon ?_
    simp only [perform, answering, insertCached_eq hp.1]
    cases make (s.resident? c x) <;> rfl
  | registerConstants l g values =>
    refine .of_hosts hs hon ?_
    simp only [perform, answering, registerConstants]
    split <;> rfl
  | newContext | rootLoader | loaderInContext | childLoader | isolatedLoader | addLocation | buildDetached |
    retain | hold | sweep | clearCache | drainQueue | registerPool | clearPools =>
    exact .of_hosts hs hon rfl

-- ================================================================ commands that address a host

end System

/-- A host that takes a unit had that unit already, or had no living one in its place. -/
theorem Host.install_accepted {alive : UnitId → Bool} {y z : Host} {unit : CompiledUnit}
    (hz : y.install alive c unit = .ok z) :
    y.live? alive c unit.name = some unit.id ∧ z = y ∨
      y.live? alive c unit.name = none ∧ z = y.withLoaded c unit.name unit.id := by
  unfold install accept at hz
  split at hz
  · cases hz
  · split at hz
    · cases hz
    · split at hz
      · cases hz
      · split at hz
        · next other hlive =>
          split at hz
          · next hsame =>
            rw [hlive, hsame]
            exact .inl ⟨rfl, (Except.ok.inj hz).symm⟩
          · cases hz
        · next hlive => exact .inr ⟨hlive, (Except.ok.inj hz).symm⟩

namespace System

/-- The same, as the system has it. -/
theorem install_accepted {unit : CompiledUnit} (hs : s.Consistent) (hh : s.HasHost h)
    (hx : s.units.get? u = some unit) (hok : (s.install h c u).1 = .ok ()) :
    s.loaded? h c unit.name = some u ∧ (s.install h c u).2 = s ∨
      s.loaded? h c unit.name = none ∧
        (s.install h c u).2 = s.setHost h ((s.host h).withLoaded c unit.name u) := by
  unfold System.install at hok ⊢
  rw [hx] at hok ⊢
  dsimp only at hok ⊢
  cases hi : (s.host h).install s.alive c unit with
  | error e =>
    rw [hi] at hok
    cases hok
  | ok y =>
    have hid := hs.unit_id hx
    rcases Host.install_accepted hi with ⟨hlive, rfl⟩ | ⟨hlive, rfl⟩
    · rw [hid] at hlive
      exact .inl ⟨hlive, setHost_host hh⟩
    · rw [hid]
      exact .inr ⟨hlive, rfl⟩

theorem loaded?_withLoaded (hu : s.alive u = true) (h : HostId) (c : ContextId) (name : String) (a : ContextId)
    (x : String) : (s.setHost h ((s.host h).withLoaded c name u)).loaded? h a x
      = if a = c ∧ x = name then some u else s.loaded? h a x := by
  have hhost : (s.setHost h ((s.host h).withLoaded c name u)).host h = (s.host h).withLoaded c name u :=
    (host_setHost ..).trans (if_pos rfl)
  rw [loaded?, hhost, Host.live?, Host.withLoaded, Table.get?_insert]
  by_cases hplace : a = c ∧ x = name
  · obtain ⟨rfl, rfl⟩ := hplace
    rw [if_pos rfl, if_pos ⟨rfl, rfl⟩]
    exact Option.filter_eq_some_iff.2 ⟨rfl, hu⟩
  · rw [if_neg fun e => hplace (Prod.mk.inj e), if_neg hplace]
    rfl

theorem loaded?_releaseHost (s : System) (h : HostId) (c a : ContextId) (x : String) :
    (s.releaseHost h c).loaded? h a x = if a = c then none else s.loaded? h a x := by
  have hhost : (s.releaseHost h c).host h = (s.host h).release c := (host_setHost ..).trans (if_pos rfl)
  rw [loaded?, hhost]
  exact Host.live?_release ..

-- ================================================================ every run

end System

theorem Register.live?_accept {alive : UnitId → Bool} (hu : alive u = true) (m : Register) (c : ContextId)
    (name : String) (a : ContextId) (x : String) : (m.accept alive c name u).live? alive a x
      = if a = c ∧ x = name then some u else m.live? alive a x := by
  unfold live? accept
  dsimp only
  split
  · exact Option.filter_eq_some_iff.2 ⟨rfl, hu⟩
  · rfl

theorem Register.live?_release (alive : UnitId → Bool) (m : Register) (c a : ContextId) (x : String) :
    (m.release c).live? alive a x = if a = c then none else m.live? alive a x := by
  unfold live? release
  dsimp only
  split <;> rfl

namespace System

/-- A host has a living unit in a place exactly if the register has, and has counted what changed the
register. -/
structure Enrolled (s : System) (h : HostId) (m : Register) : Prop where
  built {c : ContextId} {name : String} {u : UnitId} : m.accepted c name = some u → s.Built u
  view (c : ContextId) (name : String) : s.loaded? h c name = m.live? s.alive c name
  count : (s.host h).installs = m.changes

variable {m : Register}

theorem Enrolled.passesBy (he : s.Enrolled h m) (ht : PassesBy h s t) : t.Enrolled h m where
  built hu := ht.onward.built (he.built hu)
  view c name := by
    rw [ht.loaded, he.view]
    exact ht.onward.filter_filter fun u hu => he.built hu
  count := ht.installs.trans he.count

theorem Enrolled.built_accept (he : s.Enrolled h m) (hu : s.Built u)
    (hv : (m.accept s.alive c name u).accepted a x = some v) : s.Built v := by
  unfold Register.accept at hv
  dsimp only at hv
  split at hv
  · rw [← Option.some.inj hv]
    exact hu
  · exact he.built hv

/-- Accepting a unit where it is already changes neither the host nor the count. -/
theorem Enrolled.again (he : s.Enrolled h m) (hs : s.Consistent) (hu : s.alive u = true)
    (hthere : s.loaded? h c name = some u) : s.Enrolled h (m.accept s.alive c name u) where
  built := he.built_accept (hs.alive hu)
  view a x := by
    rw [Register.live?_accept hu]
    split
    · next hplace =>
      obtain ⟨rfl, rfl⟩ := hplace
      exact hthere
    · exact he.view a x
  count := by
    rw [he.view] at hthere
    exact he.count.trans (if_pos hthere).symm

/-- Accepting a unit in a free place is one change, of the host as of the register. -/
theorem Enrolled.accept (he : s.Enrolled h m) (hs : s.Consistent) (hu : s.alive u = true)
    (hfree : s.loaded? h c name = none) :
    (s.setHost h ((s.host h).withLoaded c name u)).Enrolled h (m.accept s.alive c name u) where
  built := he.built_accept (hs.alive hu)
  view a x := by
    rw [loaded?_withLoaded hu]
    show _ = (m.accept s.alive c name u).live? s.alive a x
    rw [Register.live?_accept hu, he.view]
  count := by
    have hhost : ((s.setHost h ((s.host h).withLoaded c name u)).host h).installs
        = (s.host h).installs + 1 := by
      rw [host_setHost, if_pos rfl]
      rfl
    have hfresh : m.live? s.alive c name ≠ some u := by
      rw [← he.view, hfree]
      exact (Option.some_ne_none u).symm
    rw [hhost, he.count]
    exact (if_neg hfresh).symm

theorem Enrolled.install (he : s.Enrolled h m) (hs : s.Consistent) (hh : s.HasHost h) (hu : s.alive u = true)
    (c : ContextId) : (s.perform (.install h c u)).2.Enrolled h (s.enroll h m (.install h c u)) := by
  obtain ⟨unit, hx⟩ := Option.isSome_iff_exists.1 (hs.alive hu)
  show (s.install h c u).2.Enrolled h _
  rw [enroll, hx]
  cases hi : (s.install h c u).1 with
  | error e =>
    rw [install_of_error hi]
    exact he
  | ok =>
    dsimp only
    rw [if_pos rfl]
    rcases install_accepted hs hh hx hi with ⟨hthere, hsame⟩ | ⟨hfree, hnew⟩
    · rw [hsame]
      exact he.again hs hu hthere
    · rw [hnew]
      exact he.accept hs hu hfree

theorem Enrolled.release (he : s.Enrolled h m) (c : ContextId) : (s.releaseHost h c).Enrolled h (m.release c) where
  built {a x u} hu := by
    unfold Register.release at hu
    dsimp only at hu
    split at hu
    · cases hu
    · exact he.built hu
  view a x := by
    rw [loaded?_releaseHost, Register.live?_release, he.view]
    rfl
  count := by
    rw [releaseHost, host_setHost, if_pos rfl]
    exact he.count

/-- Publishing changes no unit of a host. -/
theorem Enrolled.publish (he : s.Enrolled h m) (k : HostId) (location : String) (d : Definition) :
    (s.publish k location d).Enrolled h m where
  built := he.built
  view a x := by
    refine Eq.trans ?_ (he.view a x)
    refine host_setHost_congr (f := fun y => y.live? s.alive a x) ?_ h
    rfl
  count := by
    refine Eq.trans ?_ he.count
    refine host_setHost_congr (f := Host.installs) ?_ h
    rfl

/-- What a command does to a host is entered in the register. -/
theorem Enrolled.step (he : s.Enrolled h m) (hs : s.Consistent) (hp : cmd.Possible s)
    (hthrough : ¬ cmd.Through h) : (s.perform cmd).2.Enrolled h (s.enroll h m cmd) := by
  by_cases haddress : cmd.Addresses h
  · cases cmd with
    | install k c u =>
      obtain rfl : k = h := haddress
      exact he.install hs hp.1 (alive_of_mem_handles hp.2) c
    | releaseHost k c =>
      obtain rfl : k = h := haddress
      rw [enroll, if_pos rfl]
      exact he.release c
    | publish k location d => exact he.publish k location d
    | _ => exact absurd haddress id
  · have hidle : s.enroll h m cmd = m := by
      cases cmd with
      | install k c u =>
        have hk : k ≠ h := haddress
        rw [enroll]
        split
        · rw [if_neg hk]
        · rfl
      | releaseHost k c =>
        have hk : k ≠ h := haddress
        exact if_neg hk
      | _ => rfl
    rw [hidle]
    exact he.passesBy (perform_passesBy hs hp hthrough haddress)

-- ================================================================ definitions

theorem published_install (s : System) (k : HostId) (c : ContextId) (u : UnitId) (h : HostId) :
    ((s.install k c u).2.host h).published = (s.host h).published := by
  unfold System.install
  split
  · rfl
  · split
    · next y hok =>
      refine host_setHost_congr (f := Host.published) ?_ h
      rcases Host.install_ok hok with rfl | rfl <;> rfl
    · rfl

/-- A publication takes the place of that name at that location, and nothing else changes what a host
serves. -/
theorem published_perform (hs : s.Consistent) (hp : cmd.Possible s) (hthrough : ¬ cmd.Through h)
    (location name : String) : ((s.perform cmd).2.host h).published.get? (location, name)
      = (cmd.publication? h location name).or ((s.host h).published.get? (location, name)) := by
  by_cases haddress : cmd.Addresses h
  · cases cmd with
    | install k c u =>
      show ((s.install k c u).2.host h).published.get? (location, name) = _
      rw [published_install]
      rfl
    | releaseHost k c =>
      obtain rfl : k = h := haddress
      show ((s.setHost k ((s.host k).release c)).host k).published.get? (location, name) = _
      rw [host_setHost, if_pos rfl]
      rfl
    | publish k place d =>
      obtain rfl : k = h := haddress
      show ((s.setHost k ((s.host k).publish place d)).host k).published.get? (location, name) = _
      rw [host_setHost, if_pos rfl, Host.publish, Table.get?_insert, Command.publication?]
      by_cases hplace : place = location ∧ d.name = name
      · obtain ⟨rfl, rfl⟩ := hplace
        rw [if_pos rfl, if_pos ⟨rfl, rfl, rfl⟩]
        rfl
      · rw [if_neg fun e => hplace ⟨(Prod.mk.inj e).1.symm, (Prod.mk.inj e).2.symm⟩,
          if_neg fun e => hplace e.2]
        rfl
    | _ => exact absurd haddress id
  · have hidle : cmd.publication? h location name = none := by
      cases cmd with
      | publish k place d =>
        have hk : k ≠ h := haddress
        exact if_neg fun e => hk e.1
      | _ => rfl
    rw [hidle, (perform_passesBy hs hp hthrough haddress).published]
    rfl

end System

-- ================================================================ every run

/-- Along every run in which no loader uses a host, the register says what the host has. -/
theorem Run.enrolled (hr : Run (fun cmd => ¬ cmd.Through h) .initial cmds s) :
    (System.register h cmds).2 = s ∧ s.Enrolled h (System.register h cmds).1 := by
  induction hr with
  | start =>
    refine ⟨rfl, ?_, fun _ _ => rfl, rfl⟩
    intro c name u hu
    cases hu
  | step hrest hallowed hp ih =>
    obtain ⟨hstate, henrolled⟩ := ih
    rw [System.register_append, hstate]
    exact ⟨rfl, henrolled.step (hrest.consistent .initial) hp hallowed⟩

/-- Along such a run, a host serves what was last published. -/
theorem Run.published (hr : Run (fun cmd => ¬ cmd.Through h) .initial cmds s) (location name : String) :
    (s.host h).published.get? (location, name) = lastPublished? h location name cmds := by
  induction hr with
  | start => rfl
  | @step cmds t cmd hrest hallowed hp ih =>
    rw [System.published_perform (hrest.consistent .initial) hp hallowed, ih, lastPublished?, lastPublished?,
      List.reverse_append]
    show _ = List.findSome? _ (cmd :: cmds.reverse)
    rw [List.findSome?_cons]
    cases cmd.publication? h location name <;> rfl

namespace System

/-- What a host that takes everything answers to an installation. -/
theorem install_answer {unit : CompiledUnit} (hs : s.Consistent) (hplain : (s.host h).refusals = .none)
    (hx : s.units.get? u = some unit) (c : ContextId) :
    (s.perform (.install h c u)).1 =
      if unit.bytes = [] then .failed (.error (.host (.rejected unit.name "unit has no bytes")))
      else if s.loaded? h c unit.name = none ∨ s.loaded? h c unit.name = some u then .done
      else .failed (.error (.host (.alreadyDefined unit.name c))) := by
  have htakes : (s.host h).install s.alive c unit = (s.host h).accept s.alive c unit := by
    rw [Host.install, hplain]
    rfl
  show Answer.ofHost (s.install h c u).1 = _
  rw [System.install, hx, loaded?]
  dsimp only
  rw [htakes, Host.accept, hs.unit_id hx]
  by_cases hempty : unit.bytes = []
  · rw [hempty]
    rfl
  · have hbytes : unit.bytes.isEmpty = false := by simpa using hempty
    rw [if_neg hempty, hbytes]
    cases (s.host h).live? s.alive c unit.name with
    | none => rfl
    | some v =>
      by_cases hv : v = u
      · subst hv
        simp [Answer.ofHost]
      · simp [hv, Answer.ofHost]

/-- A host that takes everything is, to all who use it directly, a plain table of the units that it accepted
last, without those that it released and those that have died. It takes a unit exactly if it has bytes and
its place is free or its own; a refusal names what is wrong and changes nothing. Look-ups give what the table
has, the installations counted are those that changed the table, and a release takes out the keys of its
context. For search locations it serves the latest publication at the first one that has any. -/
theorem host_refines (hr : Run (fun cmd => ¬ cmd.Through h) .initial cmds s)
    (hplain : (s.host h).refusals = .none) :
    let held := (register h cmds).1.live? s.alive
    (∀ c u unit, s.units.get? u = some unit →
      (s.perform (.install h c u)).1 =
        (if unit.bytes = [] then .failed (.error (.host (.rejected unit.name "unit has no bytes")))
        else if held c unit.name = none ∨ held c unit.name = some u then .done
        else .failed (.error (.host (.alreadyDefined unit.name c)))) ∧
      ((s.perform (.install h c u)).1 ≠ .done → (s.perform (.install h c u)).2 = s)) ∧
    (∀ c name, (s.perform (.findLoaded h c name)).1 = .ofLookup (held c name)) ∧
    (s.host h).installs = (register h cmds).1.changes ∧
    (∀ c a name, ((s.perform (.releaseHost h c)).2.perform (.findLoaded h a name)).1
      = .ofLookup (if a = c then none else held a name)) ∧
    ∀ name locations, (s.host h).locate name locations
      = locations.findSome? fun location => lastPublished? h location name cmds := by
  have hs : s.Consistent := hr.consistent .initial
  obtain ⟨-, henrolled⟩ := hr.enrolled
  refine ⟨?_, ?_, henrolled.count, ?_, ?_⟩
  · intro c u unit hx
    constructor
    · rw [← henrolled.view]
      exact install_answer hs hplain hx c
    · intro hrefused
      cases hi : (s.install h c u).1 with
      | error e => exact install_of_error hi
      | ok =>
        have hdone : (s.perform (.install h c u)).1 = .done := congrArg Answer.ofHost hi
        exact absurd hdone hrefused
  · intro c name
    rw [← henrolled.view]
    exact findLoaded_answer s h c name
  · intro c a name
    rw [← henrolled.view, ← loaded?_releaseHost]
    exact findLoaded_answer (s.releaseHost h c) h a name
  · intro name locations
    rw [Host.locate]
    congr 1
    funext location
    exact hr.published location name

/-- A program that uses a host without a loader: it installs one unit in two contexts, once even twice, has
another one of its name refused, publishes a definition two times and drops the unit. -/
def hosting : List Command :=
  [.newHost .none, .newContext .root, .buildDetached ⟨"a", [1], none⟩, .buildDetached ⟨"a", [2], none⟩,
    .buildDetached ⟨"e", [], none⟩, .install ⟨0⟩ .root ⟨1⟩, .install ⟨0⟩ ⟨1⟩ ⟨1⟩, .install ⟨0⟩ .root ⟨1⟩,
    .install ⟨0⟩ .root ⟨2⟩, .publish ⟨0⟩ "lib" ⟨"n", [3], none⟩, .publish ⟨0⟩ "lib" ⟨"n", [4], none⟩,
    .release ⟨1⟩, .install ⟨0⟩ .root ⟨2⟩]

/-- The state that the program leads to. -/
def hosted : System := (register ⟨0⟩ hosting).2

theorem run_hosting : Run (fun cmd => ¬ cmd.Through ⟨0⟩) .initial hosting hosted := by
  have hhandle : ∀ {s : System} {u : UnitId}, s.handles.elem u = true → u ∈ s.handles :=
    List.mem_of_elem_eq_true
  exact .cons id trivial (.cons id rfl (.cons id trivial (.cons id trivial (.cons id trivial
    (.cons id ⟨rfl, hhandle rfl⟩ (.cons id ⟨rfl, hhandle rfl⟩ (.cons id ⟨rfl, hhandle rfl⟩
      (.cons id ⟨rfl, hhandle rfl⟩ (.cons id rfl (.cons id rfl (.cons id (hhandle rfl)
        (.cons id ⟨rfl, hhandle rfl⟩ .start))))))))))))

/-- The unit that was dropped is gone from both contexts, and the one refused before has taken its place in
the first; three installations have changed the table. -/
theorem host_refines_hosted :
    (hosted.perform (.findLoaded ⟨0⟩ .root "a")).1 = .unit ⟨2⟩ ∧
      (hosted.perform (.findLoaded ⟨0⟩ ⟨1⟩ "a")).1 = .absent ∧
      (hosted.perform (.install ⟨0⟩ ⟨1⟩ ⟨3⟩)).1
        = .failed (.error (.host (.rejected "e" "unit has no bytes"))) ∧
      (hosted.host ⟨0⟩).installs = 3 ∧
      (hosted.host ⟨0⟩).locate "n" ["none", "lib"] = some ⟨"n", [4], none⟩ := by
  obtain ⟨hinstall, hfind, hcount, -, hlocate⟩ := host_refines run_hosting (h := ⟨0⟩) rfl
  exact ⟨hfind .root "a", hfind ⟨1⟩ "a", (hinstall ⟨1⟩ ⟨3⟩ _ rfl).1, hcount, hlocate "n" _⟩

end System

end UnitLoading
