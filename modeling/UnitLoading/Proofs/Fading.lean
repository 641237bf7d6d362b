/-
Fading: what becomes of the living entries of a name under which nothing new is put.

A cache entry or an entry of a host stays for as long as its unit lives and is as good as gone afterwards.
`Fades name s t` says that this is all that has happened to the entries of the name from one state to the
other. Nearly all commands touch no table at all (`perform_sameTables`), and where no table is touched all
names fade, since a unit that lives has always lived. Look-ups only take out what is dead. Definitions,
resolutions and writes put something under the names that they are about, and so every command lets all
other names fade, unless it closes a context or clears a table (`perform_fades`).
-/
import UnitLoading.Proofs.Places

namespace UnitLoading

variable {s t r : System} {c a : ContextId} {h k : HostId} {name : String} {u v : UnitId} {d : Definition}
  {f : Finding} {answer : Answer} {cmd : Command}

/-- Whether a command neither writes an entry into a cache or the table of a host nor takes one out. -/
def Command.LeavesTables : Command → Prop
  | define .. | findResident .. | resolveViaChain .. | resolve .. | load .. | close _ | cached .. | sweep _ |
    findLoaded .. | insertCached .. | clearCache _ | install .. | releaseHost .. => False
  | _ => True

/-- Whether a command may put a unit under a name, into a cache or the table of a host. -/
def Command.Concerns (s : System) (name : String) : Command → Prop
  | define _ d => d.name = name
  | resolve _ x _ | load _ x _ _ | insertCached _ x _ => x = name
  | install _ _ u => ∃ x, s.units.get? u = some x ∧ x.name = name
  | _ => False

/-- Whether a command closes a context, clears a cache or has a host forget a context. -/
def Command.Empties : Command → Prop
  | close _ | clearCache _ | releaseHost .. => True
  | _ => False

namespace System

-- ================================================================ the same tables

/-- Two states with the same entries, stale ones included, and with the same contexts open. In the later one
there may be more contexts and hosts, which are empty. -/
structure SameTables (s t : System) : Prop where
  entries (c : ContextId) : (t.context c).cache.entries = (s.context c).cache.entries
  loaded (h : HostId) : (t.host h).loaded = (s.host h).loaded
  closed (c : ContextId) : (t.context c).closed = (s.context c).closed
  knows {c : ContextId} : s.Knows c → t.Knows c
  ancestors {c : ContextId} : s.Knows c → (t.context c).ancestors = (s.context c).ancestors

theorem Knows.setContext {x : Context} (hc : s.Knows c) (a : ContextId) : (s.setContext a x).Knows c := by
  by_cases hca : c = a
  · simp [Knows, System.setContext, hca]
  · simpa [Knows, System.setContext, hca] using hc

namespace SameTables

theorem refl (s : System) : s.SameTables s :=
  ⟨fun _ => rfl, fun _ => rfl, fun _ => rfl, id, fun _ => rfl⟩

theorem trans (hst : s.SameTables t) (htr : t.SameTables r) : s.SameTables r where
  entries c := (htr.entries c).trans (hst.entries c)
  loaded h := (htr.loaded h).trans (hst.loaded h)
  closed c := (htr.closed c).trans (hst.closed c)
  knows hc := htr.knows (hst.knows hc)
  ancestors hc := (htr.ancestors (hst.knows hc)).trans (hst.ancestors hc)

/-- Where the same units live, the same living units are found. -/
theorem resident? (ht : s.SameTables t) (ha : ∀ v, t.alive v = s.alive v) (c : ContextId) (name : String) :
    t.resident? c name = s.resident? c name := by
  rw [System.resident?, System.resident?, UnitCache.live?, UnitCache.live?, ht.entries, funext ha]

theorem loaded? (ht : s.SameTables t) (ha : ∀ v, t.alive v = s.alive v) (h : HostId) (c : ContextId)
    (name : String) : t.loaded? h c name = s.loaded? h c name := by
  rw [System.loaded?, System.loaded?, Host.live?, Host.live?, ht.loaded, funext ha]

theorem of_eq (hc : t.contexts = s.contexts) (hh : t.hosts = s.hosts) : s.SameTables t := by
  have hcontext : ∀ c, t.context c = s.context c := fun c => by rw [context, context, hc]
  have hhost : ∀ h, t.host h = s.host h := fun h => by rw [host, host, hh]
  refine ⟨fun c => ?_, fun h => ?_, fun c => ?_, fun hk => ?_, fun _ => ?_⟩
  · rw [hcontext]
  · rw [hhost]
  · rw [hcontext]
  · rwa [Knows, hc]
  · rw [hcontext]

theorem setContext {x : Context} (hentries : x.cache.entries = (s.context c).cache.entries)
    (hclosed : x.closed = (s.context c).closed)
    (hancestors : s.Knows c → x.ancestors = (s.context c).ancestors) : s.SameTables (s.setContext c x) where
  entries := context_setContext_congr (f := fun x => x.cache.entries) hentries
  loaded _ := rfl
  closed := context_setContext_congr (f := Context.closed) hclosed
  knows hk := hk.setContext c
  ancestors {a} hk := by
    rw [context_setContext]
    split
    · next hac =>
      subst hac
      exact hancestors hk
    · rfl

theorem setHost {y : Host} (hloaded : y.loaded = (s.host h).loaded) : s.SameTables (s.setHost h y) where
  entries _ := rfl
  loaded := host_setHost_congr hloaded
  closed _ := rfl
  knows := id
  ancestors _ := rfl

theorem bury (s : System) (u : UnitId) : s.SameTables (s.bury u) := by
  unfold System.bury
  split
  · exact .refl s
  · split
    · exact .refl s
    · exact .setContext rfl rfl fun _ => rfl

theorem buryIfDead (s : System) (u : UnitId) : s.SameTables (s.buryIfDead u) := by
  unfold System.buryIfDead
  split
  · exact .refl s
  · exact .bury s u

theorem release (s : System) (u : UnitId) : s.SameTables (s.release u) := by
  unfold System.release
  split
  · exact SameTables.trans (t := { s with handles := s.handles.erase u }) (.of_eq rfl rfl) (.buryIfDead _ u)
  · exact .refl s

theorem disown (s : System) (u : UnitId) : s.SameTables (s.disown u) := by
  unfold System.disown
  split
  · exact SameTables.trans (t := { s with owned := s.owned.erase u }) (.of_eq rfl rfl) (.buryIfDead _ u)
  · exact .refl s

theorem letGo (s : System) (path : List Stop) : s.SameTables (s.letGo path) :=
  letGo_induction path (P := s.SameTables) (fun t u ht => ht.trans (.disown t u)) (.of_eq rfl rfl)

theorem newForeign {units : List (String × UnitId)} (hu : ∀ e ∈ units, e.2 ∈ s.handles)
    (raises : List String) (via : Option Loader) : s.SameTables (s.newForeign units raises via).2 := by
  have hadopt := adopt_induction (P := s.SameTables) (fun t u ht _ => ht.trans (.of_eq rfl rfl))
    (fun t u ht => ht.trans (.disown t u)) units .empty s (.refl s) hu
  exact hadopt.trans (.of_eq rfl rfl)

theorem newContext (hs : s.Consistent) (parent : ContextId) : s.SameTables (s.newContext parent).2 := by
  -- what was not made yet counts as open and empty, as a new context is
  have hnone := get?_contexts_size hs.toNumbered
  have hnew : s.context ⟨s.contexts.size⟩ = default := by
    rw [System.context, hnone]
    rfl
  apply SameTables.setContext
  · rw [hnew]
    rfl
  · rw [hnew]
    rfl
  · intro hk
    rw [Knows, hnone] at hk
    cases hk

theorem newHost (hs : s.Consistent) (refusals : Refusals) : s.SameTables (s.newHost refusals).2 := by
  apply SameTables.setHost
  rw [System.host, get?_hosts_size hs.toNumbered]
  rfl

theorem newLoader (s : System) (c : ContextId) (h : HostId) (delegates : List Stop)
    (locations : List String) : s.SameTables (s.newLoader c h delegates locations).2 := .of_eq rfl rfl

theorem createLoader (hs : s.Consistent) (parent : Parent) (locations : List String) (h : HostId) :
    s.SameTables (s.createLoader parent locations h).2 := by
  cases parent with
  | dynamic l => exact .newLoader s l.context h l.path locations
  | foreign f => exact (newContext hs .root).trans (.newLoader _ _ h f.path locations)

theorem configuredLoader (hs : s.Consistent) (config : LoaderConfig) (parent : Option Parent) (h : HostId) :
    s.SameTables (s.configuredLoader config parent h).2 := by
  unfold System.configuredLoader
  split
  · exact .newLoader ..
  · split
    · exact (newContext hs _).trans (.newLoader ..)
    · exact .newLoader ..
  · exact (newContext hs _).trans (.newLoader ..)

theorem link (s : System) (h : HostId) (u : UnitId) : s.SameTables (s.link h u).2 := by
  unfold System.link
  split
  · exact .refl s
  · split
    · next y x hok =>
      have hloaded : y.loaded = (s.host h).loaded := by
        unfold Host.link at hok
        split at hok
        · cases hok
        · rw [← (Prod.mk.inj (Except.ok.inj hok)).1]
          split <;> rfl
      exact (SameTables.setHost hloaded).trans (.of_eq rfl rfl)
    · exact .refl s

theorem markLinked (s : System) (u : UnitId) : s.SameTables (s.markLinked u).2 := by
  unfold System.markLinked
  split
  · exact .refl s
  · exact .of_eq rfl rfl

theorem onPools (s : System) (c : ContextId) (f : ConstantPools → ConstantPools) :
    s.SameTables (s.onPools c f) := .setContext rfl rfl fun _ => rfl

end SameTables

theorem perform_sameTables (hs : s.Consistent) (hp : cmd.Possible s) (hleaves : cmd.LeavesTables) :
    s.SameTables (s.perform cmd).2 := by
  cases cmd with
  | newContext parent => exact .newContext hs parent
  | newHost refusals => exact .newHost hs refusals
  | newForeign units raises via => exact .newForeign hp.1 raises via
  | createLoader parent locations h => exact .createLoader hs parent locations h
  | childLoader l => exact .createLoader hs (.dynamic l) [] l.host
  | isolatedLoader l => exact (SameTables.newContext hs l.context).trans (.newLoader ..)
  | configuredLoader config parent h => exact .configuredLoader hs config parent h
  | loaderFromFile file content parent h =>
    simp only [perform, answering, loaderFromFile]
    split
    · exact .refl s
    · exact .configuredLoader hs _ parent h
  | publish h location d => exact .setHost rfl
  | registerConstants l g values =>
    simp only [perform, answering, registerConstants]
    split
    · exact .refl s
    · exact .onPools s l.context fun p => p.register g values
  | release u => exact .release s u
  | letGo path => exact .letGo s path
  | link h u => exact .link s h u
  | markLinked u => exact .markLinked s u
  | drainQueue c => exact .setContext rfl rfl fun _ => rfl
  | registerPool c g values => exact .onPools s c fun p => p.register g values
  | clearPools c => exact .onPools s c fun _ => .empty
  | rootLoader | loaderInContext | addLocation | buildDetached | retain | hold => exact .of_eq rfl rfl
  | _ => exact absurd hleaves id

-- ================================================================ fading

/-- The living entries of a name, in all caches and at all hosts, stay for as long as their units live, and
no others come. The contexts stay open or closed and where they are in the tree. -/
structure Fades (name : String) (s t : System) : Prop where
  onward : s.Onward t
  resident (c : ContextId) : t.resident? c name = (s.resident? c name).filter t.alive
  loaded (h : HostId) (c : ContextId) : t.loaded? h c name = (s.loaded? h c name).filter t.alive
  closed (c : ContextId) : (t.context c).closed = (s.context c).closed
  knows {c : ContextId} : s.Knows c → t.Knows c
  ancestors {c : ContextId} : s.Knows c → (t.context c).ancestors = (s.context c).ancestors

/-- What lives after more has died has lived before. -/
theorem Onward.filter_filter (ho : s.Onward t) {entry : Option UnitId} (hb : ∀ u ∈ entry, s.Built u) :
    (entry.filter s.alive).filter t.alive = entry.filter t.alive := by
  cases entry with
  | none => rfl
  | some u =>
    rw [Option.filter_filter, Option.filter_some, Option.filter_some]
    cases hu : t.alive u with
    | true =>
      rw [ho.dead (hb u rfl) hu]
      rfl
    | false => rw [Bool.and_false]

/-- Nothing goes where all are alive. -/
theorem filter_alive {entry : Option UnitId} (ha : ∀ u, entry = some u → s.alive u = true) :
    entry.filter s.alive = entry := by
  cases entry with
  | none => rfl
  | some u => rw [Option.filter_some, if_pos (ha u rfl)]

namespace Fades

/-- Entries that stay are entries that fade: what lives under them lives. -/
theorem of_same (ho : s.Onward t) (hr : ∀ c, t.resident? c name = s.resident? c name)
    (hl : ∀ h c, t.loaded? h c name = s.loaded? h c name)
    (hc : ∀ c, (t.context c).closed = (s.context c).closed ∧
      (t.context c).ancestors = (s.context c).ancestors ∧ (s.Knows c → t.Knows c)) : Fades name s t where
  onward := ho
  resident c := by
    rw [← hr]
    exact (filter_alive fun u hu => alive_of_resident? hu).symm
  loaded h c := by
    rw [← hl]
    exact (filter_alive fun u hu => alive_of_loaded? hu).symm
  closed c := (hc c).1
  knows := (hc _).2.2
  ancestors _ := (hc _).2.1

theorem retain (hu : s.alive u = true) (name : String) : Fades name s (s.retain u) := by
  refine .of_same ⟨id, fun _ ha => ?_⟩ (fun c => resident?_retain hu c name)
    (fun h c => loaded?_retain hu h c name) fun _ => ⟨rfl, rfl, id⟩
  rwa [alive_retain_of_alive hu] at ha

theorem of_sameLife (hl : s.SameLife t) (name : String) : Fades name s t :=
  .of_same hl.onward (fun c => hl.resident c name) (fun h c => hl.loaded h c name)
    fun c => ⟨hl.closed c, hl.ancestors c, (hl.knows c).2⟩

theorem of_sameTables (hs : s.Consistent) (ho : s.Onward t) (ht : s.SameTables t) (name : String) :
    Fades name s t where
  onward := ho
  resident c := by
    rw [System.resident?, System.resident?, UnitCache.live?, UnitCache.live?, ht.entries]
    exact (ho.filter_filter fun u hu => hs.entry hu).symm
  loaded h c := by
    rw [System.loaded?, System.loaded?, Host.live?, Host.live?, ht.loaded]
    exact (ho.filter_filter fun u hu => hs.loaded hu).symm
  closed := ht.closed
  knows := ht.knows
  ancestors := ht.ancestors

/-- A search that builds nothing of the name lets its entries fade. -/
theorem of_outcome (hs : s.Consistent) (ho : Outcome s f answer t)
    (hf : ∀ c h d, f = .fresh c h d → d.name ≠ name) : Fades name s t := by
  refine .of_same (ho.changes.moves.onward hs) (fun c => ?_) (fun h c => ?_) ?_
  · rcases ho.resident? hs c name with hsame | ⟨h, d, u, he, hname, -⟩
    · exact hsame
    · exact absurd hname (hf c h d he)
  · rcases ho.loaded? hs h c name with hsame | ⟨d, u, he, hname, -⟩
    · exact hsame
    · exact absurd hname (hf c h d he)
  · intro c
    obtain ⟨⟨hclosed, -⟩, htree⟩ := ho.context hs c
    exact ⟨hclosed, htree⟩

theorem trans (hs : s.Consistent) (hst : Fades name s t) (htr : Fades name t r) : Fades name s r where
  onward := hst.onward.trans htr.onward
  resident c := by
    rw [htr.resident, hst.resident]
    exact htr.onward.filter_filter fun u hu => hst.onward.built (hs.alive (alive_of_resident? hu))
  loaded h c := by
    rw [htr.loaded, hst.loaded]
    exact htr.onward.filter_filter fun u hu => hst.onward.built (hs.alive (alive_of_loaded? hu))
  closed c := (htr.closed c).trans (hst.closed c)
  knows hc := htr.knows (hst.knows hc)
  ancestors hc := (htr.ancestors (hst.knows hc)).trans (hst.ancestors hc)

end Fades

/-- A load that gives a unit has searched for it and at most linked it. -/
theorem load_fades {l : Loader} {m : String} {link : Bool} {scope : ResolutionScope} (hs : s.Consistent)
    (hp : (Command.load l m link scope).Possible s) (hother : m ≠ name) :
    Fades name s (s.load l m link scope).2 := by
  have ho := sought_outcome hs hp.1 hp.2 m
  have hsearch : Fades name s (s.sought l m scope).2 := by
    apply Fades.of_outcome hs ho
    intro c h d hf
    rw [(seeking_fresh hs hf).2]
    exact hother
  cases he : (s.load l m link scope).1 with
  | error e => exact .of_sameLife (load_failed hs hp.1 hp.2 he) name
  | ok u =>
    obtain ⟨hu, hsame | hlinked⟩ := load_ok he
    · rw [hsame]
      exact hsearch
    · rw [hlinked]
      have hcon := ho.changes.consistent hs
      have halive := ho.alive (Answer.ofResolution_eq_unit.2 hu)
      have hhost := ho.hasHost hs (Holds.stop hp.1 hs).2
      refine hsearch.trans hs (.of_sameTables hcon ?_ (.link _ l.host u) name)
      exact (link_changes hhost halive).moves.onward hcon

/-- A command that puts nothing under a name, and neither closes anything nor clears a table, lets the
entries of the name fade. -/
theorem perform_fades (hs : s.Consistent) (hp : cmd.Possible s) (hm : ¬ cmd.Concerns s name)
    (he : ¬ cmd.Empties) : Fades name s (s.perform cmd).2 := by
  have hon : s.Onward (s.perform cmd).2 := (perform_moves hs hp).onward hs
  have hlookup : ∀ {found answer t}, Outcome s (.ofLookup found) answer t → Fades name s t := fun ho =>
    .of_outcome hs ho fun _ _ _ hf => absurd hf Finding.ofLookup_ne_fresh
  cases cmd with
  | define l d =>
    obtain ⟨hc, hh⟩ := Holds.stop hp hs
    apply Fades.of_outcome hs (defineIn_outcome hs hc hh d)
    intro c h e hf
    rw [(defining_fresh hf).2.2]
    exact hm
  | findResident l x => exact hlookup (findResident_outcome hs (Holds.stop hp hs).1 x)
  | resolveViaChain scope x => exact hlookup (resolveViaChain_outcome hs hp x)
  | cached c x => exact hlookup (cached_outcome hp x)
  | findLoaded h c x => exact hlookup (findLoaded_outcome hp c x)
  | resolve l x scope =>
    apply Fades.of_outcome hs (resolve_outcome hs hp.1 hp.2 x)
    intro c h d hf
    rw [(resolving_fresh hs hf).2]
    exact hm
  | load l x link scope => exact load_fades hs hp hm
  | sweep c => exact .of_sameLife ((Upkeep.sweep hp).sameLife hs) name
  | insertCached c x make =>
    obtain ⟨hc, hmake⟩ := hp
    simp only [perform, answering, insertCached_eq hc]
    cases hu : make (s.resident? c x) with
    | error e => exact .of_sameLife (.refl s) name
    | ok u =>
      have halive : s.alive u = true := hmake u hu
      have hput : Fades name s (s.record c x u) := by
        refine .of_same (.of_eq rfl rfl rfl) (fun a => ?_) (fun _ _ => rfl) fun a => ⟨?_, ?_, ?_⟩
        · rw [resident?_record halive, if_neg fun e => hm e.2.symm]
        · refine context_setContext_congr (f := Context.closed) ?_ a
          rfl
        · refine context_setContext_congr (f := Context.ancestors) ?_ a
          rfl
        · exact fun hk => hk.setContext c
      have hlater : (s.record c x u).alive u = true := halive
      exact hput.trans hs (.retain hlater name)
  | install h c u =>
    have hframe := install_eq s h c u
    refine .of_same hon (fun a => ?_) (fun k a => ?_) fun a => ?_
    · show (s.install h c u).2.resident? a name = _
      rw [hframe]
      rfl
    · cases hx : s.units.get? u with
      | none => simp [perform, answering, System.install, hx]
      | some x => exact loaded?_install hx (fun e => hm ⟨x, hx, e⟩) h c k a
    · show ((s.install h c u).2.context a).closed = _ ∧ ((s.install h c u).2.context a).ancestors = _ ∧
        (_ → (s.install h c u).2.Knows a)
      rw [hframe]
      exact ⟨rfl, rfl, id⟩
  | close | clearCache | releaseHost => exact absurd trivial he
  | _ => exact .of_sameTables hs hon (perform_sameTables hs hp trivial) name

end System

end UnitLoading
