/-
Reclamation: what becomes of the entries and the notices of units that have died.

# Why no entry is lost

An entry may go without its notice, when a look-up meets it first or a definition takes its place, and a notice
without an entry, when its unit had none any more or never had one. What may not happen is that a notice goes
and leaves its entry behind. A run loses its units in this manner (`Run.loses`), and nobody was dead at its
beginning; so the notice of a dead unit that still has an entry is waiting (`Run.pending`).

# What follows

A sweep finds all stale entries, and so does a definition, which begins with a sweep; the unit that it installs
lives. Only a unit that its host refuses posts a notice after that sweep, and it never had an entry which the
notice could take away.
-/
import UnitLoading.Proofs.Refusals

namespace UnitLoading

variable {s t : System} {c : ContextId} {h : HostId} {name : String} {u : UnitId} {d : Definition}
  {cmds more : List Command} {l : Loader}

-- ================================================================ entries along a run

/-- Whatever has an entry was defined under its name. -/
theorem Run.definedIn_of_entry (hr : Run Command.LoaderLevel .initial cmds s)
    (he : s.entryAt? c name = some u) : s.DefinedIn u c name := by
  rcases hr.loses.entry he with hold | ⟨-, hd⟩
  · rw [System.entryAt?_initial] at hold
    cases hold
  · exact hd

/-- The deaths of a run are the units that are dead. -/
theorem Run.mem_deaths (hr : Run Command.LoaderLevel .initial cmds s) :
    u ∈ System.initial.deathsAlong cmds ↔ s.Dead u := by
  rw [hr.loses.dead_iff, or_iff_right fun hdead => System.not_built_initial u hdead.1]

/-- The notices that wait in a context are the last of those that it was ever posted. -/
theorem Run.notices_suffix (hr : Run Command.LoaderLevel .initial cmds s) (c : ContextId) :
    s.notices c <:+ s.posted (System.initial.deathsAlong cmds) c := by
  have hnotices := hr.loses.notices c
  have hnone : System.initial.notices c = [] := (System.context_initial c "").2.2
  rwa [hnone, List.nil_append] at hnotices

/-- The notice of a dead unit that has an entry is waiting. -/
theorem Run.pending (hr : Run Command.LoaderLevel .initial cmds s) (he : s.entryAt? c name = some u)
    (hdead : s.alive u = false) : ⟨name, u⟩ ∈ s.notices c := by
  have hd := hr.definedIn_of_entry he
  have hposted : ⟨name, u⟩ ∈ s.posted (System.initial.deathsAlong cmds) c :=
    System.mem_posted.2 ⟨hr.mem_deaths.2 ⟨hd.built, hdead⟩, hd⟩
  by_contra hgone
  exact hr.loses.worked (List.mem_append_right _ hposted) hgone he

/-- A unit that was built and has no entry never gets one. -/
theorem Run.entry_of_built (hr : Run Command.LoaderLevel s more t) (hs : s.Consistent) (hu : s.Built u)
    (he : t.entryAt? c name = some u) : s.entryAt? c name = some u := by
  induction hr with
  | start => exact he
  | step hrest hl hp ih =>
    have hcon := hrest.consistent hs
    rcases (System.perform_loses hcon hl hp).entry he with hold | ⟨hnew, -⟩
    · exact ih hold
    · exact absurd ((hrest.onward hs).built hu) hnew

namespace System

-- ================================================================ swept caches

/-- No notice waits in a context, and every unit that has an entry there lives. -/
structure Swept (s : System) (c : ContextId) : Prop where
  notices : s.notices c = []
  live {name : String} {u : UnitId} : s.entryAt? c name = some u → s.alive u = true

/-- A sweep counts the entries that it takes. -/
theorem size_sweep (s : System) (c : ContextId) :
    (s.sweep c).1 + ((s.sweep c).2.context c).cache.size = (s.context c).cache.size := by
  rw [sweep, onCache, context_setContext, if_pos rfl]
  exact UnitCache.size_purge ..

end System

/-- A sweep finds every entry of a dead unit. -/
theorem Run.swept (hr : Run Command.LoaderLevel .initial cmds s) (c : ContextId) : (s.sweep c).2.Swept c where
  notices := by
    rw [System.notices, System.sweep, System.onCache, System.context_setContext, if_pos rfl]
    rfl
  live {name u} he := by
    have hpurge : (UnitCache.purge (s.notices c) (s.context c).cache.entries).2.get? name = some u := by
      rw [System.entryAt?, System.sweep, System.onCache, System.context_setContext, if_pos rfl] at he
      exact he
    obtain ⟨hentry, hnone⟩ := UnitCache.get?_purge.1 hpurge
    by_contra hdead
    exact hnone (hr.pending hentry (Bool.eq_false_iff.2 hdead))

namespace System.Swept

theorem retain (hw : s.Swept c) (u : UnitId) : (s.retain u).Swept c :=
  ⟨hw.notices, fun he => alive_retain_iff.2 (.inr (hw.live he))⟩

theorem installed (hw : s.Swept c) (h : HostId) (d : Definition) : (s.installed c h d).Swept c where
  notices := by
    rw [System.notices, context_installed, if_pos rfl]
    exact hw.notices
  live {name u} he := by
    have halive : (s.withNew (some c) d).alive u = true := by
      rw [alive_withNew]
      rw [entryAt?_installed] at he
      split at he
      · exact .inl (Option.some.inj he).symm
      · exact .inr (hw.live he)
    exact halive

/-- What is counted is what lives. -/
theorem stats (hw : s.Swept c) : (s.stats c).resident = (s.residentNames c).length ∧
    (s.stats c).pendingReclamations = 0 := by
  have hlive : ∀ name ∈ (s.context c).cache.entries.keys,
      ((s.context c).cache.live? s.alive name).isSome = true := by
    intro name hname
    obtain ⟨u, hu⟩ := Option.isSome_iff_exists.1 (Table.mem_keys.1 hname)
    rw [UnitCache.live?_eq_some_iff.2 ⟨hu, hw.live hu⟩]
    rfl
  constructor
  · rw [residentNames, UnitCache.liveNames, List.length_mergeSort, List.filter_eq_self.2 hlive, Table.keys,
      List.length_map]
    rfl
  · exact congrArg List.length hw.notices

end System.Swept

/-- A definition leaves the cache of an open context swept, unless the host refuses the unit. -/
theorem Run.swept_define (hr : Run Command.LoaderLevel .initial cmds s) (hl : s.Holds l.path)
    (hopen : (s.context l.context).closed = false) (htaken : ∀ u, ¬ s.Refuses (.define l d) u) :
    (s.perform (.define l d)).2.Swept l.context := by
  have hs := hr.consistent .initial
  have hswept := hr.swept l.context
  have heq := System.defineIn_eq hs (System.Holds.stop hl hs).1 l.host d
  show (s.defineIn l.context l.host d).2.Swept l.context
  rw [heq, if_neg (by simp [hopen])]
  cases hres : s.resident? l.context d.name with
  | some u =>
    dsimp only
    split
    · exact hswept.retain u
    · exact hswept
  | none =>
    cases he : (s.host l.host).refusal? s.alive l.context d with
    | none => exact hswept.installed l.host d
    | some e => exact absurd (System.refuses_define hs hl hopen hres he) (htaken _)

namespace System

-- ================================================================ the account

/-- The account of a run. Entries are of units that were defined in the context under the name and taken by a
host, and of a dead one the notice still waits. The units that are dead have died once each. The notices that
were ever posted to a context are one for each dead unit of it, in the order of the deaths, and those that wait
are the last of them. Whatever was defined in a context was taken by a host or refused; a refused unit has a
notice as well, but neither now nor later an entry that the notice could take away. So a sweep leaves no notice
and no entry of a dead unit, and counts what it takes; and so does a definition in an open context that the
host does not refuse. -/
theorem reclamation_accounted (hr : Run Command.LoaderLevel .initial cmds s) :
    let deaths := initial.deathsAlong cmds
    (∀ c name u, s.entryAt? c name = some u →
      s.DefinedIn u c name ∧ (∃ h, u ∈ takenBy cmds h) ∧
        (s.alive u = true ∨ s.alive u = false ∧ ⟨name, u⟩ ∈ s.notices c)) ∧
    (deaths.Nodup ∧ ∀ u, u ∈ deaths ↔ s.Built u ∧ s.alive u = false) ∧
    (∀ c, s.notices c <:+ s.posted deaths c ∧ ((s.posted deaths c).map Notice.unit).Nodup ∧
      ∀ n, n ∈ s.posted deaths c ↔ s.alive n.unit = false ∧ s.DefinedIn n.unit c n.name) ∧
    (∀ c name u, s.DefinedIn u c name → (∃ h, u ∈ takenBy cmds h) ∨ u ∈ refusedIn cmds) ∧
    (∀ u ∈ refusedIn cmds, (∀ h, u ∉ takenBy cmds h) ∧ (∃ c name, ⟨name, u⟩ ∈ s.posted deaths c) ∧
      ∀ more t, Run Command.LoaderLevel s more t → ∀ c name, t.entryAt? c name ≠ some u) ∧
    (∀ c, (s.sweep c).2.notices c = [] ∧
      (∀ name u, (s.sweep c).2.entryAt? c name = some u → (s.sweep c).2.alive u = true) ∧
      (s.sweep c).1 + ((s.sweep c).2.context c).cache.size = (s.context c).cache.size) ∧
    ∀ (l : Loader) (d : Definition), s.Holds l.path → (s.context l.context).closed = false →
      (∀ u, ¬ s.Refuses (.define l d) u) →
      ((s.perform (.define l d)).2.stats l.context).resident
          = ((s.perform (.define l d)).2.residentNames l.context).length ∧
        ((s.perform (.define l d)).2.stats l.context).pendingReclamations = 0 := by
  intro deaths
  have hposted : ∀ c n, n ∈ s.posted deaths c ↔ s.alive n.unit = false ∧ s.DefinedIn n.unit c n.name := by
    intro c n
    rw [mem_posted, hr.mem_deaths]
    exact ⟨fun hn => ⟨hn.1.2, hn.2⟩, fun hn => ⟨⟨hn.2.built, hn.1⟩, hn.2⟩⟩
  refine ⟨fun c name u he => ⟨hr.definedIn_of_entry he, hr.taken_of_entry he, ?_⟩,
    ⟨hr.loses.once, fun u => hr.mem_deaths⟩,
    fun c => ⟨hr.notices_suffix c, hr.loses.once.sublist (units_posted s deaths c), hposted c⟩,
    fun c name u => hr.taken_or_refused, fun u hu => ⟨hr.not_taken_of_refused hu, ?_, ?_⟩,
    fun c => ⟨(hr.swept c).notices, fun name u => (hr.swept c).live, size_sweep s c⟩,
    fun l d hl hopen htaken => (hr.swept_define hl hopen htaken).stats⟩
  · cases hu : s.alive u with
    | true => exact .inl rfl
    | false => exact .inr ⟨rfl, hr.pending he hu⟩
  · obtain ⟨⟨c, name, hd⟩, hdead⟩ := hr.dead_of_refused hu
    exact ⟨c, name, (hposted c _).2 ⟨hdead, hd⟩⟩
  · intro more t hm c name he
    obtain ⟨⟨a, x, hd⟩, -⟩ := hr.dead_of_refused hu
    -- an entry would be an old one, and of a unit that was taken
    obtain ⟨h, htaken⟩ := hr.taken_of_entry (hm.entry_of_built (hr.consistent .initial) hd.built he)
    exact hr.not_taken_of_refused hu h htaken

/-- The foreign loader that gets handles on two units. -/
def keeper : List Stop := [.foreign ⟨1⟩ (.ofList [("a", ⟨1⟩), ("c", ⟨3⟩)]) []]

/-- A program that defines a unit, has another one refused and defines a third; then a foreign loader has the
only handles on the two, and goes. -/
def littering : List Command :=
  [.newHost .none, .rootLoader ⟨0⟩, .define .first ⟨"a", [1], none⟩, .define .first ⟨"b", [], none⟩,
    .define .first ⟨"c", [3], none⟩, .newForeign [("a", ⟨1⟩), ("c", ⟨3⟩)] [] none, .release ⟨1⟩, .release ⟨3⟩,
    .letGo keeper]

/-- The state that the program leads to. -/
def littered : System := initial.after littering

theorem run_littering : Run Command.LoaderLevel .initial littering littered := by
  refine .cons id trivial (.cons id rfl (.cons id holds_first (.cons id stocked_holds_first (.cons id
    stocked_holds_first (.cons id ⟨?_, nofun⟩ (.cons id ?_ (.cons id ?_ (.cons id ?_ .start))))))))
  · decide
  · exact List.mem_of_elem_eq_true rfl
  · exact List.mem_of_elem_eq_true rfl
  · exact List.mem_cons_self

/-- The unit that was refused was the first to die and its notice is gone, for nothing; the other two notices
wait, and each of them finds its entry. -/
theorem reclamation_accounted_littered :
    ⟨2⟩ ∈ refusedIn littering ∧ (∀ h, ⟨2⟩ ∉ takenBy littering h) ∧ (∃ h, ⟨3⟩ ∈ takenBy littering h) ∧
    initial.deathsAlong littering = [⟨2⟩, ⟨1⟩, ⟨3⟩] ∧ littered.notices .root = [⟨"a", ⟨1⟩⟩, ⟨"c", ⟨3⟩⟩] ∧
    (∀ name, littered.entryAt? .root name ≠ some ⟨2⟩) ∧
    (littered.sweep .root).1 = 2 ∧ ((littered.sweep .root).2.context .root).cache.size = 0 ∧
    ((littered.perform (.define .first ⟨"b", [2], none⟩)).2.residentNames .root).length = 1 := by
  obtain ⟨hentries, -, hnotices, -, hrefused, hsweep, hdefine⟩ := reclamation_accounted run_littering
  have hdeclined : stocked.Refuses (.define .first ⟨"b", [], none⟩) ⟨2⟩ :=
    refuses_define reachable_stocked.consistent stocked_holds_first rfl rfl rfl
  have hmem : ⟨2⟩ ∈ refusedIn littering := .inr (.inr (.inr (.inl hdeclined)))
  obtain ⟨hnever, -, hnone⟩ := hrefused ⟨2⟩ hmem
  have htwo : (littered.sweep .root).1 = 2 := rfl
  have hsize : (littered.sweep .root).1 + ((littered.sweep .root).2.context .root).cache.size = 2 :=
    (hsweep .root).2.2
  have hheld : littered.Holds Loader.first.path := stocked_holds_first
  have htaken : ∀ u, ¬ littered.Refuses (.define .first ⟨"b", [2], none⟩) u := fun u =>
    not_refuses_of_given (v := ⟨4⟩) (run_littering.consistent .initial) hheld rfl
  refine ⟨hmem, hnever, (hentries .root "c" ⟨3⟩ rfl).2.1, rfl, rfl, hnone [] littered .start .root, htwo, by omega, ?_⟩
  exact (hdefine .first ⟨"b", [2], none⟩ hheld rfl htaken).1.symm

end System

end UnitLoading
