/-
Atomicity: a command that fails leaves the life of the state as it was.

Most failures come at the end of a search, and a search that gives no unit was upkeep. The one that comes
later is that of a load whose unit cannot be linked: the handle on the unit goes again, and if the unit was
built for that very load, it dies with it (`sameLife_release_installed`). What is left are entries, a notice
and a record of a dead unit, and a counted install.
-/
import UnitLoading.Proofs.Perform

namespace UnitLoading

variable {s t : System} {c : ContextId} {h : HostId} {name : String} {u : UnitId} {d : Definition}
  {f : Finding} {a : Answer} {cmd : Command}

namespace System

-- ================================================================ a unit that could not be linked

/-- The state in which a new unit has been installed but has no handle. -/
def placed (s : System) (c : ContextId) (h : HostId) (d : Definition) : System :=
  ((s.build (some c) d).2.setHost h ((s.host h).withLoaded c d.name s.nextUnit)).record c d.name s.nextUnit

theorem installed_eq (s : System) (c : ContextId) (h : HostId) (d : Definition) :
    s.installed c h d = (s.placed c h d).retain s.nextUnit := rfl

/-- An installed unit without handles is nothing: its entries stand where there were no living ones. -/
theorem sameLife_placed (hs : s.Consistent) (ha : s.Admits c h d) : s.SameLife (s.placed c h d) := by
  have hdead := not_alive_nextUnit hs
  have hfree : s.loaded? h c d.name = none := Host.live?_of_refusal?_none ha.agreed
  -- built, put into the host's table, put into the cache: each of the three leaves the life as it is
  let built := (s.build (some c) d).2
  let atHost := built.setHost h ((s.host h).withLoaded c d.name s.nextUnit)
  have hhost : built.SameLife atHost := by
    refine .setHost ha.hasHost rfl rfl rfl fun b x => ?_
    rw [Host.live?, Host.withLoaded, Table.get?_insert]
    split
    · next e =>
      obtain ⟨rfl, rfl⟩ := Prod.mk.inj e
      show (some s.nextUnit).filter s.alive = s.loaded? h b d.name
      rw [hfree, Option.filter_some, if_neg (by simp [hdead])]
    · rfl
  have hcache : atHost.SameLife (s.placed c h d) := by
    refine .setContext ha.knows fun x => ?_
    rw [UnitCache.live?, UnitCache.record, Table.get?_insert]
    split
    · next e =>
      show (some s.nextUnit).filter s.alive = s.resident? c x
      rw [e, ha.absent, Option.filter_some, if_neg (by simp [hdead])]
    · rfl
  exact (SameLife.build hs (some c) d).trans (hhost.trans hcache)

/-- When a unit dies for which a load was the only reason, everything is as before. -/
theorem sameLife_release_installed (hs : s.Consistent) (ha : s.Admits c h d) :
    s.SameLife ((s.installed c h d).release s.nextUnit) := by
  have hplaced := sameLife_placed hs ha
  have hdead : (s.placed c h d).alive s.nextUnit = false :=
    (hplaced.alive _).trans (not_alive_nextUnit hs)
  have hnumbered : (s.placed c h d).Numbered := (hs.installed ha).toNumbered.congr rfl rfl rfl
  rw [installed_eq, release_retain_of_dead hdead]
  exact hplaced.trans (.bury hnumbered _)

/-- Giving up what was found leaves everything as it was before the search. -/
theorem Outcome.sameLife_release (ho : Outcome s f (.unit u) t) (hs : s.Consistent) :
    s.SameLife (t.release u) := by
  cases ho with
  | live ht hu =>
    rw [release_retain_of_alive hu]
    exact ht.sameLife hs
  | fresh ht ha => exact (ht.sameLife hs).trans (sameLife_release_installed (ht.consistent hs) ha)

theorem Outcome.sameLife_of_failed {e : Failure} (ho : Outcome s f a t) (ha : a = .failed e)
    (hs : s.Consistent) : s.SameLife t := by
  cases ho with
  | failure ht => exact ht.sameLife hs
  | live | fresh | nothing => exact absurd ha (by simp)

theorem load_failed {l : Loader} {scope : ResolutionScope} {link : Bool} {e : Failure} (hs : s.Consistent)
    (hl : s.Holds l.path) (hscope : s.KnowsScope scope) (hf : (s.load l name link scope).1 = .error e) :
    s.SameLife (s.load l name link scope).2 := by
  have ho := sought_outcome hs hl hscope name
  rw [load_eq] at hf ⊢
  obtain ⟨result, t, hr⟩ : ∃ result t, s.sought l name scope = (result, t) := ⟨_, _, rfl⟩
  rw [hr] at hf ho ⊢
  cases result with
  | error e => exact ho.sameLife_of_failed rfl hs
  | ok u =>
    dsimp only at hf ⊢
    rw [linkFound_eq] at hf ⊢
    split at hf
    · next hwanted =>
      rw [if_pos hwanted]
      cases he : (t.link l.host u).1 with
      | ok => simp [he] at hf
      | error e => exact ho.sameLife_release hs
    · exact absurd hf (by simp)

theorem install_of_error {e : HostError} (he : (s.install h c u).1 = .error e) : (s.install h c u).2 = s := by
  unfold System.install at he ⊢
  split at he
  · exact absurd he (by simp)
  · split at he
    · exact absurd he (by simp)
    · rfl

-- ================================================================ commands

/-- A command that fails, in whatever way, leaves the same handles and linked flags, the same living
entries in caches and hosts, the same constant pools and search locations, and the same contexts open. -/
theorem failed_sameLife {e : Failure} (hr : s.Reachable Command.Public) (hp : cmd.Possible s)
    (hf : (s.perform cmd).1 = .failed e) : s.SameLife (s.perform cmd).2 := by
  have hs := hr.consistent
  cases cmd with
  | define | findResident | resolveViaChain | resolve | cached | findLoaded =>
    obtain ⟨f, ho⟩ := perform_outcome hs hp trivial
    exact ho.sameLife_of_failed hf hs
  | load l name link scope =>
    simp only [perform, answering] at hf ⊢
    cases he : (s.load l name link scope).1 with
    | ok u => simp [he, Answer.ofResolution] at hf
    | error e => exact load_failed hs hp.1 hp.2 he
  | loaderFromFile file content parent h =>
    simp only [perform, answering, loaderFromFile] at hf ⊢
    split at hf
    · exact .refl s
    · exact absurd hf (by simp [Answer.ofLoader])
  | registerConstants l g values =>
    simp only [perform, answering, registerConstants] at hf ⊢
    split at hf
    · next hclosed =>
      rw [if_pos hclosed]
      exact .refl s
    · exact absurd hf (by simp [Answer.ofStore])
  | link h u =>
    simp only [perform, answering] at hf ⊢
    cases he : (s.link h u).1 with
    | ok => simp [he, Answer.ofHost] at hf
    | error e =>
      rw [link_of_error he]
      exact .refl s
  | insertCached c name make =>
    simp only [perform, answering, insertCached_eq hp.1] at hf ⊢
    cases hm : make (s.resident? c name) with
    | ok u => simp [hm, Answer.ofLoad] at hf
    | error e => exact .refl s
  | install h c u =>
    simp only [perform, answering] at hf ⊢
    cases he : (s.install h c u).1 with
    | ok => simp [he, Answer.ofHost] at hf
    | error e =>
      rw [install_of_error he]
      exact .refl s
  | _ => simp [perform, answering] at hf

/-- The state with a root loader whose host supplies a unit and then cannot link it. -/
def unlinkable : System :=
  let refusals : Refusals := ⟨.empty, .empty, .ofList [("a", "no symbol")]⟩
  let s := ((System.initial.perform (.newHost refusals)).2.perform (.rootLoader ⟨0⟩)).2
  ((s.perform (.publish ⟨0⟩ "lib" ⟨"a", [1], none⟩)).2.perform (.addLocation .first "lib")).2

theorem holds_unlinkable : unlinkable.Holds Loader.first.path :=
  ⟨_, List.mem_cons_self, List.suffix_rfl⟩

theorem reachable_unlinkable : unlinkable.Reachable Command.LoaderLevel :=
  ⟨_, .step (.step (.step (.step .start id trivial) id rfl) id rfl) id
    ⟨_, List.mem_cons_self, List.suffix_rfl⟩⟩

/-- The unit that a load has just defined dies when it cannot be linked. -/
theorem failed_sameLife_unlinkable :
    (unlinkable.perform (.load .first "a" true .empty)).1
        = .failed (.error (.host (.linkFailed "a" "no symbol"))) ∧
      unlinkable.SameLife (unlinkable.perform (.load .first "a" true .empty)).2 := by
  have hfails : (unlinkable.perform (.load .first "a" true .empty)).1
      = .failed (.error (.host (.linkFailed "a" "no symbol"))) := rfl
  refine ⟨hfails, failed_sameLife reachable_unlinkable.public ⟨holds_unlinkable, ?_⟩ hfails⟩
  exact fun _ hc => absurd hc List.not_mem_nil

end System

end UnitLoading
