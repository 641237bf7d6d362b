/-
Definitions, resolutions and loads have the outcomes that were to be found.

A unit that is being built is known to nobody else yet, so a host judges it by what was there before
(`buildInstalled_eq`): it is refused and dies, or it is installed. From this follow what a definition comes
to (`defineIn_eq`, `defineIn_outcome`), and the outcomes of a resolution along a path of any length
(`resolveAlong_outcome`), of a loader's resolution (`resolve_outcome`) and of the resolution that a load
starts from (`sought_outcome`).
-/
import UnitLoading.Proofs.Finding

namespace UnitLoading.System

variable {s t : System} {c : ContextId} {h : HostId} {name : String} {u : UnitId} {d : Definition}
  {path : List Stop}

-- ================================================================ a unit nobody knows yet

theorem alive_withNew_of_built (hs : s.Consistent) (hu : s.Built u) (context : Option ContextId)
    (d : Definition) : (s.withNew context d).alive u = s.alive u := by
  rw [Bool.eq_iff_iff, alive_withNew, or_iff_right (ne_nextUnit hs.toNumbered hu)]

/-- A new unit is in no table of a host. -/
theorem live?_host_withNew (hs : s.Consistent) (context : Option ContextId) (d : Definition) (h : HostId)
    (c : ContextId) (name : String) :
    (s.host h).live? (s.withNew context d).alive c name = s.loaded? h c name := by
  rw [loaded?, Host.live?, Host.live?]
  cases hu : (s.host h).loaded.get? (c, name) with
  | none => rfl
  | some u => rw [Option.filter_some, Option.filter_some, alive_withNew_of_built hs (hs.loaded hu)]

theorem install_withNew (hs : s.Consistent) (c : ContextId) (h : HostId) (d : Definition) :
    (s.withNew (some c) d).install h c s.nextUnit = match (s.host h).refusal? s.alive c d with
      | some e => (.error e, s.withNew (some c) d)
      | none => (.ok (), (s.withNew (some c) d).setHost h
          ((s.host h).withLoaded c d.name s.nextUnit)) := by
  have hunit : (s.withNew (some c) d).units.get? s.nextUnit
      = some (.ofDefinition s.nextUnit (some c) d) := by
    rw [get?_withNew, if_pos rfl]
  have hhost : (s.withNew (some c) d).host h = s.host h := rfl
  have hlive : (s.host h).live? (s.withNew (some c) d).alive c d.name = s.loaded? h c d.name :=
    live?_host_withNew hs (some c) d h c d.name
  have hne : (s.host h).live? (s.withNew (some c) d).alive c d.name ≠ some s.nextUnit := by
    rw [hlive]
    intro hu
    exact not_built_nextUnit hs.toNumbered (hs.alive (alive_of_loaded? hu))
  have hrefusal : (s.host h).refusal? (s.withNew (some c) d).alive c d
      = (s.host h).refusal? s.alive c d := by
    rw [Host.refusal?, Host.refusal?, hlive]
    rfl
  have hinstall := Host.install_new hne
  rw [hrefusal] at hinstall
  rw [install, hunit, hhost]
  dsimp only
  rw [hinstall]
  cases (s.host h).refusal? s.alive c d <;> rfl

/-- A new unit is refused and dies, or it is installed and comes to reside. -/
theorem buildInstalled_eq (hs : s.Consistent) (c : ContextId) (h : HostId) (d : Definition) :
    s.buildInstalled c h d = match (s.host h).refusal? s.alive c d with
      | some e => (.error e.toLoadError, s.refused c d)
      | none => (.ok s.nextUnit, s.installed c h d) := by
  have hbuild : s.build (some c) d = (s.nextUnit, (s.build (some c) d).2) := rfl
  have hnew : (s.build (some c) d).2.retain s.nextUnit = s.withNew (some c) d := rfl
  rw [buildInstalled, hbuild]
  dsimp only
  rw [hnew, install_withNew hs]
  cases (s.host h).refusal? s.alive c d <;> rfl

/-- Installing keeps a state consistent. -/
theorem Consistent.installed (hs : s.Consistent) (ha : s.Admits c h d) : (s.installed c h d).Consistent := by
  have hnew : (s.withNew (some c) d).Consistent := hs.withNew (fun a e => by
    rw [← Option.some.inj e]
    exact ha.knows) d
  have hbuilt : (s.withNew (some c) d).Built s.nextUnit := built_withNew.2 (.inl rfl)
  have hhost : ((s.withNew (some c) d).setHost h
      ((s.host h).withLoaded c d.name s.nextUnit)).Consistent := by
    refine hnew.setHost ha.hasHost (fun _ _ _ => hs.published) fun a name u hu => ?_
    rw [Host.withLoaded, Table.get?_insert] at hu
    split at hu
    · rw [← Option.some.inj hu]
      exact hbuilt
    · exact hnew.loaded hu
  refine hhost.setContext ha.knows rfl (fun name u hu => ?_) fun n hn => ⟨hhost.notice hn, hhost.dead hn⟩
  rw [UnitCache.record, Table.get?_insert] at hu
  split at hu
  · rw [← Option.some.inj hu]
    exact hbuilt
  · exact hhost.entry hu

-- ================================================================ definitions

/-- After a sweep a definition fails, gives the unit that resides, or has a new one built. -/
theorem defineIn_eq (hs : s.Consistent) (hc : s.Knows c) (h : HostId) (d : Definition) :
    s.defineIn c h d =
      if (s.context c).closed then (.error (.closed c), s)
      else match s.resident? c d.name with
        | some u =>
          if s.hasBytes u d.bytes then (.ok u, (s.sweep c).2.retain u)
          else (.error (.duplicateDefinition d.name c), (s.sweep c).2)
        | none => match (s.host h).refusal? s.alive c d with
          | some e => (.error e.toLoadError, (s.sweep c).2.refused c d)
          | none => (.ok s.nextUnit, (s.sweep c).2.installed c h d) := by
  have hup : Upkeeps s (s.sweep c).2 := .single (.sweep hc)
  have hresident : (s.sweep c).2.resident? c d.name = s.resident? c d.name :=
    (hup.sameLife hs).resident c d.name
  have hbuild := buildInstalled_eq (hup.consistent hs) c h d
  unfold defineIn
  by_cases hclosed : (s.context c).closed = true
  · rw [if_pos hclosed, if_pos hclosed]
  · rw [if_neg hclosed, if_neg hclosed]
    have hlive : ((s.sweep c).2.context c).cache.live? (s.sweep c).2.alive d.name
        = s.resident? c d.name := hresident
    dsimp only
    rw [hlive]
    cases s.resident? c d.name with
    | none => exact hbuild
    | some u => rfl

/-- A definition has the outcome that was to be found. -/
theorem defineIn_outcome (hs : s.Consistent) (hc : s.Knows c) (hh : s.HasHost h) (d : Definition) :
    Outcome s (s.defining c h d) (.ofLoad (s.defineIn c h d).1) (s.defineIn c h d).2 := by
  have hup : Upkeeps s (s.sweep c).2 := .single (.sweep hc)
  have hlife := hup.sameLife hs
  rw [defineIn_eq hs hc, defining]
  by_cases hclosed : (s.context c).closed = true
  · rw [if_pos hclosed, if_pos hclosed]
    exact .failure .refl
  · rw [if_neg hclosed, if_neg hclosed]
    have hopen : (s.context c).closed = false := by simpa using hclosed
    cases hr : s.resident? c d.name with
    | some u =>
      dsimp only
      by_cases hb : s.hasBytes u d.bytes = true
      · rw [if_pos hb, if_pos hb]
        exact .live hup ((hlife.alive u).trans (alive_of_resident? hr))
      · rw [if_neg hb, if_neg hb]
        exact .failure hup
    | none =>
      dsimp only
      cases he : (s.host h).refusal? s.alive c d with
      | some e =>
        exact .failure (hup.tail (.refuse ((hlife.knows c).2 hc) ((hlife.closed c).trans hopen)
          ((hlife.resident c d.name).trans hr) he))
      | none =>
        have hadmits : s.Admits c h d := ⟨hc, hh, hopen, hr, he⟩
        exact .fresh hup (hadmits.of_sameLife hlife)

-- ================================================================ resolutions

/-- A foreign loader gives the unit that it has a handle on. -/
theorem ownedStep_outcome {units : Table String UnitId} (halive : ∀ u, units.get? name = some u → s.alive u = true) :
    Outcome s (.ofLookup (units.get? name)) (.ofSearch (ownedStep units name s).1)
      (ownedStep units name s).2 := by
  simp only [ownedStep, Search.ofLookup]
  cases hu : units.get? name with
  | none => exact .nothing .refl
  | some u => exact .live .refl (halive u hu)

theorem scopeStep_outcome {scope : Option ResolutionScope} (hs : s.Consistent)
    (hscope : ∀ x ∈ scope, s.KnowsScope x) (name : String) :
    Outcome s (.ofLookup (scope.bind fun x => s.alongChain? x name)) (.ofSearch (scopeStep scope name s).1)
      (scopeStep scope name s).2 := by
  cases scope with
  | none => exact .nothing .refl
  | some x => exact resolveViaChain_outcome hs (hscope x rfl) name

theorem supplyStep_outcome (hs : s.Consistent) (hc : s.Knows c) (hh : s.HasHost h) (l : LoaderId)
    (name : String) : Outcome s (s.supply l c h name) (.ofSearch (supplyStep l c h name s).1)
      (supplyStep l c h name s).2 := by
  unfold supplyStep supply
  cases (s.host h).locate name (s.locationsOf l) with
  | none => exact .nothing .refl
  | some d =>
    have ho := defineIn_outcome hs hc hh d
    obtain ⟨result, t, hr⟩ : ∃ result t, s.defineIn c h d = (result, t) := ⟨_, _, rfl⟩
    dsimp only
    rw [hr] at ho ⊢
    cases result with
    | ok u => exact ho
    | error e => exact ho

/-- What a path can be used for: its contexts and hosts were made, and what its foreign loaders own is
alive. -/
def Usable (s : System) (path : List Stop) : Prop :=
  ∀ f ∈ path, f.KnownIn s ∧ ∀ u ∈ f.owns, s.alive u = true

/-- A held path can be used. -/
theorem usable_of_holds (hs : s.Consistent) (hp : s.Holds path) : s.Usable path :=
  fun _ hf => ⟨hs.toWired.known hp hf, fun _ hu => hs.toWired.alive hp hf hu⟩

theorem Usable.of_sameLife (hl : s.SameLife t) (hp : s.Usable path) : t.Usable path := by
  intro f hf
  refine ⟨Stop.KnownIn.mono (hp f hf).1 (fun c => (hl.knows c).2) fun h => (hl.hasHost h).2, ?_⟩
  intro u hu
  rw [hl.alive]
  exact (hp f hf).2 u hu

theorem knowsScope_empty (s : System) : s.KnowsScope .empty := fun _ hc => absurd hc List.not_mem_nil

theorem knowsScope_withActive {c : ContextId} (hc : s.Knows c) : s.KnowsScope (.withActive c) := by
  intro a ha
  rw [List.mem_singleton.1 ha]
  exact hc

theorem some_knowsScope {scope : ResolutionScope} (hscope : s.KnowsScope scope) :
    ∀ x ∈ some scope, s.KnowsScope x := by
  intro x hx
  rw [← Option.some.inj hx]
  exact hscope

/-- A resolution along a path has the outcome that was to be found, however long the path is. -/
theorem resolveAlong_outcome (hs : s.Consistent) (hp : s.Usable path) (name : String)
    (scope : Option ResolutionScope) (hscope : ∀ x ∈ scope, s.KnowsScope x) :
    Outcome s (s.finding name scope path) (.ofSearch (resolveAlong name scope path s).1)
      (resolveAlong name scope path s).2 := by
  -- a step that finds nothing leaves a consistent state with the same life, so each step may be taken
  -- as if it were the first
  have hkeep : ∀ {t : System}, Upkeeps s t → t.Consistent ∧ s.SameLife t := fun ht =>
    ⟨ht.consistent hs, ht.sameLife hs⟩
  induction path generalizing s scope with
  | nil => exact .nothing .refl
  | cons stop rest ih =>
    obtain ⟨hknown, howned⟩ := hp stop List.mem_cons_self
    have hrest : s.Usable rest := fun f hf => hp f (List.mem_cons_of_mem _ hf)
    cases stop with
    | foreign id units raises =>
      unfold resolveAlong finding
      by_cases hraise : name ∈ raises
      · rw [if_pos hraise]
        simp only [hraise, ↓reduceIte]
        exact .failure .refl
      · rw [if_neg hraise]
        simp only [hraise, ↓reduceIte]
        refine .orElse (ownedStep_outcome fun u hu => howned u (Table.mem_values_of_get? hu)) fun t ht => ?_
        obtain ⟨hcon, hl⟩ := hkeep ht
        rw [← finding_of_sameLife hs hl]
        exact (ih hcon (hrest.of_sameLife hl) (some .empty) (some_knowsScope (knowsScope_empty t))
          fun hr => ⟨hr.consistent hcon, hr.sameLife hcon⟩).forgiving
    | dynamic l c h =>
      obtain ⟨hc, hh⟩ := hknown
      unfold resolveAlong finding
      refine .orElse (findResident_outcome hs hc name) fun t ht => ?_
      obtain ⟨hcon, hl⟩ := hkeep ht
      rw [← hl.loaded]
      refine .orElse (findLoaded_outcome ((hl.hasHost h).2 hh) c name) fun t₂ ht₂ => ?_
      replace ht := ht.trans ht₂
      obtain ⟨hcon, hl⟩ := hkeep ht
      rw [← inScope_of_sameLife hl]
      refine .orElse (scopeStep_outcome hcon (fun x hx a ha => (hl.knows a).2 (hscope x hx a ha)) name)
        fun t₃ ht₃ => ?_
      replace ht := ht.trans ht₃
      obtain ⟨hcon, hl⟩ := hkeep ht
      refine .orElse ?_ fun t₄ ht₄ => ?_
      · rw [← finding_of_sameLife hs hl]
        exact ih hcon (hrest.of_sameLife hl) none (fun _ hx => absurd hx (by simp))
          fun hr => ⟨hr.consistent hcon, hr.sameLife hcon⟩
      replace ht := ht.trans ht₄
      obtain ⟨hcon, hl⟩ := hkeep ht
      rw [← supply_of_sameLife hs hl]
      exact supplyStep_outcome hcon ((hl.knows c).2 hc) ((hl.hasHost h).2 hh) l name

/-- What a loader's resolution is going to give: in the end, that the name was not found. -/
def resolving (s : System) (l : Loader) (name : String) (scope : ResolutionScope) : Finding :=
  (s.finding name (some scope) l.path).orElse (.failure (.error (.notFound name l.context)))

/-- What a loader's resolution is going to give if the host is asked first. -/
def seeking (s : System) (l : Loader) (name : String) (scope : ResolutionScope) : Finding :=
  (Finding.ofLookup (s.loaded? l.host l.context name)).orElse (s.resolving l name scope)

/-- The caller is told when nothing was found. -/
theorem Outcome.settle {f : Finding} {search : Except Failure (Option UnitId) × System} (l : Loader)
    (name : String) (ho : Outcome s f (.ofSearch search.1) search.2) :
    Outcome s (f.orElse (.failure (.error (.notFound name l.context))))
      (.ofResolution (System.settle l name search).1) (System.settle l name search).2 := by
  obtain ⟨result, t⟩ := search
  cases result with
  | error e =>
    cases ho with
    | failure ht => exact .failure ht
  | ok found =>
    cases found with
    | none =>
      cases ho with
      | nothing ht => exact .failure ht
    | some u =>
      cases ho with
      | live ht hu => exact .live ht hu
      | fresh ht ha => exact .fresh ht ha

theorem resolve_outcome {l : Loader} {scope : ResolutionScope} (hs : s.Consistent) (hl : s.Holds l.path)
    (hscope : s.KnowsScope scope) (name : String) :
    Outcome s (s.resolving l name scope) (.ofResolution (s.resolve l name scope).1)
      (s.resolve l name scope).2 :=
  (resolveAlong_outcome hs (usable_of_holds hs hl) name (some scope) (some_knowsScope hscope)).settle l name

/-- What a load starts from: the host is asked first, and then the name is resolved. -/
def sought (s : System) (l : Loader) (name : String) (scope : ResolutionScope) :
    Except Failure UnitId × System :=
  System.settle l name
    ((loadedStep l.host l.context name).orElse (resolveAlong name (some scope) l.path) s)

theorem sought_outcome {l : Loader} {scope : ResolutionScope} (hs : s.Consistent) (hl : s.Holds l.path)
    (hscope : s.KnowsScope scope) (name : String) :
    Outcome s (s.seeking l name scope) (.ofResolution (s.sought l name scope).1)
      (s.sought l name scope).2 := by
  have husable := usable_of_holds hs hl
  have hhost : s.HasHost l.host := (husable _ List.mem_cons_self).1.2
  have hsearch : Outcome s ((Finding.ofLookup (s.loaded? l.host l.context name)).orElse
      (s.finding name (some scope) l.path))
      (.ofSearch ((loadedStep l.host l.context name).orElse (resolveAlong name (some scope) l.path) s).1)
      ((loadedStep l.host l.context name).orElse (resolveAlong name (some scope) l.path) s).2 := by
    refine .orElse (findLoaded_outcome hhost l.context name) fun t ht => ?_
    have hlife := ht.sameLife hs
    rw [← finding_of_sameLife hs hlife]
    have hmade : t.KnowsScope scope := fun a ha => (hlife.knows a).2 (hscope a ha)
    exact resolveAlong_outcome (ht.consistent hs) (husable.of_sameLife hlife) name (some scope)
      (some_knowsScope hmade)
  have hassoc : s.seeking l name scope
      = ((Finding.ofLookup (s.loaded? l.host l.context name)).orElse
          (s.finding name (some scope) l.path)).orElse (.failure (.error (.notFound name l.context))) := by
    rw [seeking, resolving]
    cases s.loaded? l.host l.context name <;> rfl
  rw [hassoc]
  exact hsearch.settle l name

end UnitLoading.System
