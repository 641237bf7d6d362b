/-
Children: a loader that was made under another one, and shares its context and host, stands for that one.

# Asking twice

A child looks into the cache and asks the host, and when it has found nothing it delegates to its parent,
which looks into the same cache and asks the same host again. By then there is nothing left to see: the first
look has worked off the notices and taken out a stale entry, the host has forgotten a dead unit, and the
search along the scope puts nothing back (`Quiet`). So the second look is answered with nothing and leaves the
state exactly as it is (`resolveAlong_quiet`), and the parent goes on from where its own first look would
have led.

# Nesting

What one child is to its parent it is for any number of generations, provided that none of them has got a
search location of its own (`Begets`): the equality is one of answers and of whole states, so it is just
repeated.
-/
import UnitLoading.Proofs.Atomicity
import UnitLoading.Proofs.HostFirst

namespace UnitLoading

variable {s t r : System} {c a : ContextId} {h : HostId} {name : String} {u : UnitId} {l p d : Loader}
  {id : LoaderId} {scope : Option ResolutionScope} {rest path : List Stop} {f : Finding}

namespace Search

/-- What comes second matters only where the first finds nothing. -/
theorem orElse_congr {x y y' : Search} (hy : ∀ t, x s = (.ok none, t) → y t = y' t) :
    x.orElse y s = x.orElse y' s := by
  unfold orElse
  obtain ⟨result, t, hx⟩ : ∃ result t, x s = (result, t) := ⟨_, _, rfl⟩
  rw [hx]
  cases result with
  | error e => rfl
  | ok found =>
    cases found with
    | some u => rfl
    | none => exact hy t hx

/-- A second search that finds nothing in any case can be left out. -/
theorem orElse_of_nothing {x y : Search} (hy : ∀ t, x s = (.ok none, t) → y t = (.ok none, t)) :
    x.orElse y s = x s := by
  unfold orElse
  obtain ⟨result, t, hx⟩ : ∃ result t, x s = (result, t) := ⟨_, _, rfl⟩
  rw [hx]
  cases result with
  | error e => rfl
  | ok found =>
    cases found with
    | some u => rfl
    | none => exact hy t hx

end Search

/-- A name that was looked up in vain has no entry any more. -/
theorem UnitCache.get?_snd_get {alive : UnitId → Bool} {y : UnitCache} (hnone : (y.get alive name).1 = none) :
    (y.get alive name).2.entries.get? name = none := by
  unfold get at hnone ⊢
  cases hu : y.entries.get? name with
  | none => exact hu
  | some u =>
    rw [hu] at hnone
    by_cases ha : alive u = true
    · simp [ha] at hnone
    · simp [ha]

/-- The same at a host. -/
theorem Host.get?_snd_find {alive : UnitId → Bool} {y : Host} (hnone : (y.find alive c name).1 = none) :
    (y.find alive c name).2.loaded.get? (c, name) = none := by
  unfold find at hnone ⊢
  cases hu : y.loaded.get? (c, name) with
  | none => exact hu
  | some u =>
    rw [hu] at hnone
    by_cases ha : alive u = true
    · simp [ha] at hnone
    · simp [ha]

namespace System

/-- A search that found nothing was upkeep. -/
theorem Outcome.upkeeps {search : Search} (ho : Outcome s f (.ofSearch (search s).1) (search s).2)
    (hn : search s = (.ok none, t)) : Upkeeps s t := by
  rw [hn] at ho
  cases ho with
  | nothing ht => exact ht

-- ================================================================ nothing left to see

/-- There is nothing of a name in the cache of a context or at a host, not even something stale, and no notice
waits in the context. -/
structure Quiet (s : System) (c : ContextId) (h : HostId) (name : String) : Prop where
  queue : (s.context c).cache.queue = []
  entry : s.entryAt? c name = none
  slot : s.slot? h c name = none

/-- What looking into a cache in vain comes to. -/
theorem cached_none (hn : s.cached a name = (none, t)) : ((s.context a).cache.get s.alive name).1 = none ∧
    t = s.setContext a { s.context a with cache := ((s.context a).cache.get s.alive name).2 } := by
  have hout : handOut (((s.context a).cache.get s.alive name).1, s.setContext a
      { s.context a with cache := ((s.context a).cache.get s.alive name).2 }) = (none, t) := hn
  cases hfound : ((s.context a).cache.get s.alive name).1 with
  | none =>
    rw [hfound] at hout
    exact ⟨rfl, (Prod.mk.inj hout).2.symm⟩
  | some u =>
    rw [hfound] at hout
    cases hout

/-- Looking into a cache in vain takes the entry of the name out and adds nothing anywhere. -/
theorem cached_frame (hn : s.cached a name = (none, t)) : t.entryAt? a name = none ∧
    ∀ c, (t.context c).cache.queue = (s.context c).cache.queue ∧
      (s.entryAt? c name = none → t.entryAt? c name = none) := by
  obtain ⟨hfound, rfl⟩ := cached_none hn
  have hgone := UnitCache.get?_snd_get hfound
  constructor
  · rw [entryAt?, context_setContext, if_pos rfl]
    exact hgone
  · intro c
    constructor
    · exact context_setContext_congr (f := fun x => x.cache.queue) (UnitCache.queue_snd_get ..) c
    · intro hc
      rw [entryAt?, context_setContext]
      split
      · exact hgone
      · exact hc

theorem Quiet.cached (hq : s.Quiet c h name) (hn : s.cached a name = (none, t)) : t.Quiet c h name := by
  obtain ⟨-, hframe⟩ := cached_frame hn
  refine ⟨(hframe c).1.trans hq.queue, (hframe c).2 hq.entry, ?_⟩
  obtain ⟨-, rfl⟩ := cached_none hn
  exact hq.slot

theorem Quiet.firstCached {cs : List ContextId} (hq : s.Quiet c h name)
    (hn : System.firstCached name cs s = (none, t)) : t.Quiet c h name := by
  induction cs generalizing s with
  | nil =>
    rw [← (Prod.mk.inj hn).2]
    exact hq
  | cons a cs ih =>
    unfold System.firstCached at hn
    split at hn
    · exact ih hq hn
    · obtain ⟨found, r, hr⟩ : ∃ found r, s.cached a name = (found, r) := ⟨_, _, rfl⟩
      rw [hr] at hn
      cases found with
      | none => exact ih (hq.cached hr) hn
      | some u => cases hn

theorem Quiet.scopeStep (hq : s.Quiet c h name) (hn : System.scopeStep scope name s = (.ok none, t)) :
    t.Quiet c h name := by
  cases scope with
  | none =>
    rw [← (Prod.mk.inj hn).2]
    exact hq
  | some scope =>
    have hchain : (Except.ok (s.resolveViaChain scope name).1, (s.resolveViaChain scope name).2)
        = ((.ok none, t) : Except Failure (Option UnitId) × System) := hn
    obtain ⟨hfound, rfl⟩ := Prod.mk.inj hchain
    exact hq.firstCached (Prod.ext (Except.ok.inj hfound) rfl)

theorem findResident_none (hn : s.findResident c name = (none, t)) :
    (t.context c).cache.queue = [] ∧ t.entryAt? c name = none := by
  unfold findResident at hn
  split at hn
  · next hempty =>
    obtain ⟨hentry, hframe⟩ := cached_frame hn
    exact ⟨(hframe c).1.trans (List.isEmpty_iff.1 hempty), hentry⟩
  · obtain ⟨hentry, hframe⟩ := cached_frame hn
    refine ⟨(hframe c).1.trans ?_, hentry⟩
    rw [sweep, onCache, context_setContext, if_pos rfl]
    rfl

theorem findLoaded_none (hn : s.findLoaded h c name = (none, t)) :
    t.slot? h c name = none ∧ ∀ a, t.context a = s.context a := by
  rw [findLoaded_eq] at hn
  cases hloaded : s.loaded? h c name with
  | some u =>
    rw [hloaded] at hn
    cases hn
  | none =>
    rw [hloaded] at hn
    obtain rfl : s.asked h c name = t := (Prod.mk.inj hn).2
    refine ⟨?_, fun _ => rfl⟩
    rw [slot?, asked, host_setHost, if_pos rfl]
    exact Host.get?_snd_find ((Host.fst_find ..).trans hloaded)

/-- A look-up in vain, as a step of a search. -/
theorem eq_of_ofLookup {look : System → Option UnitId × System} (hn : Search.ofLookup look s = (.ok none, t)) :
    look s = (none, t) := by
  obtain ⟨hfound, hstate⟩ := Prod.mk.inj hn
  exact Prod.ext (Except.ok.inj hfound) hstate

/-- When a context and then a host were asked for a name in vain, nothing of it is left. -/
theorem quiet_of_asked (hresident : residentStep c name s = (.ok none, t))
    (hloaded : loadedStep h c name t = (.ok none, r)) : r.Quiet c h name := by
  obtain ⟨hqueue, hentry⟩ := findResident_none (eq_of_ofLookup hresident)
  obtain ⟨hslot, hcontext⟩ := findLoaded_none (eq_of_ofLookup hloaded)
  refine ⟨?_, ?_, hslot⟩
  · rw [hcontext]
    exact hqueue
  · rw [entryAt?, hcontext]
    exact hentry

-- ================================================================ looking again

theorem Quiet.residentStep (hq : s.Quiet c h name) (hc : s.Knows c) :
    System.residentStep c name s = (.ok none, s) := by
  have hentry : (s.context c).cache.entries.get? name = none := hq.entry
  have hcached : s.cached c name = (none, s) := by
    simp only [System.cached, onCache, UnitCache.get, hentry, handOut, setContext_context hc]
  rw [System.residentStep, Search.ofLookup, findResident, hq.queue]
  dsimp only [List.isEmpty_nil, ↓reduceIte]
  rw [if_pos rfl, hcached]

theorem Quiet.loadedStep (hq : s.Quiet c h name) (hh : s.HasHost h) :
    System.loadedStep h c name s = (.ok none, s) := by
  have hslot : (s.host h).loaded.get? (c, name) = none := hq.slot
  have hfound : s.findLoaded h c name = (none, s) := by
    simp only [findLoaded, Host.find, hslot, handOut, setHost_host hh]
  rw [System.loadedStep, Search.ofLookup, hfound]

/-- Where nothing is left to see, a loader asks straight on. -/
theorem resolveAlong_quiet (hq : s.Quiet c h name) (hc : s.Knows c) (hh : s.HasHost h) (id : LoaderId)
    (rest : List Stop) : resolveAlong name none (.dynamic id c h :: rest) s
      = ((resolveAlong name none rest).orElse (supplyStep id c h name)) s := by
  have hscope : System.scopeStep none name s = (.ok none, s) := rfl
  rw [resolveAlong_dynamic, Search.orElse_of_none (hq.residentStep hc), Search.orElse_of_none (hq.loadedStep hh),
    Search.orElse_of_none hscope]

/-- A loader without locations supplies nothing. -/
theorem supplyStep_none (hnone : s.locationsOf id = []) : supplyStep id c h name s = (.ok none, s) := by
  rw [supplyStep, hnone]
  rfl

/-- A stop with the context and host of the one behind it, and without locations, can be left out. -/
theorem resolveAlong_child {id' : LoaderId} (hs : s.Consistent) (hp : s.Usable (.dynamic id' c h :: rest))
    (hscope : ∀ x ∈ scope, s.KnowsScope x) (hnone : s.locationsOf id = []) :
    resolveAlong name scope (.dynamic id c h :: .dynamic id' c h :: rest) s
      = resolveAlong name scope (.dynamic id' c h :: rest) s := by
  obtain ⟨hc, hh⟩ := (hp _ List.mem_cons_self).1
  rw [resolveAlong_dynamic name scope id, resolveAlong_dynamic name scope id']
  refine Search.orElse_congr fun t₁ h₁ => Search.orElse_congr fun t₂ h₂ => Search.orElse_congr fun t₃ h₃ => ?_
  -- so far nothing was found, in either search: all has been upkeep, and nothing of the name is left
  have hup₁ : Upkeeps s t₁ := Outcome.upkeeps (findResident_outcome hs hc name) h₁
  have hlife₁ := hup₁.sameLife hs
  have hup₂ : Upkeeps t₁ t₂ := Outcome.upkeeps (findLoaded_outcome ((hlife₁.hasHost h).2 hh) c name) h₂
  have hboth : Upkeeps s t₂ := hup₁.trans hup₂
  have hlife₂ := hboth.sameLife hs
  have hup₃ : Upkeeps t₂ t₃ := Outcome.upkeeps (scopeStep_outcome (hboth.consistent hs)
    (fun x hx a ha => (hlife₂.knows a).2 (hscope x hx a ha)) name) h₃
  have hup : Upkeeps s t₃ := hboth.trans hup₃
  have hlife := hup.sameLife hs
  have hquiet : t₃.Quiet c h name := (quiet_of_asked h₁ h₂).scopeStep h₃
  -- the delegate goes on as if it had been asked itself, and behind it the child has nothing to add
  rw [Search.orElse_of_nothing, resolveAlong_quiet hquiet ((hlife.knows c).2 hc) ((hlife.hasHost h).2 hh)]
  intro r hr
  have hrest := (Outcome.upkeeps (resolveAlong_outcome (hup.consistent hs) (hp.of_sameLife hlife) name none
    fun _ hx => absurd hx (by simp)) hr).sameLife (hup.consistent hs)
  apply supplyStep_none
  rw [locationsOf, hrest.locations, hlife.locations]
  exact hnone

-- ================================================================ generations of children

/-- The second loader is the first, or was made by `childLoader` under one that it stands for, in whatever
state that was. None of those made so has a search location. -/
inductive Begets (s : System) (p : Loader) : Loader → Prop
  | self : Begets s p p
  | child {d : Loader} (hd : Begets s p d) (t : System) (hnone : s.locationsOf (t.childLoader d).1.id = []) :
      Begets s p (t.childLoader d).1

theorem Begets.of_sameLife (hl : s.SameLife t) (hd : s.Begets p d) : t.Begets p d := by
  induction hd with
  | self => exact .self
  | child _ r hnone ih =>
    refine .child ih r ?_
    rw [locationsOf, hl.locations]
    exact hnone

/-- Children have the context and the host of the loader that they come from. -/
theorem Begets.shares (hd : s.Begets p d) : d.context = p.context ∧ d.host = p.host := by
  induction hd with
  | self => exact ⟨rfl, rfl⟩
  | child _ _ _ ih => exact ih

/-- A resolution from a child is one from the loader that it comes from. -/
theorem resolveAlong_begets (hs : s.Consistent) (hp : s.Usable d.path)
    (hscope : ∀ x ∈ scope, s.KnowsScope x) (hd : s.Begets p d) (name : String) :
    resolveAlong name scope d.path s = resolveAlong name scope p.path s := by
  induction hd with
  | self => rfl
  | @child d hd t hnone ih =>
    have hrest : s.Usable d.path := fun f hf => hp f (List.mem_cons_of_mem _ hf)
    exact (resolveAlong_child hs hrest hscope hnone).trans (ih hrest)

/-- The answer to a name that was not found bears the context only. -/
theorem settle_congr (hcontext : d.context = p.context) (name : String) : settle d name = settle p name := by
  funext r
  unfold settle
  rw [hcontext]

theorem resolve_begets {scope : ResolutionScope} (hs : s.Consistent) (hd : s.Begets p d) (hheld : s.Holds d.path)
    (hscope : s.KnowsScope scope) (name : String) : s.resolve d name scope = s.resolve p name scope := by
  have hsearch := resolveAlong_begets hs (usable_of_holds hs hheld) (some_knowsScope hscope) hd name
  rw [resolve, hsearch, resolve, settle_congr hd.shares.1]

/-- A load asks the host of both first, and then resolves. -/
theorem load_begets {scope : ResolutionScope} (hs : s.Consistent) (hd : s.Begets p d) (hheld : s.Holds d.path)
    (hscope : s.KnowsScope scope) (name : String) (link : Bool) :
    s.load d name link scope = s.load p name link scope := by
  obtain ⟨hcontext, hhost⟩ := hd.shares
  have husable := usable_of_holds hs hheld
  have hh : s.HasHost p.host := by
    rw [← hhost]
    exact (husable _ List.mem_cons_self).1.2
  have hsearch : ((loadedStep p.host p.context name).orElse (resolveAlong name (some scope) d.path)) s
      = ((loadedStep p.host p.context name).orElse (resolveAlong name (some scope) p.path)) s := by
    apply Search.orElse_congr
    intro t ht
    have hup : Upkeeps s t := Outcome.upkeeps (findLoaded_outcome hh p.context name) ht
    have hlife := hup.sameLife hs
    refine resolveAlong_begets (hup.consistent hs) (husable.of_sameLife hlife) ?_ (hd.of_sameLife hlife) name
    exact some_knowsScope fun a ha => (hlife.knows a).2 (hscope a ha)
  have hsought : s.sought d name scope = s.sought p name scope := by
    rw [sought, hcontext, hhost, hsearch, sought, settle_congr hcontext]
  rw [load_eq, load_eq, hsought, hhost]

/-- Whatever is asked of a child, of a child's child and so on, as long as none of them has got a search
location, is answered as if it were asked of the loader that they come from, and leads to the very same
state. -/
theorem child_transparent (hr : s.Reachable Command.Public) (hd : s.Begets p d) (hheld : s.Holds d.path) :
    (∀ e, s.perform (.define d e) = s.perform (.define p e)) ∧
    (∀ name, s.perform (.findResident d name) = s.perform (.findResident p name)) ∧
    (∀ name scope, s.KnowsScope scope →
      s.perform (.resolve d name scope) = s.perform (.resolve p name scope)) ∧
    (∀ name link scope, s.KnowsScope scope →
      s.perform (.load d name link scope) = s.perform (.load p name link scope)) ∧
    (∀ g values, s.perform (.registerConstants d g values) = s.perform (.registerConstants p g values)) ∧
    s.perform (.close d) = s.perform (.close p) ∧
    s.residentNames d.context = s.residentNames p.context ∧
    (∀ g, s.constants? d g = s.constants? p g) ∧
    s.stats d.context = s.stats p.context ∧
    (s.context d.context).closed = (s.context p.context).closed := by
  have hs := hr.consistent
  obtain ⟨hcontext, hhost⟩ := hd.shares
  refine ⟨?_, ?_, ?_, ?_, ?_, ?_, by rw [hcontext], ?_, by rw [hcontext], by rw [hcontext]⟩
  · intro e
    rw [perform, define, hcontext, hhost]
    rfl
  · intro name
    rw [perform, hcontext]
    rfl
  · intro name scope hscope
    rw [perform, resolve_begets hs hd hheld hscope]
    rfl
  · intro name link scope hscope
    rw [perform, load_begets hs hd hheld hscope]
    rfl
  · intro g values
    rw [perform, registerConstants, hcontext]
    rfl
  · rw [perform, System.close, hcontext, hhost]
    rfl
  · intro g
    rw [constants?, hcontext]
    rfl

end System

/-- A child of the first loader, and a child of that. -/
def Loader.child : Loader := (System.unlinkable.childLoader .first).1

def Loader.grandchild : Loader := ((System.unlinkable.perform (.childLoader .first)).2.childLoader .child).1

namespace System

/-- The state in which both were made. -/
def generations : System := ((unlinkable.perform (.childLoader .first)).2.perform (.childLoader .child)).2

theorem reachable_generations : generations.Reachable Command.LoaderLevel := by
  have hone : (unlinkable.perform (.childLoader .first)).2.Reachable Command.LoaderLevel :=
    reachable_unlinkable.step id holds_unlinkable
  exact hone.step id ⟨_, List.mem_cons_self, List.suffix_rfl⟩

/-- The grandchild gives what the locations of the first loader supply, and fails to link it as that one
does. -/
theorem child_transparent_generations :
    generations.perform (.resolve .grandchild "a" .empty) = generations.perform (.resolve .first "a" .empty) ∧
      (generations.perform (.resolve .grandchild "a" .empty)).1 = .unit ⟨1⟩ ∧
      generations.perform (.load .grandchild "a" true .empty)
        = generations.perform (.load .first "a" true .empty) ∧
      (generations.perform (.load .grandchild "a" true .empty)).1
        = .failed (.error (.host (.linkFailed "a" "no symbol"))) := by
  have hd : generations.Begets .first .grandchild := .child (.child .self unlinkable rfl) _ rfl
  have hheld : generations.Holds Loader.grandchild.path := ⟨_, List.mem_cons_self, List.suffix_rfl⟩
  obtain ⟨-, -, hresolve, hload, -⟩ := child_transparent reachable_generations.public hd hheld
  have hresolve := hresolve "a" .empty (knowsScope_empty generations)
  have hload := hload "a" true .empty (knowsScope_empty generations)
  refine ⟨hresolve, ?_, hload, ?_⟩
  · rw [hresolve]
    rfl
  · rw [hload]
    rfl

end System

end UnitLoading
