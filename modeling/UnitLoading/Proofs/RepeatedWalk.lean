/-
The chain of the caller's scope is searched once, and that is enough.

A loader that delegates asks its parent without the scope, and what is behind a foreign loader starts anew
with the empty one. Were the scope handed on, every loader behind the first would search its chain once more,
after its own context and its own host (`resolveRewalking`). Neither answer nor state would be another: when
the first search along the chain has gone by in vain, each context of it is closed or has no entry of the name
(`Combed`). Until the next loader comes to its turn with the scope, only look-ups in vain have been made, and
they take entries out and put none in. So the chain is still combed, and a search along a combed chain finds
nothing and does nothing (`Combed.scopeStep`). The root is on every chain, so that goes for the empty scope too.

The two recursions are compared by an induction on the path, from any state in which the chain is combed
(`Combed.resolveRewalking_eq`). The first loader leaves such a state to its parent.
-/
import UnitLoading.Proofs.ChainWalk

namespace UnitLoading

variable {s t r : System} {c a : ContextId} {h : HostId} {name : String} {l : Loader} {id : LoaderId}
  {scope : ResolutionScope} {rest path : List Stop}

namespace System

-- ================================================================ walking again

/-- Resolves a name at the stops of a path, where every loader searches the chain of the scope after its own
context and its host; a foreign loader hands the scope on. -/
def resolveRewalking (name : String) (scope : ResolutionScope) : List Stop → Search
  | [] => .nothing
  | .foreign _ units raises :: rest => fun s =>
    if name ∈ raises then (.error .raised, s)
    else (Search.orElse (ownedStep units name) (resolveRewalking name scope rest).forgiving) s
  | .dynamic l c h :: rest =>
    (residentStep c name).orElse <|
    (loadedStep h c name).orElse <|
    (scopeStep (some scope) name).orElse <|
    (resolveRewalking name scope rest).orElse <|
    supplyStep l c h name

theorem resolveRewalking_foreign (name : String) (scope : ResolutionScope) (id : LoaderId)
    (units : Table String UnitId) (raises : List String) (rest : List Stop) :
    resolveRewalking name scope (.foreign id units raises :: rest) =
      if name ∈ raises then fun s => (.error .raised, s)
      else (ownedStep units name).orElse (resolveRewalking name scope rest).forgiving := by
  rw [resolveRewalking]
  split <;> rfl

theorem resolveRewalking_dynamic (name : String) (scope : ResolutionScope) (id : LoaderId) (c : ContextId)
    (h : HostId) (rest : List Stop) :
    resolveRewalking name scope (.dynamic id c h :: rest) =
      (residentStep c name).orElse ((loadedStep h c name).orElse ((scopeStep (some scope) name).orElse
        ((resolveRewalking name scope rest).orElse (supplyStep id c h name)))) := by
  rw [resolveRewalking]

/-- A resolution in which every loader on the path searches the chain of the scope. -/
def resolveAgain (s : System) (l : Loader) (name : String) (scope : ResolutionScope) :
    Except Failure UnitId × System :=
  settle l name (resolveRewalking name scope l.path s)

-- ================================================================ a chain without the name

/-- Whether every context that a scope searches is closed or has no entry of the name. -/
def Combed (s : System) (scope : ResolutionScope) (name : String) : Prop :=
  ∀ c ∈ s.chain scope, s.Barren name c

/-- Above each context stand the same ones as before, so the chain is the same. -/
theorem SameLife.chain (hl : s.SameLife t) (scope : ResolutionScope) : t.chain scope = s.chain scope := by
  have habove : (fun c => (t.context c).ancestors) = fun c => (s.context c).ancestors := funext hl.ancestors
  rw [System.chain, System.chain, habove]

/-- A walk over barren contexts finds nothing and does nothing. -/
theorem firstCached_of_barren {cs : List ContextId} (hcs : ∀ c ∈ cs, s.Knows c)
    (hbarren : ∀ c ∈ cs, s.Barren name c) : firstCached name cs s = (none, s) := by
  induction cs with
  | nil => rfl
  | cons c cs ih =>
    rw [firstCached_barren (hcs c List.mem_cons_self) (hbarren c List.mem_cons_self)]
    exact ih (fun a ha => hcs a (List.mem_cons_of_mem _ ha))
      fun a ha => hbarren a (List.mem_cons_of_mem _ ha)

theorem Combed.scopeStep (hcombed : s.Combed scope name) (hs : s.Consistent) (hscope : s.KnowsScope scope) :
    System.scopeStep (some scope) name s = (.ok none, s) := by
  have hwalk : s.resolveViaChain scope name = (none, s) :=
    firstCached_of_barren (fun _ hc => knows_of_mem_chain hs hscope hc) hcombed
  rw [System.scopeStep, Search.ofLookup, hwalk]

/-- A walk in vain leaves every context that it came by barren, and those that were barren before. -/
theorem barren_of_firstCached_none {cs : List ContextId} (hn : firstCached name cs s = (none, t)) :
    (∀ a, s.Barren name a → t.Barren name a) ∧ ∀ c ∈ cs, t.Barren name c := by
  induction cs generalizing s with
  | nil =>
    obtain rfl : s = t := (Prod.mk.inj hn).2
    exact ⟨fun _ => id, fun _ hc => absurd hc List.not_mem_nil⟩
  | cons c cs ih =>
    unfold firstCached at hn
    split at hn
    · next hclosed =>
      obtain ⟨hkept, hpassed⟩ := ih hn
      refine ⟨hkept, fun a ha => ?_⟩
      rcases List.mem_cons.1 ha with rfl | ha
      · exact hkept a (.inl hclosed)
      · exact hpassed a ha
    · obtain ⟨found, r, hr⟩ : ∃ found r, s.cached c name = (found, r) := ⟨_, _, rfl⟩
      rw [hr] at hn
      cases found with
      | some u => cases hn
      | none =>
        obtain ⟨-, hkeeps, hhere⟩ := barren_of_cached_none hr
        obtain ⟨hkept, hpassed⟩ := ih hn
        refine ⟨fun a ha => hkept a (hkeeps a ha), fun a ha => ?_⟩
        rcases List.mem_cons.1 ha with rfl | ha
        · exact hkept a hhere
        · exact hpassed a ha

/-- When the search along a chain finds nothing, the chain is combed. -/
theorem combed_of_scopeStep (hs : s.Consistent) (hscope : s.KnowsScope scope)
    (hn : System.scopeStep (some scope) name s = (.ok none, t)) : t.Combed scope name := by
  have hwalk : s.resolveViaChain scope name = (none, t) := eq_of_ofLookup hn
  have hup : Upkeeps s t :=
    Outcome.upkeeps (scopeStep_outcome hs (some_knowsScope hscope) name) hn
  intro c hc
  rw [(hup.sameLife hs).chain] at hc
  exact (barren_of_firstCached_none hwalk).2 c hc

-- ================================================================ what keeps a chain combed

/-- A sweep takes entries out and puts none in. -/
theorem Barren.sweep (hbarren : s.Barren name a) (c : ContextId) : (s.sweep c).2.Barren name a := by
  refine hbarren.imp (fun hclosed => ?_) fun hentry => ?_
  · refine Eq.trans (context_setContext_congr (f := Context.closed) ?_ a) hclosed
    rfl
  · rw [System.sweep, onCache, entryAt?, context_setContext]
    split
    · next hac =>
      subst hac
      refine Option.eq_none_iff_forall_ne_some.2 fun u hu => ?_
      have hbefore : s.entryAt? a name = some u := (UnitCache.get?_purge.1 hu).1
      rw [hentry] at hbefore
      cases hbefore
    · exact hentry

theorem Barren.residentStep (hbarren : s.Barren name a)
    (hn : System.residentStep c name s = (.ok none, t)) : t.Barren name a := by
  have hfind : s.findResident c name = (none, t) := eq_of_ofLookup hn
  unfold findResident at hfind
  split at hfind
  · exact (barren_of_cached_none hfind).2.1 a hbarren
  · exact (barren_of_cached_none hfind).2.1 a (hbarren.sweep c)

/-- Asking a host touches no cache. -/
theorem Barren.loadedStep (hbarren : s.Barren name a)
    (hn : System.loadedStep h c name s = (.ok none, t)) : t.Barren name a := by
  have hcontext := (findLoaded_none (eq_of_ofLookup hn)).2 a
  rw [Barren, entryAt?, hcontext]
  exact hbarren

/-- What a context and a host leave behind, if they have nothing of the name. -/
theorem asked_upkeeps (hs : s.Consistent) (hc : s.Knows c) (hh : s.HasHost h)
    (h₁ : System.residentStep c name s = (.ok none, t))
    (h₂ : System.loadedStep h c name t = (.ok none, r)) : Upkeeps s r := by
  have hup : Upkeeps s t := Outcome.upkeeps (findResident_outcome hs hc name) h₁
  exact hup.trans (Outcome.upkeeps (findLoaded_outcome (((hup.sameLife hs).hasHost h).2 hh) c name) h₂)

theorem eq_of_ownedStep_none {units : Table String UnitId}
    (hn : ownedStep units name s = (.ok none, t)) : t = s := by
  have hlook : handOut (units.get? name, s) = (none, t) := eq_of_ofLookup hn
  cases hunits : units.get? name with
  | none =>
    rw [hunits] at hlook
    exact (Prod.mk.inj hlook).2.symm
  | some u =>
    rw [hunits] at hlook
    cases (Prod.mk.inj hlook).1

/-- The root is on every chain, and the chain of the empty scope is the root alone. -/
theorem Combed.empty (hcombed : s.Combed scope name) : s.Combed .empty name := by
  intro a ha
  rw [chain, ResolutionScope.mem_chain, ResolutionScope.walk] at ha
  obtain rfl : a = .root := List.mem_singleton.1 ha
  apply hcombed
  rw [chain, ResolutionScope.mem_chain, ResolutionScope.walk]
  exact List.mem_append_right _ (List.mem_singleton.2 rfl)

-- ================================================================ the two recursions

/-- A search that begins in the same way begins a longer one in the same way. -/
theorem orElse_congr_left {x x' y : Search} (hx : x s = x' s) : x.orElse y s = x'.orElse y s := by
  unfold Search.orElse
  rw [hx]

theorem forgiving_congr {x x' : Search} (hx : x s = x' s) : x.forgiving s = x'.forgiving s := by
  unfold Search.forgiving
  rw [hx]

/-- Where the chain is combed, searching it at every loader comes to the same as not searching it, and to the same
as searching the chain of the empty scope. -/
theorem Combed.resolveRewalking_eq {asked : Option ResolutionScope} (hcombed : s.Combed scope name)
    (hasked : ∀ x ∈ asked, x = .empty) (hs : s.Consistent) (hp : s.Usable path) (hscope : s.KnowsScope scope) :
    resolveRewalking name scope path s = resolveAlong name asked path s := by
  induction path generalizing s asked with
  | nil => rfl
  | cons stop rest ih =>
    have hrest : s.Usable rest := fun f hf => hp f (List.mem_cons_of_mem _ hf)
    cases stop with
    | foreign id units raises =>
      rw [resolveRewalking_foreign, resolveAlong_foreign]
      split
      · rfl
      · refine Search.orElse_congr fun t ht => forgiving_congr ?_
        rw [eq_of_ownedStep_none ht]
        exact ih hcombed (fun x hx => (Option.some.inj hx).symm) hs hrest hscope
    | dynamic id c h =>
      obtain ⟨⟨hc, hh⟩, -⟩ := hp _ List.mem_cons_self
      rw [resolveRewalking_dynamic, resolveAlong_dynamic]
      refine Search.orElse_congr fun t₁ h₁ => Search.orElse_congr fun t₂ h₂ => ?_
      have hup := asked_upkeeps hs hc hh h₁ h₂
      have hcon := hup.consistent hs
      have hlife := hup.sameLife hs
      have hmade : t₂.KnowsScope scope := fun a ha => (hlife.knows a).2 (hscope a ha)
      have hstill : t₂.Combed scope name := by
        intro a ha
        rw [hlife.chain] at ha
        exact ((hcombed a ha).residentStep h₁).loadedStep h₂
      have hquiet : System.scopeStep asked name t₂ = (.ok none, t₂) := by
        cases asked with
        | none => rfl
        | some x =>
          rw [hasked x rfl]
          exact hstill.empty.scopeStep hcon (knowsScope_empty t₂)
      rw [Search.orElse_of_none (hstill.scopeStep hcon hmade), Search.orElse_of_none hquiet]
      exact orElse_congr_left
        (ih hstill (fun x hx => absurd hx (Option.not_mem_none x)) hcon (hrest.of_sameLife hlife) hmade)

/-- The first loader searches the chain in any case, and if it finds nothing there, the chain is combed. -/
theorem resolveRewalking_path (hs : s.Consistent) (hp : s.Usable l.path) (hscope : s.KnowsScope scope) :
    resolveRewalking name scope l.path s = resolveAlong name (some scope) l.path s := by
  have hrest : s.Usable l.delegates := fun f hf => hp f (List.mem_cons_of_mem _ hf)
  obtain ⟨⟨hc, hh⟩, -⟩ := hp _ List.mem_cons_self
  rw [Loader.path, resolveRewalking_dynamic, resolveAlong_dynamic]
  refine Search.orElse_congr fun t₁ h₁ => Search.orElse_congr fun t₂ h₂ =>
    Search.orElse_congr fun t₃ h₃ => orElse_congr_left ?_
  have hup := asked_upkeeps hs hc hh h₁ h₂
  have hcon := hup.consistent hs
  have hmade : t₂.KnowsScope scope := fun a ha => ((hup.sameLife hs).knows a).2 (hscope a ha)
  have hall : Upkeeps s t₃ :=
    hup.trans (Outcome.upkeeps (scopeStep_outcome hcon (some_knowsScope hmade) name) h₃)
  have hlife := hall.sameLife hs
  have hcombed : t₃.Combed scope name := combed_of_scopeStep hcon hmade h₃
  exact hcombed.resolveRewalking_eq (fun x hx => absurd hx (Option.not_mem_none x)) (hall.consistent hs)
    (hrest.of_sameLife hlife) fun a ha => (hlife.knows a).2 (hscope a ha)

-- ================================================================ resolutions

/-- A resolution answers as if every loader that it is delegated to searched the chain of the scope again
after its own context and its host, and it leads to the very same state: the same units live, under the same
names in the same contexts and hosts, with the same flags and counts. -/
theorem scope_walked_once (hr : s.Reachable Command.Public) (hl : s.Holds l.path)
    (hscope : s.KnowsScope scope) (name : String) :
    s.perform (.resolve l name scope) = answering .ofResolution (s.resolveAgain l name scope) := by
  have hs := hr.consistent
  have hsearch : resolveRewalking name scope l.path s = resolveAlong name (some scope) l.path s :=
    resolveRewalking_path hs (usable_of_holds hs hl) hscope
  rw [resolveAgain, hsearch]
  rfl

/-- A name that the inner loader finds along the chain, in the root, and a name that nobody knows, for which it
asks the loader behind it as well: both are answered as if that loader searched the chain too. -/
theorem scope_walked_once_branched :
    let inner : ResolutionScope := ⟨[⟨1⟩]⟩
    branched.perform (.resolve .nested "a" inner)
        = answering .ofResolution (branched.resolveAgain .nested "a" inner) ∧
      (branched.perform (.resolve .nested "a" inner)).1 = .unit ⟨1⟩ ∧
      branched.perform (.resolve .nested "z" inner)
        = answering .ofResolution (branched.resolveAgain .nested "z" inner) ∧
      (branched.perform (.resolve .nested "z" inner)).1 = .failed (.error (.notFound "z" ⟨1⟩)) := by
  intro inner
  have hscope : branched.KnowsScope inner := knowsScope_withActive rfl
  have hagree := scope_walked_once reachable_branched.public branched_holds_nested hscope
  exact ⟨hagree "a", rfl, hagree "z", rfl⟩

end System

end UnitLoading
