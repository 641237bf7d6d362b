/-
Stability: a resolution that gave a unit gives it again for as long as the unit lives.

# What may happen in between

`Aside name s t` is a run whose commands put nothing under the name, close no context and clear no table.
They may define, resolve, link and drop units of other names, drop handles, look up the name itself, sweep
and drain, make contexts and loaders, and publish definitions and add locations that supply the name.

# Why the unit stays

All that matters is `Keeps name u s t`: wherever the living entry of the name was `u` it still is, and where
there was none there is none, or `u`. The search that built `u` is of this kind, since it puts `u` at two
places that were free, and so is every command aside while `u` lives. The steps of a resolution that came to
nothing before `u` was found therefore come to nothing or to `u` again (`Keeps.finding`). What a loader
supplies comes last, and only where nothing lives, so new locations change nothing.

No unit is built on the way, since a search that ends at a living unit only looks into tables
(`resolveAlong_sameStock`).
-/
import UnitLoading.Proofs.Fading

namespace UnitLoading

variable {s t r : System} {c a : ContextId} {h k : HostId} {name : String} {u v : UnitId} {d : Definition}
  {f g : Finding} {answer : Answer} {cmd : Command} {l : Loader} {path : List Stop}
  {before between after : Option UnitId}

-- ================================================================ entries that stay

/-- Where the unit was found it is found later, and where nothing was found there is nothing but the unit. -/
structure Upholds (u : UnitId) (before after : Option UnitId) : Prop where
  kept : before = some u → after = some u
  free : before = none → after = none ∨ after = some u

namespace Upholds

theorem refl (u : UnitId) (before : Option UnitId) : Upholds u before before := ⟨id, .inl⟩

theorem trans (hfirst : Upholds u before between) (hlast : Upholds u between after) :
    Upholds u before after where
  kept hu := hlast.kept (hfirst.kept hu)
  free hnone := by
    rcases hfirst.free hnone with hstill | hu
    · exact hlast.free hstill
    · exact .inr (hlast.kept hu)

/-- Entries may go with their units, if they are not entries of this one. -/
theorem filter {alive : UnitId → Bool} (hu : alive u = true) (before : Option UnitId) :
    Upholds u before (before.filter alive) where
  kept := by
    rintro rfl
    rw [Option.filter_some, if_pos hu]
  free := by
    rintro rfl
    exact .inl rfl

/-- What stays at each of several places stays at the first one that has something. -/
theorem findSome? {α : Type} {before after : α → Option UnitId} {places : List α}
    (hall : ∀ p ∈ places, Upholds u (before p) (after p)) :
    Upholds u (places.findSome? before) (places.findSome? after) := by
  induction places with
  | nil => exact .refl u none
  | cons p places ih =>
    have hrest := ih fun q hq => hall q (List.mem_cons_of_mem _ hq)
    have hone := hall p List.mem_cons_self
    rw [List.findSome?_cons, List.findSome?_cons]
    cases hbefore : before p with
    | some v =>
      refine ⟨fun hv => ?_, fun hv => absurd hv (by simp)⟩
      rw [hone.kept (hbefore.trans hv)]
    | none =>
      rcases hone.free hbefore with hnone | hu
      · rw [hnone]
        exact hrest
      · rw [hu]
        exact ⟨fun _ => rfl, fun _ => .inr rfl⟩

end Upholds

/-- Whether a finding is this unit, or one that is going to be built where this one is later. -/
def Finding.Gives (u : UnitId) (there : ContextId → Prop) : Finding → Prop
  | live v => v = u
  | fresh c _ _ => there c
  | failure _ | nothing => False

theorem Finding.Gives.mono {here there : ContextId → Prop} (hf : f.Gives u here)
    (hmove : ∀ c, here c → there c) : f.Gives u there := by
  cases f with
  | live v => exact hf
  | fresh c h d => exact hmove c hf
  | failure | nothing => exact hf

/-- If the first look-up may only turn to the unit, what comes behind it decides. -/
theorem Finding.Gives.orElse {there : ContextId → Prop} (hfirst : Upholds u before after)
    (hf : ((Finding.ofLookup before).orElse f).Gives u there)
    (hg : before = none → after = none → f.Gives u there → g = .live u) :
    (Finding.ofLookup after).orElse g = .live u := by
  cases before with
  | some v =>
    obtain rfl : v = u := hf
    rw [hfirst.kept rfl]
    rfl
  | none =>
    rcases hfirst.free rfl with rfl | rfl
    · exact hg rfl rfl hf
    · rfl

/-- That there was nothing to be found is no unit. -/
theorem Finding.Gives.of_orElse_failure {there : ContextId → Prop} {e : Failure}
    (hf : (f.orElse (.failure e)).Gives u there) : f.Gives u there := by
  cases f with
  | nothing => exact absurd hf id
  | live | fresh | failure => exact hf

namespace System

/-- Every living entry of a name that is the unit stays, no entry for another unit comes, and the contexts
stay open or closed and where they are in the tree. -/
structure Keeps (name : String) (u : UnitId) (s t : System) : Prop where
  resident (c : ContextId) : Upholds u (s.resident? c name) (t.resident? c name)
  loaded (h : HostId) (c : ContextId) : Upholds u (s.loaded? h c name) (t.loaded? h c name)
  closed (c : ContextId) : (t.context c).closed = (s.context c).closed
  knows {c : ContextId} : s.Knows c → t.Knows c
  ancestors {c : ContextId} : s.Knows c → (t.context c).ancestors = (s.context c).ancestors

namespace Keeps

theorem trans (hst : Keeps name u s t) (htr : Keeps name u t r) : Keeps name u s r where
  resident c := (hst.resident c).trans (htr.resident c)
  loaded h c := (hst.loaded h c).trans (htr.loaded h c)
  closed c := (htr.closed c).trans (hst.closed c)
  knows hc := htr.knows (hst.knows hc)
  ancestors hc := (htr.ancestors (hst.knows hc)).trans (hst.ancestors hc)

/-- What fades is kept while the unit lives. -/
theorem of_fades (hf : Fades name s t) (hu : t.alive u = true) : Keeps name u s t where
  resident c := by
    rw [hf.resident]
    exact .filter hu _
  loaded h c := by
    rw [hf.loaded]
    exact .filter hu _
  closed := hf.closed
  knows := hf.knows
  ancestors := hf.ancestors

/-- A search puts the unit that it gives at free places, if anywhere. -/
theorem of_outcome (hs : s.Consistent) (ho : Outcome s f (.unit u) t) (name : String) : Keeps name u s t where
  resident c := by
    rcases ho.resident? hs c name with hsame | ⟨h, d, v, -, -, hv, -, hfilled⟩
    · rw [hsame]
      exact .refl u _
    · rw [hfilled, ← Answer.unit.inj hv]
      exact ⟨fun _ => rfl, fun _ => .inr rfl⟩
  loaded h c := by
    rcases ho.loaded? hs h c name with hsame | ⟨d, v, -, -, hv, -, hfilled⟩
    · rw [hsame]
      exact .refl u _
    · rw [hfilled, ← Answer.unit.inj hv]
      exact ⟨fun _ => rfl, fun _ => .inr rfl⟩
  closed c := (ho.context hs c).1.1
  knows := (ho.context hs _).2.2
  ancestors _ := (ho.context hs _).2.1

-- ================================================================ the finding stays

theorem chain (hk : Keeps name u s t) {scope : ResolutionScope} (hscope : s.KnowsScope scope) :
    t.chain scope = s.chain scope := by
  have hwalk : scope.walk (fun c => (t.context c).ancestors) = scope.walk fun c => (s.context c).ancestors := by
    rw [ResolutionScope.walk, ResolutionScope.walk]
    congr 1
    refine List.flatMap_congr fun c hc => ?_
    rw [hk.ancestors (hscope c hc)]
  rw [System.chain, System.chain, ResolutionScope.chain, ResolutionScope.chain, hwalk]

theorem alongChain? (hk : Keeps name u s t) {scope : ResolutionScope} (hscope : s.KnowsScope scope) :
    Upholds u (s.alongChain? scope name) (t.alongChain? scope name) := by
  rw [System.alongChain?, System.alongChain?, hk.chain hscope]
  apply Upholds.findSome?
  intro c _
  rw [hk.closed]
  split
  · exact .refl u none
  · exact hk.resident c

/-- Where nothing resided before and nothing does now, the loader has not supplied the unit. -/
theorem not_supplied (hs : s.Consistent) {id : LoaderId} (hbefore : s.resident? c name = none)
    (hafter : t.resident? c name = none) :
    ¬ (s.supply id c h name).Gives u fun a => t.resident? a name = some u := by
  intro hf
  cases hsupply : s.supply id c h name with
  | live v =>
    rw [supply_live hs hsupply] at hbefore
    cases hbefore
  | fresh a k d =>
    obtain ⟨rfl, -, -⟩ := supply_fresh hs hsupply
    rw [hsupply] at hf
    rw [show t.resident? a name = some u from hf] at hafter
    cases hafter
  | failure | nothing =>
    rw [hsupply] at hf
    exact hf

/-- What was found, or built where the unit now resides, is found again. -/
theorem finding (hk : Keeps name u s t) (hs : s.Consistent) {scope : Option ResolutionScope}
    (hscope : ∀ x ∈ scope, s.KnowsScope x)
    (hf : (s.finding name scope path).Gives u fun c => t.resident? c name = some u) :
    t.finding name scope path = .live u := by
  induction path generalizing scope with
  | nil => cases hf
  | cons stop rest ih =>
    cases stop with
    | foreign id units raises =>
      unfold System.finding at hf ⊢
      split at hf
      · cases hf
      · next hcalm =>
        rw [if_neg hcalm]
        apply hf.orElse (.refl u _)
        intro _ _ hvia
        rw [ih (some_knowsScope (knowsScope_empty s))]
        · rfl
        · cases hrest : s.finding name (some .empty) rest with
          | failure e =>
            rw [hrest] at hvia
            cases e <;> cases hvia
          | live | fresh | nothing =>
            rw [hrest] at hvia
            exact hvia
    | dynamic id c h =>
      unfold System.finding at hf ⊢
      apply hf.orElse (hk.resident c)
      intro hbefore hafter hf
      apply hf.orElse (hk.loaded h c)
      intro _ _ hf
      have hchain : Upholds u (scope.bind fun x => s.alongChain? x name)
          (scope.bind fun x => t.alongChain? x name) := by
        cases scope with
        | none => exact .refl u none
        | some x => exact hk.alongChain? (hscope x rfl)
      apply hf.orElse hchain
      intro _ _ hf
      cases hrest : s.finding name none rest with
      | nothing =>
        -- what the loader supplies resided in its context before, or does so now
        rw [hrest] at hf
        exact absurd hf (not_supplied hs hbefore hafter)
      | live | fresh | failure =>
        rw [hrest] at hf
        rw [ih (fun _ hx => absurd hx (by simp)) (by rw [hrest]; exact hf)]
        rfl

end Keeps

-- ================================================================ looking only

/-- No unit has been built, and no host has installed one. -/
def SameStock (s t : System) : Prop := t.units = s.units ∧ ∀ h, (t.host h).installs = (s.host h).installs

theorem SameStock.trans (hst : s.SameStock t) (htr : t.SameStock r) : s.SameStock r :=
  ⟨htr.1.trans hst.1, fun h => (htr.2 h).trans (hst.2 h)⟩

theorem handOut_sameStock (found : Option UnitId) (s : System) : s.SameStock (handOut (found, s)).2 := by
  cases found <;> exact ⟨rfl, fun _ => rfl⟩

theorem cached_sameStock (s : System) (c : ContextId) (name : String) : s.SameStock (s.cached c name).2 := by
  unfold cached
  exact SameStock.trans (t := (s.onCache c fun cache => cache.get s.alive name).2) ⟨rfl, fun _ => rfl⟩
    (handOut_sameStock _ _)

theorem findResident_sameStock (s : System) (c : ContextId) (name : String) :
    s.SameStock (s.findResident c name).2 := by
  unfold findResident
  split
  · exact cached_sameStock s c name
  · exact SameStock.trans (t := (s.sweep c).2) ⟨rfl, fun _ => rfl⟩ (cached_sameStock _ c name)

theorem findLoaded_sameStock (s : System) (h : HostId) (c : ContextId) (name : String) :
    s.SameStock (s.findLoaded h c name).2 := by
  have hasked : s.SameStock (s.asked h c name) := by
    refine ⟨rfl, fun k => host_setHost_congr ?_ k⟩
    unfold Host.find
    split
    · rfl
    · split <;> rfl
  rw [findLoaded_eq]
  exact hasked.trans (handOut_sameStock _ _)

theorem firstCached_sameStock (name : String) (cs : List ContextId) (s : System) :
    s.SameStock (firstCached name cs s).2 := by
  induction cs generalizing s with
  | nil => exact ⟨rfl, fun _ => rfl⟩
  | cons c cs ih =>
    unfold firstCached
    split
    · exact ih s
    · have hone := cached_sameStock s c name
      split
      · next t ht =>
        rw [ht] at hone
        exact hone.trans (ih t)
      · exact hone

theorem scopeStep_sameStock (scope : Option ResolutionScope) (name : String) (s : System) :
    s.SameStock (scopeStep scope name s).2 := by
  cases scope with
  | none => exact ⟨rfl, fun _ => rfl⟩
  | some x => exact firstCached_sameStock name (s.chain x) s

/-- A second search counts only where the first one finds nothing. -/
theorem orElse_sameStock {first second : Search}
    (ho : Outcome s f (.ofSearch (first s).1) (first s).2) (hfirst : s.SameStock (first s).2)
    (hsecond : ∀ t, Upkeeps s t → f = .nothing → t.SameStock (second t).2) :
    s.SameStock (first.orElse second s).2 := by
  unfold Search.orElse
  split
  · next t ht =>
    rw [ht] at ho hfirst
    cases ho with
    | nothing hup => exact hfirst.trans (hsecond t hup rfl)
  · exact hfirst

theorem forgiving_sameStock {search : Search} (hsearch : s.SameStock (search s).2) :
    s.SameStock (search.forgiving s).2 := by
  unfold Search.forgiving
  split
  · next e t ht =>
    rw [ht] at hsearch
    exact hsearch
  · exact hsearch

/-- What is behind look-ups that found nothing is what the whole search finds. -/
theorem finding_behind (hs : s.Consistent) {id : LoaderId} (hnone : s.resident? c name = none)
    (hf : (s.finding name none path).orElse (s.supply id c h name) = .live u) :
    s.finding name none path = .live u := by
  cases hrest : s.finding name none path with
  | nothing =>
    rw [hrest] at hf
    rw [supply_live hs hf] at hnone
    cases hnone
  | live | fresh | failure =>
    rw [hrest] at hf
    exact hf

/-- A resolution that ends at a living unit only looks into tables. -/
theorem resolveAlong_sameStock (hs : s.Consistent) (hp : s.Usable path) {scope : Option ResolutionScope}
    (hscope : ∀ x ∈ scope, s.KnowsScope x) (hf : s.finding name scope path = .live u) :
    s.SameStock (resolveAlong name scope path s).2 := by
  have hkeep : ∀ {t : System}, Upkeeps s t → t.Consistent ∧ s.SameLife t := fun ht =>
    ⟨ht.consistent hs, ht.sameLife hs⟩
  induction path generalizing s scope with
  | nil => cases hf
  | cons stop rest ih =>
    obtain ⟨hknown, howned⟩ := hp stop List.mem_cons_self
    have hrest : s.Usable rest := fun f hf => hp f (List.mem_cons_of_mem _ hf)
    cases stop with
    | foreign id units raises =>
      unfold resolveAlong
      unfold finding at hf
      split at hf
      · cases hf
      · next hcalm =>
        simp only [hcalm, ↓reduceIte]
        have howns : Outcome s (.ofLookup (units.get? name)) (.ofSearch (ownedStep units name s).1)
            (ownedStep units name s).2 := ownedStep_outcome fun u hu => howned u (Table.mem_values_of_get? hu)
        refine orElse_sameStock howns (handOut_sameStock _ s) ?_
        intro t ht hnothing
        rw [hnothing] at hf
        obtain ⟨hcon, hl⟩ := hkeep ht
        apply forgiving_sameStock
        refine ih hcon (hrest.of_sameLife hl) (some_knowsScope (knowsScope_empty t)) ?_
          fun hr => ⟨hr.consistent hcon, hr.sameLife hcon⟩
        rw [finding_of_sameLife hs hl]
        exact Finding.forgiven_eq_live.1 hf
    | dynamic id c h =>
      obtain ⟨hc, hh⟩ := hknown
      unfold resolveAlong
      unfold finding at hf
      -- look-ups that come to nothing leave a state with the same life, and the unit is still to be found
      refine orElse_sameStock (findResident_outcome hs hc name) (findResident_sameStock s c name) ?_
      intro t ht hresident
      rw [hresident] at hf
      obtain ⟨hcon, hl⟩ := hkeep ht
      refine orElse_sameStock (findLoaded_outcome ((hl.hasHost h).2 hh) c name)
        (findLoaded_sameStock t h c name) ?_
      intro t₂ ht₂ hloaded
      rw [hl.loaded] at hloaded
      rw [hloaded] at hf
      replace ht := ht.trans ht₂
      obtain ⟨hcon, hl⟩ := hkeep ht
      have hmade : ∀ x ∈ scope, t₂.KnowsScope x := fun x hx a ha => (hl.knows a).2 (hscope x hx a ha)
      refine orElse_sameStock (scopeStep_outcome hcon hmade name) (scopeStep_sameStock scope name t₂) ?_
      intro t₃ ht₃ hchain
      rw [inScope_of_sameLife hl] at hchain
      rw [hchain] at hf
      replace ht := ht.trans ht₃
      obtain ⟨hcon, hl⟩ := hkeep ht
      have hlive : t₃.finding name none rest = .live u := by
        rw [finding_of_sameLife hs hl]
        exact finding_behind hs (Finding.ofLookup_eq_nothing.1 hresident) hf
      have hnoscope : ∀ x ∈ (none : Option ResolutionScope), t₃.KnowsScope x := fun _ hx => absurd hx (by simp)
      refine orElse_sameStock (resolveAlong_outcome hcon (hrest.of_sameLife hl) name none hnoscope)
        (ih hcon (hrest.of_sameLife hl) hnoscope hlive fun hr => ⟨hr.consistent hcon, hr.sameLife hcon⟩) ?_
      intro _ _ hnothing
      rw [hlive] at hnothing
      cases hnothing

theorem resolve_sameStock {scope : ResolutionScope} (hs : s.Consistent) (hl : s.Holds l.path)
    (hscope : s.KnowsScope scope) (hf : s.finding name (some scope) l.path = .live u) :
    s.SameStock (s.resolve l name scope).2 := by
  have hsearch := resolveAlong_sameStock hs (usable_of_holds hs hl) (some_knowsScope hscope) hf
  unfold resolve settle
  split
  all_goals
    next hr =>
    rw [hr] at hsearch
    exact hsearch

-- ================================================================ resolving again

/-- A run of commands that put nothing under the name, close no context and clear no table. -/
inductive Aside (name : String) (s : System) : System → Prop
  | start : Aside name s s
  | step {t : System} {cmd : Command} (ht : Aside name s t) (hp : cmd.Possible t)
      (hm : ¬ cmd.Concerns t name) (he : ¬ cmd.Empties) : Aside name s (t.perform cmd).2

theorem Aside.fades (ht : Aside name s t) (hs : s.Consistent) : Fades name s t ∧ t.Consistent := by
  induction ht with
  | start => exact ⟨.of_sameLife (.refl s) name, hs⟩
  | step ht hp hm he ih =>
    obtain ⟨hfades, hcon⟩ := ih
    exact ⟨hfades.trans hs (perform_fades hcon hp hm he), (perform_moves hcon hp).consistent hcon⟩

/-- What a search gives was there, or now resides where it was built. -/
theorem Outcome.gives (ho : Outcome s f (.unit u) t) (hs : s.Consistent)
    (hname : ∀ c h d, f = .fresh c h d → d.name = name) : f.Gives u fun c => t.resident? c name = some u := by
  cases ho with
  | live => rfl
  | @fresh c h d r ht ha =>
    show (r.installed c h d).resident? c name = some r.nextUnit
    rw [resident?_installed_eq (ht.consistent hs), if_pos ⟨rfl, (hname c h d rfl).symm⟩]

/-- A resolution that has given a unit gives it again, whatever is done aside, for as long as the unit lives:
no other unit is built, and no host installs one. -/
theorem resolution_stays {scope : ResolutionScope} (hr : s.Reachable Command.Public) (hl : s.Holds l.path)
    (hscope : s.KnowsScope scope) (hu : (s.perform (.resolve l name scope)).1 = .unit u)
    (hside : Aside name (s.perform (.resolve l name scope)).2 t) (hlater : t.Holds l.path)
    (halive : t.alive u = true) :
    (t.perform (.resolve l name scope)).1 = .unit u ∧
      (t.perform (.resolve l name scope)).2.units = t.units ∧
      ∀ h, ((t.perform (.resolve l name scope)).2.host h).installs = (t.host h).installs := by
  have hs := hr.consistent
  have ho : Outcome s (s.resolving l name scope) (s.perform (.resolve l name scope)).1
      (s.perform (.resolve l name scope)).2 := resolve_outcome hs hl hscope name
  rw [hu] at ho
  obtain ⟨hfades, hcon⟩ := hside.fades (ho.changes.consistent hs)
  have hside : Keeps name u (s.perform (.resolve l name scope)).2 t := .of_fades hfades halive
  have hkeeps : Keeps name u s t := (Keeps.of_outcome hs ho name).trans hside
  have hgives : (s.resolving l name scope).Gives u fun c => t.resident? c name = some u :=
    (ho.gives hs fun c h d hf => (resolving_fresh hs hf).2).mono fun c => (hside.resident c).kept
  have hfinding : t.finding name (some scope) l.path = .live u :=
    hkeeps.finding hs (some_knowsScope hscope) hgives.of_orElse_failure
  have hmade : t.KnowsScope scope := fun c hc => hkeeps.knows (hscope c hc)
  have hagain : Outcome t (.ofLookup (some u)) (t.perform (.resolve l name scope)).1
      (t.perform (.resolve l name scope)).2 := by
    have hresolving : t.resolving l name scope = .ofLookup (some u) := by
      rw [resolving, hfinding]
      rfl
    rw [← hresolving]
    exact resolve_outcome hcon hlater hmade name
  exact ⟨hagain.of_lookup, resolve_sameStock hcon hlater hmade hfinding⟩

/-- The state after a resolution had a unit built, its location got other bytes of that name, and the loader
defined something else. -/
def resupplied : System :=
  let s := (unlinkable.perform (.resolve .first "a" .empty)).2
  ((s.perform (.publish ⟨0⟩ "lib" ⟨"a", [9], none⟩)).2.perform (.define .first ⟨"b", [2], none⟩)).2

theorem resupplied_aside : Aside "a" (unlinkable.perform (.resolve .first "a" .empty)).2 resupplied := by
  refine .step (.step .start ?_ id id) ?_ ?_ id
  · rfl
  · exact ⟨_, List.mem_cons_self, List.suffix_rfl⟩
  · show ¬ "b" = "a"
    decide

/-- The first unit stays the answer, although the host would now supply another one. -/
theorem resolution_stays_resupplied :
    (unlinkable.perform (.resolve .first "a" .empty)).1 = .unit ⟨1⟩ ∧
      (resupplied.perform (.resolve .first "a" .empty)).1 = .unit ⟨1⟩ ∧
      (resupplied.perform (.resolve .first "a" .empty)).2.units = resupplied.units ∧
      ∀ h, ((resupplied.perform (.resolve .first "a" .empty)).2.host h).installs = (resupplied.host h).installs := by
  have hfirst : (unlinkable.perform (.resolve .first "a" .empty)).1 = .unit ⟨1⟩ := rfl
  have hholds : resupplied.Holds Loader.first.path := ⟨_, List.mem_cons_self, List.suffix_rfl⟩
  refine ⟨hfirst, ?_⟩
  exact resolution_stays reachable_unlinkable.public holds_unlinkable (knowsScope_empty _) hfirst
    resupplied_aside hholds rfl

end System

end UnitLoading
