/-
Findings: what a look-up or a definition is going to give, told from the state before it.

# Findings and outcomes

A `Finding` names the unit, the definition that is going to become a unit, or the failure, and it is a plain
function of the state: `System.defining` for definitions, `System.finding` for resolutions. It reads only the
life of the state, so any amount of upkeep leaves it as it is (`finding_of_sameLife`).

`Outcome s f a t` says that answer `a` and next state `t` are what finding `f` amounts to when it is carried
out in `s`: some upkeep, and then one more handle on a living unit, or one new unit, or nothing.

# Method

Every operation has one lemma `…_outcome`. Search steps compose by `Outcome.orElse`: a step that finds
nothing was upkeep, so the next step has the finding that it had from the start. The resolution along a path
is an induction on the path with these lemmas as its steps.
-/
import UnitLoading.Proofs.Upkeep
import UnitLoading.Proofs.Wiring

namespace UnitLoading

variable {s t r : System} {c : ContextId} {h : HostId} {name : String} {u : UnitId} {d : Definition}
  {path : List Stop}

-- ================================================================ findings

/-- What there is to be found. -/
inductive Finding where
  /-- A living unit. -/
  | live (u : UnitId)
  /-- A definition from which a unit is going to be built in a context and installed in a host. -/
  | fresh (c : ContextId) (h : HostId) (d : Definition)
  | failure (e : Failure)
  | nothing

namespace Finding

def ofLookup : Option UnitId → Finding
  | some u => live u
  | none => nothing

/-- The second finding, if the first is nothing. -/
def orElse : Finding → Finding → Finding
  | nothing, g => g
  | f, _ => f

/-- The finding in which an error counts as nothing. -/
def forgiven : Finding → Finding
  | failure (.error _) => nothing
  | f => f

end Finding

namespace System

/-- The live unit of a name in the first open context that has one along the chain of a scope. -/
def alongChain? (s : System) (scope : ResolutionScope) (name : String) : Option UnitId :=
  (s.chain scope).findSome? fun c => if (s.context c).closed then none else s.resident? c name

/-- What defining a unit in a context with a host is going to give. -/
def defining (s : System) (c : ContextId) (h : HostId) (d : Definition) : Finding :=
  if (s.context c).closed then .failure (.error (.closed c))
  else match s.resident? c d.name with
    | some u => if s.hasBytes u d.bytes then .live u else .failure (.error (.duplicateDefinition d.name c))
    | none => match (s.host h).refusal? s.alive c d with
      | some e => .failure (.error e.toLoadError)
      | none => .fresh c h d

/-- What a loader is going to supply from its search locations. -/
def supply (s : System) (l : LoaderId) (c : ContextId) (h : HostId) (name : String) : Finding :=
  match (s.host h).locate name (s.locationsOf l) with
  | none => .nothing
  | some d => s.defining c h d

/-- What resolving a name at the stops of a path is going to give. -/
def finding (s : System) (name : String) : Option ResolutionScope → List Stop → Finding
  | _, [] => .nothing
  | _, .foreign _ units raises :: via =>
    if name ∈ raises then .failure .raised
    else (Finding.ofLookup (units.get? name)).orElse (s.finding name (some .empty) via).forgiven
  | scope, .dynamic l c h :: rest =>
    (Finding.ofLookup (s.resident? c name)).orElse <|
    (Finding.ofLookup (s.loaded? h c name)).orElse <|
    (Finding.ofLookup (scope.bind fun scope => s.alongChain? scope name)).orElse <|
    (s.finding name none rest).orElse <|
    s.supply l c h name

-- ================================================================ findings in the same life

theorem hasBytes_of_sameLife (hl : s.SameLife t) (hu : s.Built u) (bytes : List UInt8) :
    t.hasBytes u bytes = s.hasBytes u bytes := by
  obtain ⟨x, hx⟩ := Option.isSome_iff_exists.1 hu
  rw [hasBytes, hasBytes, hl.unit hx, hx]

theorem refusal?_of_sameLife (hl : s.SameLife t) (c : ContextId) (h : HostId) (d : Definition) :
    (t.host h).refusal? t.alive c d = (s.host h).refusal? s.alive c d := by
  have hlive : (t.host h).live? t.alive c d.name = (s.host h).live? s.alive c d.name := hl.loaded h c d.name
  rw [Host.refusal?, Host.refusal?, hl.refusals, hlive]

theorem alongChain?_of_sameLife (hl : s.SameLife t) (scope : ResolutionScope) (name : String) :
    t.alongChain? scope name = s.alongChain? scope name := by
  have hanc : (fun c => (t.context c).ancestors) = fun c => (s.context c).ancestors := funext hl.ancestors
  have hstep : (fun c => if (t.context c).closed then none else t.resident? c name)
      = fun c => if (s.context c).closed then none else s.resident? c name := by
    funext c
    rw [hl.closed, hl.resident]
  rw [alongChain?, alongChain?, chain, chain, hanc, hstep]

/-- The same where a scope need not be given. -/
theorem inScope_of_sameLife (hl : s.SameLife t) (scope : Option ResolutionScope) (name : String) :
    (scope.bind fun x => t.alongChain? x name) = scope.bind fun x => s.alongChain? x name := by
  cases scope with
  | none => rfl
  | some x => exact alongChain?_of_sameLife hl x name

theorem defining_of_sameLife (hs : s.Consistent) (hl : s.SameLife t) (c : ContextId) (h : HostId)
    (d : Definition) : t.defining c h d = s.defining c h d := by
  rw [defining, defining, hl.closed, hl.resident, refusal?_of_sameLife hl]
  cases hu : s.resident? c d.name with
  | none => rfl
  | some u =>
    dsimp only
    rw [hasBytes_of_sameLife hl (hs.alive (alive_of_resident? hu))]

theorem supply_of_sameLife (hs : s.Consistent) (hl : s.SameLife t) (l : LoaderId) (c : ContextId)
    (h : HostId) (name : String) : t.supply l c h name = s.supply l c h name := by
  have hlocate : (t.host h).locate name (t.locationsOf l) = (s.host h).locate name (s.locationsOf l) := by
    rw [Host.locate, Host.locate, hl.published, locationsOf, locationsOf, hl.locations]
  rw [supply, supply, hlocate]
  cases (s.host h).locate name (s.locationsOf l) with
  | none => rfl
  | some d => exact defining_of_sameLife hs hl c h d

theorem finding_of_sameLife (hs : s.Consistent) (hl : s.SameLife t) (name : String)
    (scope : Option ResolutionScope) (path : List Stop) :
    t.finding name scope path = s.finding name scope path := by
  induction path generalizing scope with
  | nil => rfl
  | cons stop rest ih =>
    cases stop with
    | dynamic l c h =>
      simp only [finding, hl.resident, hl.loaded, inScope_of_sameLife hl, ih, supply_of_sameLife hs hl]
    | foreign id units raises => simp only [finding, ih]

-- ================================================================ outcomes

/-- A context, a host and a definition from which a new unit can be installed. -/
structure Admits (s : System) (c : ContextId) (h : HostId) (d : Definition) : Prop where
  knows : s.Knows c
  hasHost : s.HasHost h
  isOpen : (s.context c).closed = false
  absent : s.resident? c d.name = none
  agreed : (s.host h).refusal? s.alive c d = none

theorem Admits.of_sameLife (ha : s.Admits c h d) (hl : s.SameLife t) : t.Admits c h d where
  knows := (hl.knows c).2 ha.knows
  hasHost := (hl.hasHost h).2 ha.hasHost
  isOpen := (hl.closed c).trans ha.isOpen
  absent := (hl.resident c d.name).trans ha.absent
  agreed := (refusal?_of_sameLife hl c h d).trans ha.agreed

/-- The state after a new unit was installed and came to reside in its context. -/
def installed (s : System) (c : ContextId) (h : HostId) (d : Definition) : System :=
  ((s.withNew (some c) d).setHost h ((s.host h).withLoaded c d.name s.nextUnit)).record c d.name s.nextUnit

/-- The answer and the next state in which a finding results. -/
inductive Outcome (s : System) : Finding → Answer → System → Prop
  | live {u : UnitId} {t : System} (ht : Upkeeps s t) (hu : t.alive u = true) :
      Outcome s (.live u) (.unit u) (t.retain u)
  | fresh {c : ContextId} {h : HostId} {d : Definition} {t : System} (ht : Upkeeps s t)
      (ha : t.Admits c h d) : Outcome s (.fresh c h d) (.unit t.nextUnit) (t.installed c h d)
  | failure {e : Failure} {t : System} (ht : Upkeeps s t) : Outcome s (.failure e) (.failed e) t
  | nothing {t : System} (ht : Upkeeps s t) : Outcome s .nothing .absent t

namespace Outcome

variable {f g : Finding} {a : Answer}

/-- Upkeep before an outcome belongs to the outcome. -/
theorem of_upkeeps (ht : Upkeeps s t) (ho : Outcome t f a r) : Outcome s f a r := by
  cases ho with
  | live hr hu => exact .live (ht.trans hr) hu
  | fresh hr ha => exact .fresh (ht.trans hr) ha
  | failure hr => exact .failure (ht.trans hr)
  | nothing hr => exact .nothing (ht.trans hr)

/-- Where a living unit was to be found, or nothing, that is the answer. -/
theorem of_lookup {found : Option UnitId} (ho : Outcome s (.ofLookup found) a t) : a = .ofLookup found := by
  cases found with
  | none =>
    cases ho
    rfl
  | some u =>
    cases ho
    rfl

theorem of_failure {e : Failure} (ho : Outcome s (.failure e) a t) : a = .failed e := by
  cases ho
  rfl

/-- What is to be defined is the next unit of the state it is installed in. -/
theorem of_fresh {c : ContextId} {h : HostId} {d : Definition} (ho : Outcome s (.fresh c h d) a t) :
    ∃ r : System, a = .unit r.nextUnit ∧ t = r.installed c h d := by
  cases ho
  exact ⟨_, rfl, rfl⟩

/-- A search that finds nothing leaves it to the next one. -/
theorem orElse {a b : Search} (ha : Outcome s f (.ofSearch (a s).1) (a s).2)
    (hb : ∀ t, Upkeeps s t → Outcome t g (.ofSearch (b t).1) (b t).2) :
    Outcome s (f.orElse g) (.ofSearch (a.orElse b s).1) (a.orElse b s).2 := by
  unfold Search.orElse
  obtain ⟨result, t, hr⟩ : ∃ result t, a s = (result, t) := ⟨_, _, rfl⟩
  rw [hr] at ha ⊢
  cases result with
  | error e =>
    cases ha with
    | failure ht => exact .failure ht
  | ok found =>
    cases found with
    | none =>
      cases ha with
      | nothing ht => exact of_upkeeps ht (hb t ht)
    | some u =>
      cases ha with
      | live ht hu => exact .live ht hu
      | fresh ht hadm => exact .fresh ht hadm

/-- Errors that are forgiven count as nothing. -/
theorem forgiving {a : Search} (ha : Outcome s f (.ofSearch (a s).1) (a s).2) :
    Outcome s f.forgiven (.ofSearch (a.forgiving s).1) (a.forgiving s).2 := by
  unfold Search.forgiving
  obtain ⟨result, t, hr⟩ : ∃ result t, a s = (result, t) := ⟨_, _, rfl⟩
  rw [hr] at ha ⊢
  cases result with
  | error e =>
    cases ha with
    | failure ht =>
      cases e with
      | error e => exact .nothing ht
      | raised => exact .failure ht
  | ok found =>
    cases found with
    | none =>
      cases ha with
      | nothing ht => exact .nothing ht
    | some u =>
      cases ha with
      | live ht hu => exact .live ht hu
      | fresh ht hadm => exact .fresh ht hadm

end Outcome

-- ================================================================ look-ups

/-- The cache of a context gives its live unit, or takes out a stale entry. -/
theorem cached_outcome (hc : s.Knows c) (name : String) :
    Outcome s (.ofLookup (s.resident? c name)) (.ofLookup (s.cached c name).1) (s.cached c name).2 := by
  cases hu : (s.context c).cache.entries.get? name with
  | none =>
    have hr : s.resident? c name = none := by
      rw [resident?, UnitCache.live?, hu]
      rfl
    have hcached : s.cached c name = (none, s) := by
      simp only [cached, onCache, UnitCache.get, hu, handOut, setContext_context hc]
    rw [hr, hcached]
    exact .nothing .refl
  | some u =>
    cases ha : s.alive u with
    | true =>
      have hr : s.resident? c name = some u := UnitCache.live?_eq_some_iff.2 ⟨hu, ha⟩
      have hcached : s.cached c name = (some u, s.retain u) := by
        simp only [cached, onCache, UnitCache.get, hu, ha, ↓reduceIte, handOut, setContext_context hc]
      rw [hr, hcached]
      exact .live .refl ha
    | false =>
      have hr : s.resident? c name = none := by
        rw [resident?, UnitCache.live?, hu, Option.filter_some, if_neg (by simp [ha])]
      have hcached : s.cached c name = (none, s.evict c name) := by
        simp only [cached, onCache, UnitCache.get, hu, ha, Bool.false_eq_true, ↓reduceIte, handOut, evict]
      rw [hr, hcached]
      exact .nothing (.single (.evict hc hu ha))

theorem findResident_outcome (hs : s.Consistent) (hc : s.Knows c) (name : String) :
    Outcome s (.ofLookup (s.resident? c name)) (.ofLookup (s.findResident c name).1)
      (s.findResident c name).2 := by
  unfold findResident
  split
  · exact cached_outcome hc name
  · have ht : Upkeeps s (s.sweep c).2 := .single (.sweep hc)
    have hl := ht.sameLife hs
    have ho := cached_outcome ((hl.knows c).2 hc) name
    rw [hl.resident] at ho
    exact ho.of_upkeeps ht

theorem fst_handOut (r : Option UnitId × System) : (handOut r).1 = r.1 := by
  obtain ⟨found, s⟩ := r
  cases found <;> rfl

/-- The state in which a host was asked for a name and has forgotten a dead unit of it. -/
def asked (s : System) (h : HostId) (c : ContextId) (name : String) : System :=
  s.setHost h ((s.host h).find s.alive c name).2

theorem findLoaded_eq (s : System) (h : HostId) (c : ContextId) (name : String) :
    s.findLoaded h c name = handOut (s.loaded? h c name, s.asked h c name) := by
  rw [loaded?, ← Host.fst_find]
  rfl

/-- A host gives its live unit, or forgets a dead one. -/
theorem findLoaded_outcome (hh : s.HasHost h) (c : ContextId) (name : String) :
    Outcome s (.ofLookup (s.loaded? h c name)) (.ofLookup (s.findLoaded h c name).1)
      (s.findLoaded h c name).2 := by
  cases hu : (s.host h).loaded.get? (c, name) with
  | none =>
    have hr : s.loaded? h c name = none := by
      rw [loaded?, Host.live?, hu]
      rfl
    have hfound : s.findLoaded h c name = (none, s) := by
      simp only [findLoaded, Host.find, hu, handOut, setHost_host hh]
    rw [hr, hfound]
    exact .nothing .refl
  | some u =>
    cases ha : s.alive u with
    | true =>
      have hr : s.loaded? h c name = some u := Host.live?_eq_some_iff.2 ⟨hu, ha⟩
      have hfound : s.findLoaded h c name = (some u, s.retain u) := by
        simp only [findLoaded, Host.find, hu, ha, ↓reduceIte, handOut, setHost_host hh]
      rw [hr, hfound]
      exact .live .refl ha
    | false =>
      have hr : s.loaded? h c name = none := by
        rw [loaded?, Host.live?, hu, Option.filter_some, if_neg (by simp [ha])]
      have hfound : s.findLoaded h c name = (none, s.forget h c name) := by
        simp only [findLoaded, Host.find, hu, ha, Bool.false_eq_true, ↓reduceIte, handOut, forget]
      rw [hr, hfound]
      exact .nothing (.single (.forget hh hu ha))

/-- Along a list of contexts, the first open one with a live unit decides. -/
theorem firstCached_outcome (hs : s.Consistent) (name : String) (cs : List ContextId)
    (hcs : ∀ c ∈ cs, s.Knows c) :
    Outcome s (.ofLookup (cs.findSome? fun c => if (s.context c).closed then none else s.resident? c name))
      (.ofLookup (firstCached name cs s).1) (firstCached name cs s).2 := by
  induction cs generalizing s with
  | nil => exact .nothing .refl
  | cons c cs ih =>
    rw [List.findSome?_cons]
    unfold firstCached
    by_cases hclosed : (s.context c).closed = true
    · rw [if_pos hclosed, if_pos hclosed]
      exact ih hs fun a ha => hcs a (List.mem_cons_of_mem _ ha)
    · rw [if_neg hclosed, if_neg hclosed]
      have hone := cached_outcome (hcs c List.mem_cons_self) name
      obtain ⟨found, t, ht⟩ : ∃ found t, s.cached c name = (found, t) := ⟨_, _, rfl⟩
      rw [ht] at hone ⊢
      cases hr : s.resident? c name with
      | none =>
        rw [hr] at hone
        cases found with
        | some u => cases hone
        | none =>
          cases hone with
          | nothing hup =>
            have hl := hup.sameLife hs
            have hrest := ih (hup.consistent hs) fun a ha =>
              (hl.knows a).2 (hcs a (List.mem_cons_of_mem _ ha))
            simp only [hl.closed, hl.resident] at hrest
            exact hrest.of_upkeeps hup
      | some u =>
        rw [hr] at hone
        cases found with
        | none => cases hone
        | some v => exact hone

/-- Every context that a scope searches was made. -/
theorem knows_of_mem_chain {scope : ResolutionScope} (hs : s.Consistent) (hscope : s.KnowsScope scope)
    (hc : c ∈ s.chain scope) : s.Knows c := by
  rw [chain, ResolutionScope.mem_chain, ResolutionScope.walk, List.mem_append, List.mem_flatMap] at hc
  rcases hc with ⟨a, ha, hc⟩ | hc
  · rcases List.mem_cons.1 hc with rfl | hc
    · exact hscope c ha
    · exact hs.ancestor hc
  · rw [List.mem_singleton.1 hc]
    exact hs.root

/-- What the chain of a scope gives is what an open context of it has. -/
theorem exists_of_alongChain? {scope : ResolutionScope} (hu : s.alongChain? scope name = some u) :
    ∃ a ∈ s.chain scope, (s.context a).closed = false ∧ s.resident? a name = some u := by
  obtain ⟨a, ha, hfound⟩ := List.exists_of_findSome?_eq_some hu
  refine ⟨a, ha, ?_⟩
  split at hfound
  · cases hfound
  · next hopen => exact ⟨by simpa using hopen, hfound⟩

theorem resolveViaChain_outcome {scope : ResolutionScope} (hs : s.Consistent) (hscope : s.KnowsScope scope)
    (name : String) :
    Outcome s (.ofLookup (s.alongChain? scope name)) (.ofLookup (s.resolveViaChain scope name).1)
      (s.resolveViaChain scope name).2 :=
  firstCached_outcome hs name (s.chain scope) fun _ hc => knows_of_mem_chain hs hscope hc

/-- What the chain of a scope is answered with is the live unit of an open context on it. -/
theorem resident_of_chain_answer {scope : ResolutionScope} (hs : s.Consistent) (hscope : s.KnowsScope scope)
    (hu : (s.perform (.resolveViaChain scope name)).1 = .unit u) :
    ∃ a ∈ s.chain scope, (s.context a).closed = false ∧ s.resident? a name = some u := by
  have hanswer := (resolveViaChain_outcome hs hscope name).of_lookup
  rw [show Answer.ofLookup (s.resolveViaChain scope name).1 = .unit u from hu] at hanswer
  exact exists_of_alongChain? (Answer.ofLookup_eq_unit.1 hanswer.symm)

end System

end UnitLoading
