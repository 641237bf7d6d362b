/-
Refusals: every unit that is defined in a context was taken by a host or refused by one.

# Who refuses what

A loader that defines a unit gives it to its host: the definition that it was asked to make, or the one that
the host finds at its search locations on the way of a resolution (`Command.Offers`). A unit is refused in a
command if it is new, was built from such a definition, and the host that it was given to answers the
installation with an error (`Refuses`). `refusedIn` looks back on all commands of a program.

# Why there is no third

What a search does on the way is not told by what it finds in the end: an error may be forgiven behind a
foreign loader and the search go on. So `Combs` follows a search step by step. Its one invariant is that every
new unit is the one that is given or was declined by a host on the path, for a definition and for reasons that
were there from the start. From it a new unit that no host has afterwards was refused (`refuses_of_no_slot`).
A new unit that lives or has an entry was never refused, for a search leaves both only to a unit that its host
has (`Outcome.slot_of_new`).
-/
import UnitLoading.Proofs.Counters
import UnitLoading.Proofs.Deaths

namespace UnitLoading

variable {s t r : System} {c a : ContextId} {h k : HostId} {name x : String} {u v : UnitId} {d : Definition}
  {f : Finding} {answer : Answer} {cmd : Command} {cmds : List Command} {path rest : List Stop} {l : Loader}
  {scope : ResolutionScope}

/-- Whether a command may give a host a unit of this context with this definition: that of the loader which is
used, or, in a resolution, any on its path that finds the definition at its search locations. -/
def Command.Offers (s : System) (c : ContextId) (h : HostId) (d : Definition) : Command → Prop
  | define l e => l.context = c ∧ l.host = h ∧ e = d
  | resolve l name _ | load l name _ _ =>
    ∃ id, .dynamic id c h ∈ l.path ∧ (s.host h).locate name (s.locationsOf id) = some d
  | _ => False

namespace System

/-- Whether a command has a host refuse a unit: the unit is new, it was built from a definition that a loader
gave to its host, that host answers its installation with an error, and no host has it afterwards. -/
def Refuses (s : System) (cmd : Command) (u : UnitId) : Prop :=
  ¬ s.Built u ∧ ∃ c h d e, cmd.Offers s c h d ∧
    (s.perform cmd).2.units.get? u = some (.ofDefinition u (some c) d) ∧
    (s.host h).install s.alive c (.ofDefinition u (some c) d) = .error e ∧
    ∀ k a x, (s.perform cmd).2.slot? k a x ≠ some u

/-- The units that a host has refused in the course of these commands. -/
def refusedIn (cmds : List Command) : Set UnitId := {u | initial.Sometime (fun s cmd => s.Refuses cmd u) cmds}

/-- Whether a unit was declined by a host at one of these stops, for which it was built. -/
def Declined (s : System) (name : String) (path : List Stop) (t : System) (u : UnitId) : Prop :=
  ∃ id c h d e, .dynamic id c h ∈ path ∧ (s.host h).locate name (s.locationsOf id) = some d ∧
    (s.host h).refusal? s.alive c d = some e ∧ t.units.get? u = some (.ofDefinition u (some c) d)

-- ================================================================ records

theorem Outcome.unit {unit : CompiledUnit} (ho : Outcome s f answer t) (hs : s.Consistent)
    (hu : s.units.get? u = some unit) : t.units.get? u = some unit := by
  cases ho with
  | live ht _ => exact (ht.sameLife hs).unit hu
  | @fresh c h d r ht ha =>
    have hold : r.units.get? u = some unit := (ht.sameLife hs).unit hu
    have hbuilt : r.Built u := by
      rw [Built, hold]
      rfl
    show (r.withNew (some c) d).units.get? u = some unit
    rw [get?_withNew, if_neg (ne_nextUnit (ht.consistent hs).toNumbered hbuilt), hold]
  | failure ht => exact (ht.sameLife hs).unit hu
  | nothing ht => exact (ht.sameLife hs).unit hu

theorem units_handOut (r : Option UnitId × System) : (handOut r).2.units = r.2.units := by
  obtain ⟨found, s⟩ := r
  cases found <;> rfl

theorem units_cached (s : System) (c : ContextId) (name : String) : (s.cached c name).2.units = s.units :=
  units_handOut _

theorem units_findResident (s : System) (c : ContextId) (name : String) :
    (s.findResident c name).2.units = s.units := by
  unfold findResident
  split
  · exact units_cached ..
  · exact units_cached ..

theorem units_findLoaded (s : System) (h : HostId) (c : ContextId) (name : String) :
    (s.findLoaded h c name).2.units = s.units := by
  rw [findLoaded_eq, units_handOut]
  rfl

theorem units_firstCached (name : String) (cs : List ContextId) (s : System) :
    (firstCached name cs s).2.units = s.units := by
  induction cs generalizing s with
  | nil => rfl
  | cons c cs ih =>
    unfold firstCached
    split
    · exact ih s
    · obtain ⟨found, t, ht⟩ : ∃ found t, s.cached c name = (found, t) := ⟨_, _, rfl⟩
      have hunits := units_cached s c name
      rw [ht] at hunits ⊢
      cases found with
      | none => exact (ih t).trans hunits
      | some u => exact hunits

theorem units_configuredLoader (s : System) (config : LoaderConfig) (parent : Option Parent) (h : HostId) :
    (s.configuredLoader config parent h).2.units = s.units := by
  unfold System.configuredLoader
  split
  · rfl
  · split <;> rfl
  · rfl

theorem units_scopeStep (scope : Option ResolutionScope) (name : String) (s : System) :
    (scopeStep scope name s).2.units = s.units := by
  cases scope with
  | none => rfl
  | some scope => exact units_firstCached ..

-- ================================================================ searches

/-- What a search that comes by some stops results in: it is some outcome, and every unit that was built on
the way is given or was declined by a host there. -/
structure Combs (s : System) (name : String) (path : List Stop) (found : Except Failure (Option UnitId) × System) :
    Prop where
  outcome : ∃ f, Outcome s f (.ofSearch found.1) found.2
  built {u : UnitId} : found.2.Built u →
    s.Built u ∨ found.1 = .ok (some u) ∨ s.Declined name path found.2 u

theorem Declined.mono (hu : s.Declined name rest t u) (hrest : ∀ f ∈ rest, f ∈ path) :
    s.Declined name path t u := by
  obtain ⟨id, c, h, d, e, hstop, hdeclined⟩ := hu
  exact ⟨id, c, h, d, e, hrest _ hstop, hdeclined⟩

/-- Who declines a unit would have done so in any state with the same life. -/
theorem Declined.of_sameLife (hl : s.SameLife r) (hu : r.Declined name path t u) : s.Declined name path t u := by
  obtain ⟨id, c, h, d, e, hstop, hlocate, hrefusal, hunit⟩ := hu
  refine ⟨id, c, h, d, e, hstop, ?_, (refusal?_of_sameLife hl c h d).symm.trans hrefusal, hunit⟩
  rwa [Host.locate, hl.published, locationsOf, hl.locations] at hlocate

namespace Combs

theorem of_units {found : Except Failure (Option UnitId) × System}
    (ho : ∃ f, Outcome s f (.ofSearch found.1) found.2) (hunits : found.2.units = s.units) :
    s.Combs name path found := by
  refine ⟨ho, fun {u} hu => .inl ?_⟩
  rwa [Built, hunits] at hu

theorem mono {found : Except Failure (Option UnitId) × System} (hf : s.Combs name rest found)
    (hrest : ∀ f ∈ rest, f ∈ path) : s.Combs name path found :=
  ⟨hf.outcome, fun hu => (hf.built hu).imp_right fun hu => hu.imp_right fun hu => hu.mono hrest⟩

/-- A search that finds nothing leaves it to the next one. -/
theorem orElse {a b : Search} (hs : s.Consistent) (ha : s.Combs name path (a s))
    (hb : ∀ t, Upkeeps s t → t.Combs name path (b t)) : s.Combs name path (a.orElse b s) := by
  unfold Search.orElse
  obtain ⟨result, t, hr⟩ : ∃ result t, a s = (result, t) := ⟨_, _, rfl⟩
  rw [hr] at ha ⊢
  cases result with
  | error e => exact ha
  | ok found =>
    cases found with
    | some u => exact ha
    | none =>
      obtain ⟨f, ho⟩ := ha.outcome
      cases ho with
      | nothing ht =>
        have hnext := hb t ht
        obtain ⟨g, hg⟩ := hnext.outcome
        refine ⟨⟨g, hg.of_upkeeps ht⟩, fun {u} hu => ?_⟩
        rcases hnext.built hu with hu | hu | hu
        · rcases ha.built hu with hu | hu | hu
          · exact .inl hu
          · cases hu
          -- the record of a unit that was declined before stands
          · obtain ⟨id, c, h, d, e, hstop, hlocate, hrefusal, hunit⟩ := hu
            exact .inr (.inr ⟨id, c, h, d, e, hstop, hlocate, hrefusal, hg.unit (ht.consistent hs) hunit⟩)
        · exact .inr (.inl hu)
        · exact .inr (.inr (hu.of_sameLife (ht.sameLife hs)))

/-- Errors that are forgiven leave what was declined declined. -/
theorem forgiving {a : Search} (ha : s.Combs name path (a s)) : s.Combs name path (a.forgiving s) := by
  have ho : ∃ f, Outcome s f (.ofSearch (a.forgiving s).1) (a.forgiving s).2 := by
    obtain ⟨f, ho⟩ := ha.outcome
    exact ⟨_, ho.forgiving⟩
  refine ⟨ho, fun {u} hu => ?_⟩
  unfold Search.forgiving at hu ⊢
  obtain ⟨result, t, hr⟩ : ∃ result t, a s = (result, t) := ⟨_, _, rfl⟩
  rw [hr] at ha hu ⊢
  cases result with
  | ok found => exact ha.built hu
  | error e =>
    have hnone := ha.built (u := u)
    cases e with
    | error e => exact (hnone hu).imp_right fun hu => hu.imp_left fun he => nomatch he
    | raised => exact hnone hu

end Combs

/-- A definition builds a unit that it gives, or one that the host declines. -/
theorem defineIn_built (hs : s.Consistent) (hc : s.Knows c) (h : HostId) (d : Definition)
    (hu : (s.defineIn c h d).2.Built u) : s.Built u ∨ (s.defineIn c h d).1 = .ok u ∨
      ∃ e, (s.host h).refusal? s.alive c d = some e ∧
        (s.defineIn c h d).2.units.get? u = some (.ofDefinition u (some c) d) := by
  rw [defineIn_eq hs hc] at hu ⊢
  by_cases hclosed : (s.context c).closed = true
  · rw [if_pos hclosed] at hu
    exact .inl hu
  · rw [if_neg hclosed] at hu ⊢
    cases hr : s.resident? c d.name with
    | some v =>
      rw [hr] at hu
      left
      dsimp only at hu
      split at hu <;> exact hu
    | none =>
      have hnew : ((s.sweep c).2.withNew (some c) d).Built u → ¬ s.Built u → u = s.nextUnit := fun hb hn =>
        (built_withNew.1 hb).resolve_right hn
      rw [hr] at hu
      by_cases hold : s.Built u
      · exact .inl hold
      cases he : (s.host h).refusal? s.alive c d with
      | none =>
        rw [he] at hu
        obtain rfl := hnew hu hold
        exact .inr (.inl rfl)
      | some e =>
        have hrecord : ((s.sweep c).2.refused c d).units = ((s.sweep c).2.withNew (some c) d).units := by
          rw [refused, release_eq]
        rw [he] at hu
        dsimp only at hu ⊢
        rw [Built, hrecord] at hu
        obtain rfl := hnew hu hold
        refine .inr (.inr ⟨e, rfl, ?_⟩)
        rw [hrecord, get?_withNew]
        exact if_pos rfl

theorem supplyStep_combs (hs : s.Consistent) (hc : s.Knows c) (hh : s.HasHost h) (id : LoaderId) (name : String)
    (hstop : .dynamic id c h ∈ path) : s.Combs name path (supplyStep id c h name s) := by
  refine ⟨⟨_, supplyStep_outcome hs hc hh id name⟩, fun {u} hu => ?_⟩
  unfold supplyStep at hu ⊢
  cases hd : (s.host h).locate name (s.locationsOf id) with
  | none =>
    rw [hd] at hu
    exact .inl hu
  | some d =>
    have hbuilt := defineIn_built hs hc h d (u := u)
    rw [hd] at hu
    dsimp only at hu ⊢
    obtain ⟨result, t, hr⟩ : ∃ result t, s.defineIn c h d = (result, t) := ⟨_, _, rfl⟩
    rw [hr] at hu hbuilt ⊢
    have hstate : t.Built u := by cases result <;> exact hu
    rcases hbuilt hstate with hold | hgiven | ⟨e, he, hunit⟩
    · exact .inl hold
    · cases hgiven
      exact .inr (.inl rfl)
    · refine .inr (.inr ⟨id, c, h, d, e, hstop, hd, he, ?_⟩)
      cases result <;> exact hunit

/-- However long a path is, what a resolution builds along it is given or was declined. -/
theorem resolveAlong_combs (hs : s.Consistent) (hp : s.Usable path) (name : String)
    (scope : Option ResolutionScope) (hscope : ∀ x ∈ scope, s.KnowsScope x) :
    s.Combs name path (resolveAlong name scope path s) := by
  induction path generalizing s scope with
  | nil => exact .of_units ⟨_, .nothing .refl⟩ rfl
  | cons stop rest ih =>
    obtain ⟨hknown, howned⟩ := hp stop List.mem_cons_self
    have hrest : s.Usable rest := fun f hf => hp f (List.mem_cons_of_mem _ hf)
    have hkeep : ∀ {t}, Upkeeps s t → t.Consistent ∧ s.SameLife t := fun ht =>
      ⟨ht.consistent hs, ht.sameLife hs⟩
    have hbehind : ∀ {t}, Upkeeps s t → ∀ scope : Option ResolutionScope, (∀ x ∈ scope, t.KnowsScope x) →
        t.Combs name (stop :: rest) (resolveAlong name scope rest t) := fun ht scope hscope =>
      (ih (hkeep ht).1 (hrest.of_sameLife (hkeep ht).2) scope hscope).mono
        fun f hf => List.mem_cons_of_mem _ hf
    cases stop with
    | foreign id units raises =>
      rw [resolveAlong_foreign]
      split
      · exact .of_units ⟨_, .failure .refl⟩ rfl
      · refine .orElse hs (.of_units ⟨_, ownedStep_outcome fun u hu => howned u (Table.mem_values_of_get? hu)⟩
          (units_handOut _)) fun t ht => ?_
        exact (hbehind ht _ (some_knowsScope (knowsScope_empty t))).forgiving
    | dynamic id c h =>
      obtain ⟨hc, hh⟩ := hknown
      rw [resolveAlong_dynamic]
      refine .orElse hs (.of_units ⟨_, findResident_outcome hs hc name⟩ (units_findResident ..)) fun t ht => ?_
      obtain ⟨hcon, hl⟩ := hkeep ht
      refine .orElse hcon (.of_units ⟨_, findLoaded_outcome ((hl.hasHost h).2 hh) c name⟩
        (units_findLoaded ..)) fun t₂ ht₂ => ?_
      replace ht := ht.trans ht₂
      obtain ⟨hcon, hl⟩ := hkeep ht
      have hmade : ∀ x ∈ scope, t₂.KnowsScope x := fun x hx a ha => (hl.knows a).2 (hscope x hx a ha)
      refine .orElse hcon (.of_units ⟨_, scopeStep_outcome hcon hmade name⟩ (units_scopeStep ..)) fun t₃ ht₃ => ?_
      replace ht := ht.trans ht₃
      obtain ⟨hcon, hl⟩ := hkeep ht
      refine .orElse hcon (hbehind ht none fun _ hx => absurd hx (by simp)) fun t₄ ht₄ => ?_
      replace ht := ht.trans ht₄
      obtain ⟨hcon, hl⟩ := hkeep ht
      exact supplyStep_combs hcon ((hl.knows c).2 hc) ((hl.hasHost h).2 hh) id name List.mem_cons_self

/-- The caller is given what the search gave. -/
theorem Combs.settle {found : Except Failure (Option UnitId) × System} (hf : s.Combs name path found) (l : Loader)
    (x : String) (hu : (System.settle l x found).2.Built u) :
    s.Built u ∨ (System.settle l x found).1 = .ok u ∨ s.Declined name path (System.settle l x found).2 u := by
  obtain ⟨result, t⟩ := found
  have hbuilt := hf.built (u := u)
  cases result with
  | error e => exact (hbuilt hu).imp_right fun hu => hu.imp_left fun he => nomatch he
  | ok found =>
    cases found with
    | none => exact (hbuilt hu).imp_right fun hu => hu.imp_left fun he => nomatch he
    | some v =>
      refine (hbuilt hu).imp_right fun hu => hu.imp_left fun he => ?_
      obtain rfl : v = u := Option.some.inj (Except.ok.inj he)
      rfl

theorem resolve_built (hs : s.Consistent) (hl : s.Holds l.path) (hscope : s.KnowsScope scope) (name : String)
    (hu : (s.resolve l name scope).2.Built u) : s.Built u ∨ (s.resolve l name scope).1 = .ok u ∨
      s.Declined name l.path (s.resolve l name scope).2 u :=
  (resolveAlong_combs hs (usable_of_holds hs hl) name (some scope) (some_knowsScope hscope)).settle l name hu

theorem sought_built (hs : s.Consistent) (hl : s.Holds l.path) (hscope : s.KnowsScope scope) (name : String)
    (hu : (s.sought l name scope).2.Built u) : s.Built u ∨ (s.sought l name scope).1 = .ok u ∨
      s.Declined name l.path (s.sought l name scope).2 u := by
  have husable := usable_of_holds hs hl
  have hhost : s.HasHost l.host := (husable _ List.mem_cons_self).1.2
  have hsearch : s.Combs name l.path ((loadedStep l.host l.context name).orElse
      (resolveAlong name (some scope) l.path) s) := by
    refine .orElse hs (.of_units ⟨_, findLoaded_outcome hhost l.context name⟩ (units_findLoaded ..)) fun t ht => ?_
    have hlife := ht.sameLife hs
    have hmade : t.KnowsScope scope := fun a ha => (hlife.knows a).2 (hscope a ha)
    exact resolveAlong_combs (ht.consistent hs) (husable.of_sameLife hlife) name (some scope)
      (some_knowsScope hmade)
  exact hsearch.settle l name hu

-- ================================================================ what has a place at a host

theorem Upkeeps.entry (hu : Upkeeps s t) (hs : s.Consistent) (he : t.entryAt? c name = some u) :
    s.entryAt? c name = some u := by
  induction hu with
  | refl => exact he
  | tail hrest hstep ih => exact ih ((hstep.thins (Upkeeps.consistent hrest hs)).entry he)

/-- A new unit that lives or has an entry is one that a host has. -/
theorem Outcome.slot_of_new (ho : Outcome s f answer t) (hs : s.Consistent) (hnew : ¬ s.Built u)
    (hu : t.alive u = true ∨ ∃ c name, t.entryAt? c name = some u) : ∃ k a x, t.slot? k a x = some u := by
  have hold : ∀ {r}, Upkeeps s r → ¬ (r.alive u = true ∨ ∃ c name, r.entryAt? c name = some u) := by
    rintro r hr (hlive | ⟨c, name, he⟩)
    · exact hnew (hs.alive (((hr.sameLife hs).alive u).symm.trans hlive))
    · exact hnew (hs.entry (hr.entry hs he))
  cases ho with
  | @live v r hr hv =>
    rw [alive_retain_of_alive hv] at hu
    exact absurd hu (hold hr)
  | @fresh c h d r hr ha =>
    by_cases hun : u = r.nextUnit
    · subst hun
      exact ⟨h, c, d.name, by rw [slot?_installed, if_pos ⟨rfl, rfl, rfl⟩]⟩
    · refine absurd (hu.imp (fun hlive => ?_) fun he => ?_) (hold hr)
      · have hlive : (r.withNew (some c) d).alive u = true := hlive
        exact (alive_withNew.1 hlive).resolve_left hun
      · obtain ⟨a, x, he⟩ := he
        rw [entryAt?_installed] at he
        split at he
        · exact absurd (Option.some.inj he).symm hun
        · exact ⟨a, x, he⟩
  | failure hr => exact absurd hu (hold hr)
  | nothing hr => exact absurd hu (hold hr)

/-- A new unit that was given is one that a host has. -/
theorem Outcome.slot_of_given (ho : Outcome s f answer t) (hs : s.Consistent) (hnew : ¬ s.Built u)
    (hu : answer = .unit u) : ∃ k a x, t.slot? k a x = some u :=
  ho.slot_of_new hs hnew (.inl (ho.alive hu))

-- ================================================================ loads

/-- A load is a search, after which the unit that was found may be linked or given up. -/
theorem load_state (s : System) (l : Loader) (name : String) (link : Bool) (scope : ResolutionScope) :
    (s.load l name link scope).2 = (s.sought l name scope).2 ∨
      ∃ v, (s.sought l name scope).1 = .ok v ∧
        (s.load l name link scope).2 = ((s.sought l name scope).2.linkFound l.host v link).2 := by
  rw [load_eq]
  obtain ⟨result, t, hr⟩ : ∃ result t, s.sought l name scope = (result, t) := ⟨_, _, rfl⟩
  rw [hr]
  cases result with
  | error e => exact .inl rfl
  | ok v => exact .inr ⟨v, rfl, rfl⟩

theorem sameTables_linkFound (s : System) (h : HostId) (u : UnitId) (wanted : Bool) :
    s.SameTables (s.linkFound h u wanted).2 := by
  rw [linkFound_eq]
  split
  · cases (s.link h u).1 with
    | ok => exact .link s h u
    | error e => exact .release s u
  · exact .refl s

theorem alive_of_alive_linkFound {wanted : Bool} (hv : (s.linkFound h u wanted).2.alive v = true) :
    s.alive v = true := by
  rw [linkFound_eq] at hv
  split at hv
  · cases hlink : (s.link h u).1 with
    | ok =>
      rw [hlink] at hv
      rwa [alive_link] at hv
    | error e =>
      rw [hlink] at hv
      exact alive_of_alive_release hv
  · exact hv

theorem get?_link (hv : v ≠ u) (h : HostId) : (s.link h u).2.units.get? v = s.units.get? v := by
  unfold System.link
  split
  · rfl
  · split
    · exact (Table.get?_insert ..).trans (if_neg hv)
    · rfl

/-- Only the record of the unit that was found may change. -/
theorem get?_linkFound (hv : v ≠ u) (h : HostId) (wanted : Bool) :
    (s.linkFound h u wanted).2.units.get? v = s.units.get? v := by
  rw [linkFound_eq]
  split
  · cases (s.link h u).1 with
    | ok => exact get?_link hv h
    | error e =>
      dsimp only
      rw [release_eq]
  · rfl

theorem definedIn_linkFound {wanted : Bool} :
    (s.linkFound h v wanted).2.DefinedIn u c name ↔ s.DefinedIn u c name := by
  rw [linkFound_eq]
  split
  · cases (s.link h v).1 with
    | ok => exact definedIn_link
    | error e =>
      refine definedIn_congr ?_
      dsimp only
      rw [release_eq]
  · exact .rfl

/-- A new unit that lives or has an entry after a load is one that a host has. -/
theorem load_slot_of_new (hs : s.Consistent) (hl : s.Holds l.path) (hscope : s.KnowsScope scope) {link : Bool}
    (hnew : ¬ s.Built u) (hu : (s.load l name link scope).2.alive u = true ∨
      ∃ c x, (s.load l name link scope).2.entryAt? c x = some u) :
    ∃ k a x, (s.load l name link scope).2.slot? k a x = some u := by
  have hsearch := (sought_outcome hs hl hscope name).slot_of_new hs hnew
  rcases load_state s l name link scope with hsame | ⟨v, -, hfound⟩
  · rw [hsame] at hu ⊢
    exact hsearch hu
  · have htables := sameTables_linkFound (s.sought l name scope).2 l.host v link
    rw [hfound] at hu ⊢
    obtain ⟨k, a, x, hslot⟩ := hsearch (hu.imp alive_of_alive_linkFound fun ⟨c, x, he⟩ => ⟨c, x, by
      rwa [entryAt?, htables.entries] at he⟩)
    exact ⟨k, a, x, by rwa [slot?, htables.loaded]⟩

/-- A unit that was defined in a load was declined if no host has it. -/
theorem load_declined (hs : s.Consistent) (hl : s.Holds l.path) (hscope : s.KnowsScope scope) {link : Bool}
    (hnew : ¬ s.Built u) (hu : (s.load l name link scope).2.DefinedIn u c x)
    (hnone : ∀ k a x, (s.load l name link scope).2.slot? k a x ≠ some u) :
    s.Declined name l.path (s.load l name link scope).2 u := by
  have ho := sought_outcome hs hl hscope name
  have hsearch := sought_built hs hl hscope name (u := u)
  rcases load_state s l name link scope with hsame | ⟨v, hv, hfound⟩
  · rw [hsame] at hu hnone ⊢
    rcases hsearch hu.built with hold | hgiven | hdeclined
    · exact absurd hold hnew
    · obtain ⟨k, a, y, hslot⟩ := ho.slot_of_given hs hnew (Answer.ofResolution_eq_unit.2 hgiven)
      exact absurd hslot (hnone k a y)
    · exact hdeclined
  · have htables := sameTables_linkFound (s.sought l name scope).2 l.host v link
    rw [hfound] at hu hnone ⊢
    have hother : (s.sought l name scope).1 ≠ .ok u := by
      intro hgiven
      obtain ⟨k, a, y, hslot⟩ := ho.slot_of_given hs hnew (Answer.ofResolution_eq_unit.2 hgiven)
      exact hnone k a y (by rwa [slot?, htables.loaded])
    have hne : u ≠ v := by
      rintro rfl
      exact hother hv
    rcases hsearch (definedIn_linkFound.1 hu).built with hold | hgiven | ⟨id, a, k, d, e, hstop, hlocate, he, hunit⟩
    · exact absurd hold hnew
    · exact absurd hgiven hother
    · exact ⟨id, a, k, d, e, hstop, hlocate, he, (get?_linkFound hne l.host link).trans hunit⟩

-- ================================================================ every command

theorem refuses_of_declined {e : HostError} (hs : s.Consistent) (hnew : ¬ s.Built u) (hoffers : cmd.Offers s c h d)
    (he : (s.host h).refusal? s.alive c d = some e)
    (hunit : (s.perform cmd).2.units.get? u = some (.ofDefinition u (some c) d))
    (hnone : ∀ k a x, (s.perform cmd).2.slot? k a x ≠ some u) : s.Refuses cmd u := by
  have hfree : (s.host h).live? s.alive c d.name ≠ some u := fun hu =>
    hnew (hs.loaded (Host.live?_eq_some_iff.1 hu).1)
  have hinstall := Host.install_new hfree
  rw [he] at hinstall
  exact ⟨hnew, c, h, d, e, hoffers, hunit, hinstall, hnone⟩

/-- A definition that the host has something against is refused. -/
theorem refuses_define {e : HostError} (hs : s.Consistent) (hl : s.Holds l.path)
    (hopen : (s.context l.context).closed = false) (absent : s.resident? l.context d.name = none)
    (he : (s.host l.host).refusal? s.alive l.context d = some e) : s.Refuses (.define l d) s.nextUnit := by
  obtain ⟨hc, hh⟩ := Holds.stop hl hs
  have hnew : ¬ s.Built s.nextUnit := not_built_nextUnit hs.toNumbered
  have hstate : (s.perform (.define l d)).2 = (s.sweep l.context).2.refused l.context d := by
    show (s.defineIn l.context l.host d).2 = _
    rw [defineIn_eq hs hc, if_neg (by simp [hopen]), absent, he]
  have hunits : ((s.sweep l.context).2.refused l.context d).units
      = ((s.sweep l.context).2.withNew (some l.context) d).units := by
    rw [refused, release_eq]
  refine refuses_of_declined hs hnew ⟨rfl, rfl, rfl⟩ he ?_ fun k a x hslot => ?_
  · rw [hstate, hunits, get?_withNew]
    exact if_pos rfl
  · have ho := defineIn_outcome hs hc hh d
    rw [defining, if_neg (by simp [hopen]), absent, he] at ho
    rcases ho.intake hs k with ⟨_, _, _, hfresh, -⟩ | hidle
    · cases hfresh
    · exact hnew (hs.loaded (hidle.slot hslot))

/-- A new unit that was defined in a context was refused if no host has it. -/
theorem refuses_of_no_slot (hs : s.Consistent) (hl : cmd.LoaderLevel) (hp : cmd.Possible s) (hnew : ¬ s.Built u)
    (hu : (s.perform cmd).2.DefinedIn u a x) (hnone : ∀ k b y, (s.perform cmd).2.slot? k b y ≠ some u) :
    s.Refuses cmd u := by
  -- the other commands define nothing in a context
  have hold : (s.perform cmd).2.units = s.units → s.Refuses cmd u := fun hunits =>
    absurd ((definedIn_congr hunits).1 hu).built hnew
  cases cmd with
  | define l d =>
    obtain ⟨hc, hh⟩ := Holds.stop hp hs
    rcases defineIn_built hs hc l.host d hu.built with hbuilt | hgiven | ⟨e, he, hunit⟩
    · exact absurd hbuilt hnew
    · have ho := defineIn_outcome hs hc hh d
      obtain ⟨k, b, y, hslot⟩ := ho.slot_of_given hs hnew (congrArg Answer.ofLoad hgiven)
      exact absurd hslot (hnone k b y)
    · exact refuses_of_declined hs hnew ⟨rfl, rfl, rfl⟩ he hunit hnone
  | resolve l name scope =>
    rcases resolve_built hs hp.1 hp.2 name hu.built with hbuilt | hgiven | ⟨id, c, h, d, e, hstop, hd, he, hunit⟩
    · exact absurd hbuilt hnew
    · have ho := resolve_outcome hs hp.1 hp.2 name
      obtain ⟨k, b, y, hslot⟩ := ho.slot_of_given hs hnew (Answer.ofResolution_eq_unit.2 hgiven)
      exact absurd hslot (hnone k b y)
    · exact refuses_of_declined hs hnew ⟨id, hstop, hd⟩ he hunit hnone
  | load l name link scope =>
    obtain ⟨id, c, h, d, e, hstop, hd, he, hunit⟩ := load_declined hs hp.1 hp.2 hnew hu hnone
    exact refuses_of_declined hs hnew ⟨id, hstop, hd⟩ he hunit hnone
  | findResident l y => exact hold (units_findResident ..)
  | resolveViaChain scope y => exact hold (units_firstCached ..)
  | cached c y => exact hold (units_cached ..)
  | findLoaded h c y => exact hold (units_findLoaded ..)
  | newForeign units raises via =>
    refine hold (adopt_induction (P := fun r => r.units = s.units) (fun _ _ hr _ => hr) (fun r v hr => ?_)
      units .empty s rfl hp.1)
    rw [disown_eq]
    exact hr
  | letGo path =>
    refine hold (letGo_induction path (P := fun r => r.units = s.units) (fun r v hr => ?_) rfl)
    rw [disown_eq]
    exact hr
  | release v =>
    refine hold ?_
    show (s.release v).units = _
    rw [release_eq]
  | createLoader parent locations h => cases parent <;> exact hold rfl
  | configuredLoader config parent h => exact hold (units_configuredLoader ..)
  | loaderFromFile file content parent h =>
    refine hold ?_
    simp only [perform, answering, loaderFromFile]
    split
    · rfl
    · exact units_configuredLoader ..
  | registerConstants l g values =>
    refine hold ?_
    simp only [perform, answering, registerConstants]
    split <;> rfl
  | close l =>
    refine hold ?_
    show (s.close l).units = _
    rw [close_eq]
    split <;> rfl
  | buildDetached d =>
    have hnew := (definedIn_withNew (s := s) none d).1 hu
    split at hnew
    · cases hnew.1
    · exact absurd hnew.built ‹_›
  | link h v => exact absurd (definedIn_link.1 hu).built hnew
  | markLinked v => exact absurd (definedIn_markLinked.1 hu).built hnew
  | newContext | newHost | rootLoader | loaderInContext | childLoader | isolatedLoader | publish | addLocation |
    retain | hold | sweep => exact hold rfl
  | insertCached | clearCache | drainQueue | registerPool | clearPools | install | releaseHost =>
    exact absurd trivial hl

/-- A new unit that lives after a search, or that has an entry, is one that a host has. -/
theorem slot_of_searched (hs : s.Consistent) (hp : cmd.Possible s)
    (hsearch : cmd.Searches ∨ ∃ l name link scope, cmd = .load l name link scope) (hnew : ¬ s.Built u)
    (hu : (s.perform cmd).2.alive u = true ∨ ∃ c x, (s.perform cmd).2.entryAt? c x = some u) :
    ∃ k a x, (s.perform cmd).2.slot? k a x = some u := by
  rcases hsearch with hsearch | ⟨l, name, link, scope, rfl⟩
  · obtain ⟨f, ho⟩ := perform_outcome hs hp hsearch
    exact ho.slot_of_new hs hnew hu
  · exact load_slot_of_new hs hp.1 hp.2 hnew hu

/-- A new unit with an entry is one that a host has. -/
theorem slot_of_entry (hs : s.Consistent) (hl : cmd.LoaderLevel) (hp : cmd.Possible s) (hnew : ¬ s.Built u)
    (he : (s.perform cmd).2.entryAt? c x = some u) : ∃ k a y, (s.perform cmd).2.slot? k a y = some u := by
  have hold : s.entryAt? c x ≠ some u := fun hu => hnew (hs.entry hu)
  cases cmd with
  | define | findResident | resolveViaChain | resolve | cached | findLoaded =>
    exact slot_of_searched hs hp (.inl trivial) hnew (.inr ⟨c, x, he⟩)
  | load l name link scope =>
    exact slot_of_searched hs hp (.inr ⟨l, name, link, scope, rfl⟩) hnew (.inr ⟨c, x, he⟩)
  | sweep a => exact absurd (((Upkeep.sweep hp).thins hs).entry he) hold
  | close l =>
    have hthins : (s.perform (.close l)).2.entryAt? c x = some u → s.entryAt? c x = some u := by
      show (s.close l).entryAt? c x = some u → _
      rw [close_eq]
      split
      · exact id
      · exact (Thins.shut s l.context l.host).entry
    exact absurd (hthins he) hold
  | insertCached | clearCache | drainQueue | registerPool | clearPools | install | releaseHost =>
    exact absurd trivial hl
  | _ =>
    rw [entryAt?, (perform_sameTables hs hp trivial).entries] at he
    exact absurd he hold

/-- A unit that was refused is dead. -/
theorem Refuses.dead (hu : s.Refuses cmd u) (hs : s.Consistent) (hp : cmd.Possible s) :
    (s.perform cmd).2.alive u = false := by
  obtain ⟨hnew, c, h, d, e, hoffers, -, -, hnone⟩ := hu
  rw [Bool.eq_false_iff]
  intro hlive
  have hsearch : cmd.Searches ∨ ∃ l name link scope, cmd = .load l name link scope := by
    cases cmd with
    | define | resolve => exact .inl trivial
    | load l name link scope => exact .inr ⟨l, name, link, scope, rfl⟩
    | _ => exact absurd hoffers id
  obtain ⟨k, a, x, hslot⟩ := slot_of_searched hs hp hsearch hnew (.inl hlive)
  exact hnone k a x hslot

/-- A definition that gives a unit has none refused. -/
theorem not_refuses_of_given (hs : s.Consistent) (hl : s.Holds l.path)
    (hgiven : (s.perform (.define l d)).1 = .unit v) : ¬ s.Refuses (.define l d) u := by
  rintro ⟨hnew, c, h, e, error, -, hunit, -, hnone⟩
  obtain ⟨hc, hh⟩ := Holds.stop hl hs
  have hbuilt : (s.perform (.define l d)).2.Built u := by
    rw [Built, hunit]
    rfl
  rcases defineIn_built hs hc l.host d hbuilt with hold | hu | ⟨error, he, -⟩
  · exact hnew hold
  · have ho := defineIn_outcome hs hc hh d
    obtain ⟨k, a, x, hslot⟩ := ho.slot_of_given hs hnew (congrArg Answer.ofLoad hu)
    exact hnone k a x hslot
  -- the host has something against the definition; a unit was given nevertheless, so it resided already
  · change Answer.ofLoad (s.defineIn l.context l.host d).1 = .unit v at hgiven
    change (s.defineIn l.context l.host d).2.Built u at hbuilt
    rw [defineIn_eq hs hc, he] at hgiven hbuilt
    split at hgiven
    · cases hgiven
    · next hopen =>
      rw [if_neg hopen] at hbuilt
      cases hres : s.resident? l.context d.name with
      | none =>
        rw [hres] at hgiven
        cases hgiven
      | some w =>
        rw [hres] at hbuilt
        dsimp only at hbuilt
        split at hbuilt <;> exact hnew hbuilt

/-- A unit that was refused was defined in a context. -/
theorem Refuses.definedIn (hu : s.Refuses cmd u) : ∃ c name, (s.perform cmd).2.DefinedIn u c name := by
  obtain ⟨-, c, h, d, e, -, hunit, -⟩ := hu
  exact ⟨c, d.name, _, hunit, rfl, rfl⟩

-- ================================================================ runs

theorem not_built_initial (u : UnitId) : ¬ initial.Built u := by
  simp [Built, initial]

theorem entryAt?_initial (c : ContextId) (name : String) : initial.entryAt? c name = none :=
  (context_initial c name).2.1

end System

theorem Run.mem_refusedIn_concat {permitted : Command → Prop} (hr : Run permitted .initial cmds s) :
    u ∈ System.refusedIn (cmds ++ [cmd]) ↔ u ∈ System.refusedIn cmds ∨ s.Refuses cmd u := by
  show System.initial.Sometime _ (cmds ++ [cmd]) ↔ _
  rw [System.sometime_concat, hr.after_eq]
  rfl

/-- What was refused was defined in a context and is dead. -/
theorem Run.dead_of_refused (hr : Run Command.LoaderLevel .initial cmds s) (hu : u ∈ System.refusedIn cmds) :
    (∃ c name, s.DefinedIn u c name) ∧ s.alive u = false := by
  induction hr with
  | start => exact absurd hu id
  | @step cmds s cmd hrest hl hp ih =>
    have hs := hrest.consistent .initial
    rcases hrest.mem_refusedIn_concat.1 hu with hold | hnow
    · obtain ⟨⟨c, name, hd⟩, hdead⟩ := ih hold
      have hloses := System.perform_loses hs hl hp
      exact ⟨⟨c, name, (hloses.defined hd.built c name).2 hd⟩,
        ((hloses.dead_iff u).2 (.inl ⟨hd.built, hdead⟩)).2⟩
    · exact ⟨hnow.definedIn, hnow.dead hs hp⟩

/-- No host has ever taken what was refused. -/
theorem Run.not_taken_of_refused (hr : Run Command.LoaderLevel .initial cmds s) (hu : u ∈ System.refusedIn cmds)
    (h : HostId) : u ∉ System.takenBy cmds h := by
  induction hr with
  | start => exact absurd hu id
  | @step cmds s cmd hrest hl hp ih =>
    rw [hrest.mem_takenBy_concat, not_or]
    rcases hrest.mem_refusedIn_concat.1 hu with hold | ⟨hnew, -, -, -, -, -, -, -, hnone⟩
    · obtain ⟨⟨c, name, hd⟩, -⟩ := hrest.dead_of_refused hold
      exact ⟨ih hold, fun htakes => htakes.1 hd.built⟩
    · refine ⟨fun hold => hnew (hrest.built_of_taken hold), ?_⟩
      rintro ⟨-, c, name, -, -, hslot⟩
      exact hnone h c name hslot

/-- A new unit that a host has was taken. -/
theorem Run.taken_of_slot (hr : Run Command.LoaderLevel .initial cmds s) (hl : cmd.LoaderLevel)
    (hp : cmd.Possible s) (hnew : ¬ s.Built u) (hslot : (s.perform cmd).2.slot? h c name = some u) :
    ∃ k, u ∈ System.takenBy (cmds ++ [cmd]) k :=
  ⟨h, hr.mem_takenBy_concat.2 (.inr (System.takes_of_slot ⟨cmds, hr⟩ hl hp hnew hslot))⟩

/-- Whatever was defined in a context was taken or refused. -/
theorem Run.taken_or_refused (hr : Run Command.LoaderLevel .initial cmds s) (hu : s.DefinedIn u c name) :
    (∃ h, u ∈ System.takenBy cmds h) ∨ u ∈ System.refusedIn cmds := by
  induction hr with
  | start => exact absurd hu.built (System.not_built_initial u)
  | @step cmds s cmd hrest hl hp ih =>
    have hs := hrest.consistent .initial
    by_cases hold : s.Built u
    · refine (ih (((System.perform_loses hs hl hp).defined hold c name).1 hu)).imp ?_ fun hrefused => ?_
      · rintro ⟨h, htaken⟩
        exact ⟨h, hrest.mem_takenBy_concat.2 (.inl htaken)⟩
      · exact hrest.mem_refusedIn_concat.2 (.inl hrefused)
    · by_cases hslot : ∃ k a x, (s.perform cmd).2.slot? k a x = some u
      · obtain ⟨k, a, x, hslot⟩ := hslot
        exact .inl (hrest.taken_of_slot hl hp hold hslot)
      · simp only [not_exists] at hslot
        exact .inr (hrest.mem_refusedIn_concat.2 (.inr (System.refuses_of_no_slot hs hl hp hold hu hslot)))

/-- Whatever has an entry was taken. -/
theorem Run.taken_of_entry (hr : Run Command.LoaderLevel .initial cmds s) (hu : s.entryAt? c name = some u) :
    ∃ h, u ∈ System.takenBy cmds h := by
  induction hr with
  | start =>
    rw [System.entryAt?_initial] at hu
    cases hu
  | @step cmds s cmd hrest hl hp ih =>
    have hs := hrest.consistent .initial
    rcases (System.perform_loses hs hl hp).entry hu with hold | ⟨hnew, -⟩
    · obtain ⟨h, htaken⟩ := ih hold
      exact ⟨h, hrest.mem_takenBy_concat.2 (.inl htaken)⟩
    · obtain ⟨k, a, x, hslot⟩ := System.slot_of_entry hs hl hp hnew hu
      exact hrest.taken_of_slot hl hp hnew hslot

end UnitLoading
