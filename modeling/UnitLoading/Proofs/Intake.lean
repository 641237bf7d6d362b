/-
Intake: what a host takes and counts in the course of one command.

A host counts every unit that it takes and did not have. Commands through the loaders have a host take a unit
in one way only: a loader with that host defines it, be it that the definition was asked for or that a
resolution was supplied with it on the way. Such a unit is new, and it gets the place of its name in the
context of that loader (`Intake`). All else that is done leaves the count alone, and whatever a host has
afterwards it had before (`Idle`): tables are tidied up, contexts are closed, units are linked and die. So in
one command a host takes nothing or one unit (`perform_intake`), and its count says which (`perform_takes`).

A unit that could not be linked is dead at the end of the very command that defined it. The host took it
nevertheless, and has it in its table until somebody asks.
-/
import UnitLoading.Proofs.HostRegister

namespace UnitLoading

variable {s t r : System} {c a : ContextId} {h k : HostId} {name x : String} {u v : UnitId} {d : Definition}
  {f : Finding} {answer : Answer} {cmd : Command} {l : Loader} {scope : ResolutionScope}

/-- Whether a command may define a unit through a loader over this context and with this host: the loader that
is used, or, in a resolution, any on its path. -/
def Command.DefinesThrough (c : ContextId) (h : HostId) : Command → Prop
  | define l _ => l.context = c ∧ l.host = h
  | resolve l _ _ | load l _ _ _ => ∃ id, .dynamic id c h ∈ l.path
  | _ => False

namespace System

/-- Whether a command has a host take a unit: the unit is new, it is defined through a loader with that host,
and afterwards the host has it under its name in its context. -/
def Takes (s : System) (cmd : Command) (h : HostId) (u : UnitId) : Prop :=
  ¬ s.Built u ∧ ∃ c name, cmd.DefinesThrough c h ∧ (s.perform cmd).2.DefinedIn u c name ∧
    (s.perform cmd).2.slot? h c name = some u

-- ================================================================ nothing or one unit

/-- A host has counted nothing, and every entry that it has it had before. -/
structure Idle (h : HostId) (s t : System) : Prop where
  installs : (t.host h).installs = (s.host h).installs
  slot {c : ContextId} {name : String} {u : UnitId} : t.slot? h c name = some u → s.slot? h c name = some u

/-- A host has counted one unit, which is new and is its only new entry. -/
structure Intake (h : HostId) (s t : System) (c : ContextId) (name : String) (u : UnitId) : Prop where
  installs : (t.host h).installs = (s.host h).installs + 1
  new : ¬ s.Built u
  stands : t.slot? h c name = some u
  slot {a : ContextId} {x : String} {v : UnitId} :
    t.slot? h a x = some v → v = u ∨ s.slot? h a x = some v

namespace Idle

theorem refl (h : HostId) (s : System) : Idle h s s := ⟨rfl, id⟩

theorem trans (hst : Idle h s t) (htr : Idle h t r) : Idle h s r :=
  ⟨htr.installs.trans hst.installs, fun hu => hst.slot (htr.slot hu)⟩

theorem of_table (hl : (t.host h).loaded = (s.host h).loaded)
    (hi : (t.host h).installs = (s.host h).installs) : Idle h s t :=
  ⟨hi, fun hu => by rwa [slot?, hl] at hu⟩

/-- Being idle before taking a unit makes no difference. -/
theorem intake (hst : Idle h s t) (ho : s.Onward t) (htr : Intake h t r c name u) :
    Intake h s r c name u where
  installs := by rw [htr.installs, hst.installs]
  new hu := htr.new (ho.built hu)
  stands := htr.stands
  slot hv := (htr.slot hv).imp_right hst.slot

end Idle

/-- Nor does anything afterwards that leaves the table alone. -/
theorem Intake.keep (ht : Intake h s t c name u) (hl : (r.host h).loaded = (t.host h).loaded)
    (hi : (r.host h).installs = (t.host h).installs) : Intake h s r c name u where
  installs := hi.trans ht.installs
  new := ht.new
  stands := by
    rw [slot?, hl]
    exact ht.stands
  slot hv := by
    rw [slot?, hl] at hv
    exact ht.slot hv

-- ================================================================ searches

theorem Upkeep.idle (hu : Upkeep s t) (hs : s.Consistent) (h : HostId) : Idle h s t :=
  ⟨hu.installs h, (hu.thins hs).slot⟩

theorem Upkeeps.idle (hu : Upkeeps s t) (hs : s.Consistent) (h : HostId) : Idle h s t := by
  induction hu with
  | refl => exact .refl h s
  | tail hrest hstep ih => exact ih.trans (hstep.idle (Upkeeps.consistent hrest hs) h)

/-- The host of a new unit takes it, and every other host is idle. -/
theorem intake_installed (hs : s.Consistent) (c : ContextId) (h : HostId) (d : Definition) :
    Intake h s (s.installed c h d) c d.name s.nextUnit where
  installs := by
    show ((s.setHost h ((s.host h).withLoaded c d.name s.nextUnit)).host h).installs = _
    rw [host_setHost, if_pos rfl]
    rfl
  new := not_built_nextUnit hs.toNumbered
  stands := by rw [slot?_installed, if_pos ⟨rfl, rfl, rfl⟩]
  slot hv := by
    rw [slot?_installed] at hv
    split at hv
    · exact .inl (Option.some.inj hv).symm
    · exact .inr hv

theorem idle_installed (hk : h ≠ k) : Idle k s (s.installed c h d) := by
  have hhost : (s.installed c h d).host k = s.host k := host_setHost_of_ne hk
  exact .of_table (by rw [hhost]) (by rw [hhost])

/-- A search has a host take the unit that is built for it. -/
theorem Outcome.intake (ho : Outcome s f answer t) (hs : s.Consistent) (k : HostId) :
    (∃ c d u, f = .fresh c k d ∧ Intake k s t c d.name u) ∨ Idle k s t := by
  cases ho with
  | @live u r ht hu => exact .inr ((ht.idle hs k).trans (.of_table rfl rfl))
  | @fresh c h d r ht ha =>
    have hr := ht.consistent hs
    by_cases hk : h = k
    · subst hk
      exact .inl ⟨c, d, r.nextUnit, rfl,
        (ht.idle hs h).intake (ht.sameLife hs).onward (intake_installed hr c h d)⟩
    · exact .inr ((ht.idle hs k).trans (idle_installed hk))
  | failure ht => exact .inr (ht.idle hs k)
  | nothing ht => exact .inr (ht.idle hs k)

-- ================================================================ loads

theorem loaded_link (s : System) (k : HostId) (u : UnitId) (h : HostId) :
    ((s.link k u).2.host h).loaded = (s.host h).loaded :=
  host_link_congr (fun _ => rfl) s k u h

theorem installs_link (s : System) (k : HostId) (u : UnitId) (h : HostId) :
    ((s.link k u).2.host h).installs = (s.host h).installs :=
  host_link_congr (fun _ => rfl) s k u h

theorem host_release (s : System) (u : UnitId) (h : HostId) : (s.release u).host h = s.host h := by
  rw [release_eq]
  rfl

/-- What is done with a unit that was found leaves all tables of hosts alone. -/
theorem host_linkFound (s : System) (k : HostId) (u : UnitId) (wanted : Bool) (h : HostId) :
    ((s.linkFound k u wanted).2.host h).loaded = (s.host h).loaded ∧
      ((s.linkFound k u wanted).2.host h).installs = (s.host h).installs := by
  rw [linkFound_eq]
  split
  · cases (s.link k u).1 with
    | ok => exact ⟨loaded_link s k u h, installs_link s k u h⟩
    | error e =>
      dsimp only
      rw [host_release]
      exact ⟨rfl, rfl⟩
  · exact ⟨rfl, rfl⟩

/-- A load has a host take what the search that it starts from does, linked or not. -/
theorem load_intake (hs : s.Consistent) (hl : s.Holds l.path) (hscope : s.KnowsScope scope) (name : String)
    (link : Bool) (h : HostId) :
    (∃ id c u, .dynamic id c h ∈ l.path ∧ Intake h s (s.load l name link scope).2 c name u) ∨
      Idle h s (s.load l name link scope).2 := by
  have hsearch : (∃ id c u, .dynamic id c h ∈ l.path ∧ Intake h s (s.sought l name scope).2 c name u) ∨
      Idle h s (s.sought l name scope).2 := by
    rcases (sought_outcome hs hl hscope name).intake hs h with ⟨c, d, u, hf, ht⟩ | hidle
    · obtain ⟨⟨id, hstop⟩, rfl⟩ := seeking_fresh hs hf
      exact .inl ⟨id, c, u, hstop, ht⟩
    · exact .inr hidle
  rw [load_eq]
  obtain ⟨result, t, hr⟩ : ∃ result t, s.sought l name scope = (result, t) := ⟨_, _, rfl⟩
  rw [hr] at hsearch ⊢
  cases result with
  | error e => exact hsearch
  | ok u =>
    obtain ⟨hloaded, hinstalls⟩ := host_linkFound t l.host u link h
    rcases hsearch with ⟨id, c, v, hstop, ht⟩ | hidle
    · exact .inl ⟨id, c, v, hstop, ht.keep hloaded hinstalls⟩
    · exact .inr (hidle.trans (.of_table hloaded hinstalls))

-- ================================================================ every command

/-- In one command through the loaders a host is idle, or it takes one new unit from a loader that has it. -/
theorem perform_intake (hs : s.Consistent) (hl : cmd.LoaderLevel) (hp : cmd.Possible s) (h : HostId) :
    (∃ c name u, cmd.DefinesThrough c h ∧ Intake h s (s.perform cmd).2 c name u) ∨
      Idle h s (s.perform cmd).2 := by
  have hlookup : ∀ {found answer t}, Outcome s (.ofLookup found) answer t → Idle h s t := by
    intro found answer t ho
    rcases ho.intake hs h with ⟨c, d, u, hf, -⟩ | hidle
    · exact absurd hf Finding.ofLookup_ne_fresh
    · exact hidle
  cases cmd with
  | define l d =>
    obtain ⟨hc, hh⟩ := Holds.stop hp hs
    rcases (defineIn_outcome hs hc hh d).intake hs h with ⟨c, e, u, hf, ht⟩ | hidle
    · obtain ⟨rfl, rfl, rfl⟩ := defining_fresh hf
      exact .inl ⟨l.context, e.name, u, ⟨rfl, rfl⟩, ht⟩
    · exact .inr hidle
  | resolve l name scope =>
    rcases (resolve_outcome hs hp.1 hp.2 name).intake hs h with ⟨c, d, u, hf, ht⟩ | hidle
    · obtain ⟨hstop, rfl⟩ := resolving_fresh hs hf
      exact .inl ⟨c, d.name, u, hstop, ht⟩
    · exact .inr hidle
  | load l name link scope =>
    rcases load_intake hs hp.1 hp.2 name link h with ⟨id, c, u, hstop, ht⟩ | hidle
    · exact .inl ⟨c, name, u, ⟨id, hstop⟩, ht⟩
    · exact .inr hidle
  | findResident l x => exact .inr (hlookup (findResident_outcome hs (Holds.stop hp hs).1 x))
  | resolveViaChain scope x => exact .inr (hlookup (resolveViaChain_outcome hs hp x))
  | cached c x => exact .inr (hlookup (cached_outcome hp x))
  | findLoaded k c x => exact .inr (hlookup (findLoaded_outcome hp c x))
  | sweep c => exact .inr ((Upkeep.sweep hp).idle hs h)
  | close l =>
    show _ ∨ Idle h s (s.close l)
    rw [close_eq]
    split
    · exact .inr (.refl h s)
    · refine .inr ⟨?_, (Thins.shut s l.context l.host).slot⟩
      refine host_setHost_congr (f := Host.installs) ?_ h
      rfl
  | publish k location d =>
    refine .inr (.of_table (host_setHost_congr (f := Host.loaded) ?_ h)
      (host_setHost_congr (f := Host.installs) ?_ h)) <;> rfl
  | insertCached | clearCache | drainQueue | registerPool | clearPools | install | releaseHost =>
    exact absurd trivial hl
  | _ =>
    exact .inr (.of_table ((perform_sameTables hs hp trivial).loaded h) (perform_passesBy hs hp id id).installs)

/-- A new unit that a host has after a command was taken in it. -/
theorem takes_of_slot (hr : s.Reachable Command.LoaderLevel) (hl : cmd.LoaderLevel) (hp : cmd.Possible s)
    (hnew : ¬ s.Built u) (hslot : (s.perform cmd).2.slot? h c name = some u) : s.Takes cmd h u := by
  have hs := hr.consistent
  rcases perform_intake hs hl hp h with ⟨a, x, v, hthrough, ht⟩ | hidle
  · obtain rfl : u = v := (ht.slot hslot).resolve_right fun hold => hnew (hs.loaded hold)
    exact ⟨hnew, a, x, hthrough, (hr.step hl hp).resident.slot_defined ht.stands, ht.stands⟩
  · exact absurd (hs.loaded (hidle.slot hslot)) hnew

/-- A host counts exactly the unit that it takes. -/
theorem perform_takes (hr : s.Reachable Command.LoaderLevel) (hl : cmd.LoaderLevel) (hp : cmd.Possible s)
    (h : HostId) :
    (((s.perform cmd).2.host h).installs = (s.host h).installs ∧ ∀ u, ¬ s.Takes cmd h u) ∨
      ∃ u, ((s.perform cmd).2.host h).installs = (s.host h).installs + 1 ∧ ∀ v, s.Takes cmd h v ↔ v = u := by
  have hs := hr.consistent
  rcases perform_intake hs hl hp h with ⟨c, name, u, -, ht⟩ | hidle
  · refine .inr ⟨u, ht.installs, fun v => ⟨?_, ?_⟩⟩
    · rintro ⟨hnew, a, x, -, -, hslot⟩
      exact (ht.slot hslot).resolve_right fun hold => hnew (hs.loaded hold)
    · rintro rfl
      exact takes_of_slot hr hl hp ht.new ht.stands
  · refine .inl ⟨hidle.installs, ?_⟩
    rintro u ⟨hnew, a, x, -, -, hslot⟩
    exact hnew (hs.loaded (hidle.slot hslot))

end System

end UnitLoading
