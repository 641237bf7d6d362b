/-
Residency: in a context, a name belongs to at most one living unit, and the caches find it.

# The invariant

`Resident` says where entries stand. Entries of caches and of hosts stand under the context and the name
that their units were defined with, whether those units live or not; in an open context every living unit
has its entry, so two living units of one name cannot be; and a closed context has no entries.

# How it is kept

Where a state is only thinned out, residency is kept part by part (`Resident.thin`). A detached unit has no
context, and a unit that is installed comes to a context where no unit of its name lives
(`Resident.installed`), for otherwise the cache would have found that one.

# What follows

The answers of look-ups are told by the handles alone, whatever entries and notices are left over from dead
units.
-/
import UnitLoading.Proofs.Thinning

namespace UnitLoading.System

variable {s t : System} {c : ContextId} {h : HostId} {name : String} {u v : UnitId} {d : Definition}
  {cmds : List Command}

-- ================================================================ the invariant

/-- Entries stand under the context and the name of their units, open contexts have one for every living
unit, and closed ones have none. -/
structure Resident (s : System) : Prop where
  entry_defined {c : ContextId} {name : String} {u : UnitId} :
    s.entryAt? c name = some u → s.DefinedIn u c name
  slot_defined {h : HostId} {c : ContextId} {name : String} {u : UnitId} :
    s.slot? h c name = some u → s.DefinedIn u c name
  entry_of_lives {c : ContextId} {name : String} {u : UnitId} :
    (s.context c).closed = false → s.Lives c name u → s.entryAt? c name = some u
  unique {c : ContextId} {name : String} {u v : UnitId} : s.Lives c name u → s.Lives c name v → u = v
  empty {c : ContextId} : (s.context c).closed = true → ∀ name, s.entryAt? c name = none

namespace Resident

theorem thin (hr : s.Resident) (ht : s.Thins t) : t.Resident where
  entry_defined he := ht.defined (hr.entry_defined (ht.entry he))
  slot_defined hl := ht.defined (hr.slot_defined (ht.slot hl))
  entry_of_lives ho hu :=
    ht.keeps ho hu.1 (hr.entry_of_lives (ht.opens ho) ⟨ht.alive hu.1, ht.known hu.1 hu.2⟩)
  unique hu hv := hr.unique ⟨ht.alive hu.1, ht.known hu.1 hu.2⟩ ⟨ht.alive hv.1, ht.known hv.1 hv.2⟩
  empty {c} hc name := by
    rcases ht.closes hc with hc | hnone
    · rw [Option.eq_none_iff_forall_ne_some]
      intro u he
      have hfirst : s.entryAt? c name = some u := ht.entry he
      rw [hr.empty hc name] at hfirst
      exact absurd hfirst (by simp)
    · exact hnone name

/-- In an open context, the cache gives the living unit of a name. -/
theorem resident?_iff (hr : s.Resident) (hopen : (s.context c).closed = false) :
    s.resident? c name = some u ↔ s.Lives c name u := by
  rw [resident?, UnitCache.live?_eq_some_iff]
  constructor
  · rintro ⟨he, ha⟩
    exact ⟨ha, hr.entry_defined he⟩
  · intro hu
    exact ⟨hr.entry_of_lives hopen hu, hu.1⟩

/-- The cache of a closed context gives nothing. -/
theorem resident?_closed (hr : s.Resident) (hclosed : (s.context c).closed = true) :
    s.resident? c name = none := by
  have hnone : (s.context c).cache.entries.get? name = none := hr.empty hclosed name
  rw [resident?, UnitCache.live?, hnone]
  rfl

theorem resident?_none (hr : s.Resident) (hnone : ∀ u, ¬ s.Lives c name u) :
    s.resident? c name = none := by
  rw [Option.eq_none_iff_forall_ne_some]
  intro u hu
  obtain ⟨he, ha⟩ := UnitCache.live?_eq_some_iff.1 hu
  exact hnone u ⟨ha, hr.entry_defined he⟩

/-- Where no unit of a name lives, no host has one. -/
theorem loaded?_none (hr : s.Resident) (hnone : ∀ u, ¬ s.Lives c name u) (h : HostId) :
    s.loaded? h c name = none := by
  rw [Option.eq_none_iff_forall_ne_some]
  intro u hu
  obtain ⟨hl, ha⟩ := Host.live?_eq_some_iff.1 hu
  exact hnone u ⟨ha, hr.slot_defined hl⟩

/-- A detached unit belongs to no context. -/
theorem detached (hr : s.Resident) (hs : s.Consistent) (d : Definition) : (s.withNew none d).Resident := by
  have hlives : ∀ c name u, (s.withNew none d).Lives c name u → s.Lives c name u := by
    intro c name u hu
    rcases (lives_withNew hs.toNumbered none d).1 hu with ⟨-, hc, -⟩ | hu
    · exact absurd hc (by simp)
    · exact hu
  exact {
    entry_defined := fun he => (hr.entry_defined he).withNew hs.toNumbered
    slot_defined := fun hl => (hr.slot_defined hl).withNew hs.toNumbered
    entry_of_lives := fun ho hu => hr.entry_of_lives ho (hlives _ _ _ hu)
    unique := fun hu hv => hr.unique (hlives _ _ _ hu) (hlives _ _ _ hv)
    empty := hr.empty }

/-- A unit that is installed is the only one of its name in its context. -/
theorem installed (hr : s.Resident) (hs : s.Consistent) (ha : s.Admits c h d) :
    (s.installed c h d).Resident := by
  have hn := hs.toNumbered
  have hclosed : ∀ a, ((s.installed c h d).context a).closed = (s.context a).closed :=
    context_setContext_congr (f := Context.closed) rfl
  have hlives : ∀ a x u, (s.installed c h d).Lives a x u ↔
      (u = s.nextUnit ∧ a = c ∧ x = d.name) ∨ s.Lives a x u := by
    intro a x u
    refine (lives_withNew hn (some c) d).trans ?_
    rw [Option.some.injEq, eq_comm (a := c), eq_comm (a := d.name)]
  -- nobody of this name lives there, or the cache would have found it
  have hnone : ∀ u, ¬ s.Lives c d.name u := by
    intro u hu
    have hfound := (hr.resident?_iff ha.isOpen).2 hu
    rw [ha.absent] at hfound
    exact absurd hfound (by simp)
  have hdefined : (s.installed c h d).DefinedIn s.nextUnit c d.name := by
    refine (definedIn_withNew (some c) d).2 ?_
    rw [if_pos rfl]
    exact ⟨rfl, rfl⟩
  refine ⟨fun {a x u} he => ?_, fun {k a x u} hl => ?_, fun {a x u} ho hu => ?_,
    fun {a x u v} hu hv => ?_, fun {a} hc x => ?_⟩
  · rw [entryAt?_installed] at he
    split at he
    · next e =>
      rw [← Option.some.inj he, e.1, e.2]
      exact hdefined
    · exact (hr.entry_defined he).withNew hn
  · rw [slot?_installed] at hl
    split at hl
    · next e =>
      rw [← Option.some.inj hl, e.2.1, e.2.2]
      exact hdefined
    · exact (hr.slot_defined hl).withNew hn
  · rw [hclosed] at ho
    rw [entryAt?_installed]
    rcases (hlives a x u).1 hu with ⟨rfl, rfl, rfl⟩ | hold
    · rw [if_pos ⟨rfl, rfl⟩]
    · rw [if_neg]
      · exact hr.entry_of_lives ho hold
      · rintro ⟨rfl, rfl⟩
        exact hnone u hold
  · rcases (hlives a x u).1 hu with ⟨rfl, rfl, rfl⟩ | hold
    · rcases (hlives _ _ v).1 hv with ⟨rfl, -, -⟩ | hold
      · rfl
      · exact absurd hold (hnone v)
    · rcases (hlives _ _ v).1 hv with ⟨rfl, rfl, rfl⟩ | hold'
      · exact absurd hold (hnone u)
      · exact hr.unique hold hold'
  · rw [hclosed] at hc
    rw [entryAt?_installed, if_neg]
    · exact hr.empty hc x
    · rintro ⟨rfl, -⟩
      rw [ha.isOpen] at hc
      exact absurd hc (by simp)

/-- Changes keep residency. -/
theorem change (hr : s.Resident) (hs : s.Consistent) (hc : Change s t) : t.Resident := by
  rcases hc.thins hs with ht | ⟨c, h, d, ha, rfl⟩ | ⟨d, rfl⟩
  · exact hr.thin ht
  · exact hr.installed hs ha
  · exact hr.detached hs d

theorem changes (hr : s.Resident) (hs : s.Consistent) (hc : Changes s t) : t.Resident := by
  induction hc with
  | refl => exact hr
  | tail hrest hstep ih => exact ih.change (Changes.consistent hrest hs) hstep

theorem initial : System.initial.Resident := by
  have hentry : ∀ c name, System.initial.entryAt? c name = none := fun c name =>
    (context_initial c name).2.1
  have hdead : ∀ u, System.initial.alive u = false := fun _ => rfl
  refine ⟨fun {c name u} he => ?_, fun {h c name u} hl => ?_, fun {c name u} _ hu => ?_,
    fun {c name u v} hu => ?_, fun {c} _ name => hentry c name⟩
  · rw [hentry] at he
    exact absurd he (by simp)
  · rw [show System.initial.slot? h c name = none from rfl] at hl
    exact absurd hl (by simp)
  · exact absurd hu.1 (by simp [hdead])
  · exact absurd hu.1 (by simp [hdead])

/-- Commands through the loaders keep residency. -/
theorem run (hr : s.Resident) (hrun : Run Command.LoaderLevel s cmds t) (hs : s.Consistent) :
    t.Resident := by
  induction hrun with
  | start => exact hr
  | step hrest hl hp ih =>
    have hcon := hrest.consistent hs
    exact ih.changes hcon (perform_changes hcon hl hp)

end Resident

theorem Reachable.resident (hr : s.Reachable Command.LoaderLevel) : s.Resident := by
  obtain ⟨cmds, hr⟩ := hr
  exact Resident.initial.run hr .initial

-- ================================================================ what look-ups answer

/-- In a context there is at most one living unit of a name; as long as the context is open, every loader
over it finds that one, and otherwise none; and a unit that has died is never given again, whatever is
done. -/
theorem residency_exact (hr : s.Reachable Command.LoaderLevel) :
    (∀ c name u v, s.Lives c name u → s.Lives c name v → u = v) ∧
    (∀ (l : Loader) (name : String), s.Holds l.path →
      (∀ u, (s.perform (.findResident l name)).1 = .unit u ↔
        (s.context l.context).closed = false ∧ s.Lives l.context name u) ∧
      ((s.perform (.findResident l name)).1 = .absent ↔
        (s.context l.context).closed = true ∨ ∀ u, ¬ s.Lives l.context name u)) ∧
    ∀ u, s.Built u → s.alive u = false → ∀ cmds t cmd, Run Command.Public s cmds t → cmd.Possible t →
      (t.perform cmd).1 ≠ .unit u := by
  have hs := hr.consistent
  have hres := hr.resident
  refine ⟨fun c name u v => hres.unique, fun l name hl => ?_,
    fun u hb hdead cmds t cmd hrun hp => hrun.answer_ne_dead hs hb hdead hp⟩
  have hanswer : (s.perform (.findResident l name)).1 = .ofLookup (s.resident? l.context name) :=
    (findResident_outcome hs (Holds.stop hl hs).1 name).of_lookup
  rw [hanswer]
  cases hclosed : (s.context l.context).closed with
  | true =>
    rw [hres.resident?_closed hclosed]
    simp [Answer.ofLookup]
  | false =>
    have hiff : ∀ u, s.resident? l.context name = some u ↔ s.Lives l.context name u := fun u =>
      hres.resident?_iff hclosed
    cases hfound : s.resident? l.context name with
    | none =>
      have hnone : ∀ u, ¬ s.Lives l.context name u := fun u hu => by
        rw [← hiff, hfound] at hu
        exact absurd hu (by simp)
      simp [Answer.ofLookup, hnone]
    | some v =>
      have hv : s.Lives l.context name v := (hiff v).1 hfound
      have hothers : ∀ u, s.Lives l.context name u ↔ v = u := fun u =>
        ⟨hres.unique hv, fun e => e ▸ hv⟩
      simp [Answer.ofLookup, hothers]

theorem lives_stocked : System.stocked.Lives .root "a" ⟨1⟩ := ⟨rfl, _, rfl, rfl, rfl⟩

theorem not_lives_stocked (u : UnitId) : ¬ System.stocked.Lives .root "b" u := by
  rintro ⟨-, x, hx, -, hname⟩
  -- the only unit is the one of the other name
  have hx : (u, x) = _ := List.mem_singleton.1 (Table.mem_entries_of_get? hx)
  rw [(Prod.mk.inj hx).2] at hname
  exact absurd hname (by decide)

/-- A unit that was just defined is found, and once its handle has gone no look-up gives it. -/
theorem residency_exact_stocked :
    (System.stocked.perform (.findResident .first "a")).1 = .unit ⟨1⟩ ∧
      (System.stocked.perform (.findResident .first "b")).1 = .absent ∧
      ((System.stocked.perform (.release ⟨1⟩)).2.perform (.findResident .first "a")).1 ≠ .unit ⟨1⟩ := by
  obtain ⟨-, hfind, -⟩ := residency_exact reachable_stocked
  have hdies : (System.stocked.perform (.release ⟨1⟩)).2.Reachable Command.LoaderLevel :=
    reachable_stocked.step id List.mem_cons_self
  obtain ⟨-, -, hdead⟩ := residency_exact hdies
  refine ⟨?_, ?_, ?_⟩
  · exact ((hfind .first "a" stocked_holds_first).1 ⟨1⟩).2 ⟨rfl, lives_stocked⟩
  · exact (hfind .first "b" stocked_holds_first).2.2 (.inr not_lives_stocked)
  · exact hdead ⟨1⟩ rfl rfl [] _ _ .start stocked_holds_first

end UnitLoading.System
