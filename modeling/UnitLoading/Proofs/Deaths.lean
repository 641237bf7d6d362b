/-
Deaths: which units die in the course of a program, in which order, and what their contexts are told.

# The record

`deathsAlong` reads the deaths of a program off its states. In a single command they are the units that do not
live afterwards although they did before, or although they were built in that very command (`losses`). If these
are several, each of them was built and died before the next one was built, so they stand in the order of their
numbers. The one command that takes several older units along is to let go of a loader, and there the handles
are followed one by one (`fallen`).

# What a death leaves behind

`s.Loses us t` says that just the units `us` have died on the way from `s` to `t`, in this order, and what has
become of the caches meanwhile: each context was told of the deaths of its units in this order; notices may have
been worked off, and then they have left no entry that they name. New entries are of new units. Nothing that
happens between two deaths is told, so the relation composes (`Loses.trans`), and every command loses what the
record says (`perform_loses`). So does every run (`Run.loses`).
-/
import UnitLoading.Proofs.Places

namespace UnitLoading

variable {s t r : System} {c : ContextId} {h : HostId} {name : String} {u v : UnitId} {us vs : List UnitId}
  {d : Definition} {n : Notice} {f : Finding} {answer : Answer} {cmd : Command} {cmds : List Command}
  {path : List Stop}

namespace System

-- ================================================================ the record of deaths

/-- Whether a unit has died. -/
def Dead (s : System) (u : UnitId) : Prop := s.Built u ∧ s.alive u = false

/-- The units built so far, oldest first. -/
def roll (s : System) : List UnitId := (List.range s.units.size).map fun k => ⟨k + 1⟩

/-- The units that are dead in `t` and were not in `s`, oldest first. -/
def losses (s t : System) : List UnitId :=
  t.roll.filter fun u => !t.alive u && (s.alive u || !s.units.contains u)

/-- The units that die while foreign loaders give up these handles, one after the other. -/
def fallen (s : System) : List UnitId → List UnitId
  | [] => []
  | u :: us => s.losses (s.disown u) ++ (s.disown u).fallen us

/-- The units that die in a command, in the order of their deaths. -/
def deathsBy (s : System) : Command → List UnitId
  | .letGo path => (s.unheld path).fallen (path.flatMap (s.unheld path).abandoned)
  | cmd => s.losses (s.perform cmd).2

/-- The units that die in the course of these commands, in the order of their deaths. -/
def deathsAlong (s : System) : List Command → List UnitId
  | [] => []
  | cmd :: cmds => s.deathsBy cmd ++ (s.perform cmd).2.deathsAlong cmds

theorem deathsAlong_concat (s : System) (cmds : List Command) (cmd : Command) :
    s.deathsAlong (cmds ++ [cmd]) = s.deathsAlong cmds ++ (s.after cmds).deathsBy cmd := by
  induction cmds generalizing s with
  | nil => exact List.append_nil _
  | cons first cmds ih => rw [List.cons_append, deathsAlong, ih, deathsAlong, List.append_assoc, after]

theorem mem_roll (hn : s.Numbered) : u ∈ s.roll ↔ s.Built u := by
  rw [hn.unit_iff, roll, List.mem_map]
  constructor
  · rintro ⟨k, hk, rfl⟩
    exact ⟨Nat.succ_pos k, List.mem_range.1 hk⟩
  · rintro ⟨hpos, hle⟩
    obtain ⟨k, hk⟩ : ∃ k, u.val = k + 1 := Nat.exists_eq_add_one.2 hpos
    refine ⟨k, List.mem_range.2 (by omega), ?_⟩
    rw [← hk]

theorem roll_pairwise (s : System) : s.roll.Pairwise fun u v => u.val < v.val :=
  List.pairwise_map.2 (List.pairwise_lt_range.imp fun hlt => Nat.succ_lt_succ hlt)

theorem mem_losses (ht : t.Numbered) : u ∈ s.losses t ↔ t.Dead u ∧ ¬ s.Dead u := by
  have hnew : (s.alive u || !s.units.contains u) = true ↔ ¬ s.Dead u := by
    simp only [Dead, Built, Table.contains, Bool.or_eq_true, Bool.not_eq_true', not_and, Bool.not_eq_false]
    constructor
    · rintro (hlive | hnone) hbuilt
      · exact hlive
      · rw [hnone] at hbuilt
        cases hbuilt
    · intro himp
      cases hbuilt : (s.units.get? u).isSome with
      | true => exact .inl (himp hbuilt)
      | false => exact .inr rfl
  rw [losses, List.mem_filter, mem_roll ht, Bool.and_eq_true, hnew, Bool.not_eq_true', ← and_assoc]
  rfl

-- ================================================================ notices of deaths

/-- The notices that wait in a context, oldest first. -/
def notices (s : System) (c : ContextId) : List Notice := (s.context c).cache.queue

/-- The notices that these deaths bring to a context, in their order. -/
def posted (s : System) (us : List UnitId) (c : ContextId) : List Notice := us.flatMap fun u => s.obituary u c

theorem obituary_of_definedIn (hu : s.DefinedIn u c name) : s.obituary u c = [⟨name, u⟩] := by
  obtain ⟨x, hx, hc, hname⟩ := hu
  rw [obituary, hx]
  dsimp only
  rw [if_pos hc, hname]

theorem obituary_of_not_definedIn (hu : ∀ name, ¬ s.DefinedIn u c name) : s.obituary u c = [] := by
  unfold obituary
  split
  · rfl
  · next x hx =>
    rw [if_neg]
    exact fun hc => hu x.name ⟨x, hx, hc, rfl⟩

/-- A death brings a context one notice, if the unit was defined there. -/
theorem obituary_cases (s : System) (u : UnitId) (c : ContextId) :
    ((∀ name, ¬ s.DefinedIn u c name) ∧ s.obituary u c = []) ∨
      ∃ name, s.DefinedIn u c name ∧ s.obituary u c = [⟨name, u⟩] := by
  by_cases hu : ∃ name, s.DefinedIn u c name
  · obtain ⟨name, hu⟩ := hu
    exact .inr ⟨name, hu, obituary_of_definedIn hu⟩
  · rw [not_exists] at hu
    exact .inl ⟨hu, obituary_of_not_definedIn hu⟩

theorem mem_obituary : n ∈ s.obituary u c ↔ n.unit = u ∧ s.DefinedIn u c n.name := by
  constructor
  · intro hn
    rcases s.obituary_cases u c with ⟨-, hnone⟩ | ⟨name, hu, hone⟩
    · rw [hnone] at hn
      cases hn
    · rw [hone] at hn
      obtain rfl := List.mem_singleton.1 hn
      exact ⟨rfl, hu⟩
  · rintro ⟨rfl, hu⟩
    rw [obituary_of_definedIn hu]
    exact List.mem_singleton.2 rfl

/-- The notices of a death depend on nothing but what the unit was defined as. -/
theorem obituary_congr (hdefined : ∀ name, t.DefinedIn u c name ↔ s.DefinedIn u c name) :
    t.obituary u c = s.obituary u c := by
  rcases s.obituary_cases u c with ⟨hu, hnone⟩ | ⟨name, hu, hone⟩
  · rw [hnone]
    exact obituary_of_not_definedIn fun name h => hu name ((hdefined name).1 h)
  · rw [hone]
    exact obituary_of_definedIn ((hdefined name).2 hu)

theorem posted_congr (hdefined : ∀ u ∈ us, ∀ name, t.DefinedIn u c name ↔ s.DefinedIn u c name) :
    t.posted us c = s.posted us c :=
  List.flatMap_congr fun u hu => obituary_congr (hdefined u hu)

theorem posted_append (s : System) (us vs : List UnitId) (c : ContextId) :
    s.posted (us ++ vs) c = s.posted us c ++ s.posted vs c := List.flatMap_append

theorem posted_singleton (s : System) (u : UnitId) (c : ContextId) : s.posted [u] c = s.obituary u c :=
  List.flatMap_singleton ..

theorem mem_posted : n ∈ s.posted us c ↔ n.unit ∈ us ∧ s.DefinedIn n.unit c n.name := by
  simp only [posted, List.mem_flatMap, mem_obituary]
  constructor
  · rintro ⟨u, hu, rfl, hdefined⟩
    exact ⟨hu, hdefined⟩
  · rintro ⟨hu, hdefined⟩
    exact ⟨_, hu, rfl, hdefined⟩

/-- No context is told of a death twice. -/
theorem units_posted (s : System) (us : List UnitId) (c : ContextId) :
    ((s.posted us c).map Notice.unit).Sublist us := by
  unfold posted
  induction us with
  | nil => exact .slnil
  | cons u us ih =>
    rw [List.flatMap_cons, List.map_append]
    rcases s.obituary_cases u c with ⟨-, hnone⟩ | ⟨name, -, hone⟩
    · rw [hnone]
      exact ih.cons u
    · rw [hone]
      exact ih.cons_cons u

-- ================================================================ what is lost

/-- Just these units have died, in this order. Their contexts were told, and the notices that were worked off
have left no entries. New entries are of new units. -/
structure Loses (s : System) (us : List UnitId) (t : System) : Prop where
  once : us.Nodup
  built {u : UnitId} : s.Built u → t.Built u
  fresh {u : UnitId} : u ∈ us → ¬ s.Dead u
  dead_iff (u : UnitId) : t.Dead u ↔ s.Dead u ∨ u ∈ us
  defined {u : UnitId} (hu : s.Built u) (c : ContextId) (name : String) :
    t.DefinedIn u c name ↔ s.DefinedIn u c name
  entry {c : ContextId} {name : String} {u : UnitId} :
    t.entryAt? c name = some u → s.entryAt? c name = some u ∨ ¬ s.Built u ∧ t.DefinedIn u c name
  notices (c : ContextId) : t.notices c <:+ s.notices c ++ t.posted us c
  worked {c : ContextId} {n : Notice} :
    n ∈ s.notices c ++ t.posted us c → n ∉ t.notices c → t.entryAt? c n.name ≠ some n.unit

/-- Just the units that died in between are lost, so two such ways make one. -/
theorem Loses.trans (hs : s.Grounded) (hst : s.Loses us t) (htr : t.Loses vs r) : s.Loses (us ++ vs) r := by
  have hdead : ∀ {u}, u ∈ us → t.Dead u := fun hu => (hst.dead_iff _).2 (.inr hu)
  -- what the first deaths were told as is not changed by what comes after them
  have hposted : ∀ c, r.posted us c = t.posted us c := fun c =>
    posted_congr fun u hu name => htr.defined (hdead hu).1 c name
  have hknown : ∀ {c n}, n ∈ s.notices c ++ t.posted us c → t.Built n.unit := by
    intro c n hn
    rcases List.mem_append.1 hn with hn | hn
    · exact hst.built (hs.notice hn)
    · exact (mem_posted.1 hn).2.built
  refine ⟨List.nodup_append.2 ⟨hst.once, htr.once, ?_⟩, fun hu => htr.built (hst.built hu), fun {u} hu => ?_,
    fun u => ?_, fun hu c name => (htr.defined (hst.built hu) c name).trans (hst.defined hu c name),
    fun {c name u} he => ?_, fun c => ?_, fun {c n} hn hgone => ?_⟩
  · rintro u hu v hv rfl
    exact htr.fresh hv (hdead hu)
  · rcases List.mem_append.1 hu with hu | hu
    · exact hst.fresh hu
    · exact fun hbefore => htr.fresh hu ((hst.dead_iff u).2 (.inl hbefore))
  · rw [htr.dead_iff, hst.dead_iff, List.mem_append, or_assoc]
  · rcases htr.entry he with hold | ⟨hnew, hdefined⟩
    · rcases hst.entry hold with hold | ⟨hnew, hdefined⟩
      · exact .inl hold
      · exact .inr ⟨hnew, (htr.defined hdefined.built c name).2 hdefined⟩
    · exact .inr ⟨fun hu => hnew (hst.built hu), hdefined⟩
  · obtain ⟨early, hearly⟩ := hst.notices c
    obtain ⟨late, hlate⟩ := htr.notices c
    refine ⟨early ++ late, ?_⟩
    rw [posted_append, hposted, ← List.append_assoc, ← hearly, List.append_assoc, List.append_assoc, hlate]
  · rw [posted_append, hposted, ← List.append_assoc] at hn
    by_cases hmid : n ∈ t.notices c ++ r.posted vs c
    · exact htr.worked hmid hgone
    · rw [List.mem_append, not_or] at hmid
      have hfirst := (List.mem_append.1 hn).resolve_right hmid.2
      intro he
      rcases htr.entry he with hold | ⟨hnew, -⟩
      · exact hst.worked hfirst hmid.1 hold
      · exact hnew (hknown hfirst)

-- ================================================================ nothing is lost

namespace Loses

/-- Nobody has died, and the notices are as before or were all worked off. -/
theorem of_dead (hbuilt : ∀ {u}, s.Built u → t.Built u) (hdead : ∀ u, t.Dead u ↔ s.Dead u)
    (hdefined : ∀ {u}, s.Built u → ∀ c name, t.DefinedIn u c name ↔ s.DefinedIn u c name)
    (hentry : ∀ {c name u}, t.entryAt? c name = some u →
      s.entryAt? c name = some u ∨ ¬ s.Built u ∧ t.DefinedIn u c name)
    (hnotices : ∀ c, t.notices c = s.notices c ∨
      t.notices c = [] ∧ ∀ n ∈ s.notices c, t.entryAt? c n.name ≠ some n.unit) : s.Loses [] t where
  once := .nil
  built := hbuilt
  fresh hu := absurd hu List.not_mem_nil
  dead_iff u := (hdead u).trans (or_iff_left List.not_mem_nil).symm
  defined := hdefined
  entry := hentry
  notices c := by
    rw [posted, List.flatMap_nil, List.append_nil]
    rcases hnotices c with hsame | ⟨hnone, -⟩
    · exact hsame ▸ List.suffix_rfl
    · exact hnone ▸ List.nil_suffix
  worked {c n} hn hgone := by
    rw [posted, List.flatMap_nil, List.append_nil] at hn
    rcases hnotices c with hsame | ⟨-, hworked⟩
    · rw [hsame] at hgone
      exact absurd hn hgone
    · exact hworked n hn

/-- Where the caches are the same, the units decide. -/
theorem of_caches (hbuilt : ∀ {u}, s.Built u → t.Built u) (hdead : ∀ u, t.Dead u ↔ s.Dead u)
    (hdefined : ∀ {u}, s.Built u → ∀ c name, t.DefinedIn u c name ↔ s.DefinedIn u c name)
    (hcache : ∀ c, (t.context c).cache = (s.context c).cache) : s.Loses [] t := by
  refine .of_dead hbuilt hdead hdefined (fun {c name u} he => .inl ?_) fun c => .inl ?_
  · rwa [entryAt?, hcache] at he
  · rw [System.notices, hcache]
    rfl

/-- Where the units and the caches are the same, it is enough that the same units are alive. -/
theorem of_alive (hunits : t.units = s.units) (halive : ∀ u, t.alive u = s.alive u)
    (hcache : ∀ c, (t.context c).cache = (s.context c).cache) : s.Loses [] t := by
  have hbuilt : ∀ u, t.Built u ↔ s.Built u := fun u => by rw [Built, Built, hunits]
  refine .of_caches (hbuilt _).2 (fun u => ?_) (fun _ _ _ => definedIn_congr hunits) hcache
  rw [Dead, Dead, hbuilt, halive]

theorem refl (s : System) : s.Loses [] s := .of_alive rfl (fun _ => rfl) fun _ => rfl

/-- Hosts, paths and search locations are no matter. -/
theorem congr (hst : s.Loses us t) (hu : r.units = t.units) (hc : r.contexts = t.contexts)
    (hh : r.handles = t.handles) (ho : r.owned = t.owned) : s.Loses us r := by
  cases t
  cases r
  subst hu hc hh ho
  exact ⟨hst.once, hst.built, hst.fresh, hst.dead_iff, hst.defined, hst.entry, hst.notices, hst.worked⟩

/-- The cache of a context may lose entries, and its notices if no entry that one of them names stays. -/
theorem setContext {x : Context}
    (hentry : ∀ {name u}, x.cache.entries.get? name = some u → s.entryAt? c name = some u)
    (hnotices : x.cache.queue = s.notices c ∨
      x.cache.queue = [] ∧ ∀ n ∈ s.notices c, x.cache.entries.get? n.name ≠ some n.unit) :
    s.Loses [] (s.setContext c x) := by
  refine .of_dead id (fun _ => .rfl) (fun _ _ _ => .rfl) (fun {a name u} he => .inl ?_) fun a => ?_
  · rw [entryAt?, context_setContext] at he
    split at he
    · next e =>
      rw [e]
      exact hentry he
    · exact he
  · rw [System.notices, context_setContext]
    split
    · next e =>
      subst e
      simpa [entryAt?] using hnotices
    · exact .inl rfl

theorem retain (hu : s.alive u = true) : s.Loses [] (s.retain u) :=
  .of_alive rfl (fun v => congrFun (alive_retain_of_alive hu) v) fun _ => rfl

theorem own (hu : s.alive u = true) : s.Loses [] (s.own u) := by
  refine .of_alive rfl (fun v => ?_) fun _ => rfl
  rw [Bool.eq_iff_iff, alive_own_iff, or_iff_right_of_imp]
  rintro rfl
  exact hu

theorem markLinked (s : System) (u : UnitId) : s.Loses [] (s.markLinked u).2 := by
  refine .of_caches built_markLinked.2 (fun v => ?_) (fun _ _ _ => definedIn_markLinked) fun c => ?_
  · rw [Dead, built_markLinked, alive_markLinked, Dead]
  · rw [context_markLinked]

theorem link (hs : s.Grounded) (h : HostId) (u : UnitId) : s.Loses [] (s.link h u).2 := by
  cases hx : s.units.get? u with
  | none =>
    unfold System.link
    rw [hx]
    exact .refl s
  | some x =>
    rw [link_eq hx]
    cases (s.host h).refusals.unlinkable.get? x.name with
    | some reason => exact .refl s
    | none =>
      have hcounted : s.Loses [] (s.setHost h (if x.linked then s.host h else
          { s.host h with links := (s.host h).links + 1 })) := (refl s).congr rfl rfl rfl rfl
      exact hcounted.trans hs (markLinked _ u)

/-- A unit that was just built is not among the dead. -/
theorem withNew (hs : s.Consistent) (context : Option ContextId) (d : Definition) :
    s.Loses [] (s.withNew context d) := by
  refine .of_caches (fun hu => built_withNew.2 (.inr hu)) (fun u => ?_) (fun {u} hu c name => ?_) fun _ => rfl
  · rw [Dead, Dead, ← Bool.not_eq_true, ← Bool.not_eq_true, alive_withNew, built_withNew]
    by_cases hu : u = s.nextUnit
    · subst hu
      simp [not_built_nextUnit hs.toNumbered]
    · simp [hu]
  · rw [definedIn_withNew, if_neg (ne_nextUnit hs.toNumbered hu)]

/-- An installed unit gets an entry, and has not died. -/
theorem installed (hs : s.Consistent) (c : ContextId) (h : HostId) (d : Definition) :
    s.Loses [] (s.installed c h d) := by
  have hnew := withNew hs (some c) d
  refine .of_dead hnew.built (fun u => ?_) (fun hu => hnew.defined hu) (fun {a name u} he => ?_) fun a => .inl ?_
  · exact (hnew.dead_iff u).trans (or_iff_left List.not_mem_nil)
  · rw [entryAt?_installed] at he
    split at he
    · next hplace =>
      rw [← Option.some.inj he, hplace.1, hplace.2]
      refine .inr ⟨not_built_nextUnit hs.toNumbered, (definedIn_withNew (some c) d).2 ?_⟩
      rw [if_pos rfl]
      exact ⟨rfl, rfl⟩
    · exact .inl he
  · rw [System.notices, context_installed]
    split
    · next e =>
      rw [e]
      rfl
    · rfl

-- ================================================================ handles that go

/-- One unit has died, and its context was told. -/
theorem one (hu : s.alive u = true) (hs : s.Grounded)
    (halive : ∀ v, t.alive v = true ↔ s.alive v = true ∧ v ≠ u) (hunits : t.units = s.units)
    (hentry : ∀ c name, t.entryAt? c name = s.entryAt? c name)
    (hnotices : ∀ c, t.notices c = s.notices c ++ s.obituary u c) : s.Loses [u] t := by
  have hbuilt : ∀ v, t.Built v ↔ s.Built v := fun v => by rw [Built, Built, hunits]
  have htold : ∀ c, t.notices c = s.notices c ++ t.posted [u] c := fun c => by
    rw [hnotices, posted_singleton, obituary_congr fun name => definedIn_congr hunits]
  refine ⟨List.nodup_singleton u, (hbuilt _).2, fun {v} hv => ?_, fun v => ?_,
    fun _ _ _ => definedIn_congr hunits, fun he => .inl ?_, fun c => ?_, fun {c n} hn hgone => ?_⟩
  · rw [List.mem_singleton.1 hv, Dead, hu]
    exact fun hdead => Bool.noConfusion hdead.2
  · rw [Dead, Dead, ← Bool.not_eq_true, ← Bool.not_eq_true, halive, hbuilt, List.mem_singleton, not_and_or,
      not_not, and_or_left]
    exact or_congr_right (and_iff_right_of_imp fun hv => hv ▸ hs.alive hu)
  · rwa [hentry] at he
  · exact htold c ▸ List.suffix_rfl
  · rw [htold] at hgone
    exact absurd hn hgone

end Loses

/-- When a handle on a living unit goes, at most that unit dies. -/
theorem loses_buryIfDead {handles owned : List UnitId} (hs : s.Sound) (hu : s.alive u = true)
    (hothers : ∀ v, v ≠ u → ({ s with handles, owned } : System).alive v = s.alive v) :
    s.Loses [] ({ s with handles, owned }.buryIfDead u) ∨
      s.Loses [u] ({ s with handles, owned }.buryIfDead u) := by
  unfold buryIfDead
  split
  · next hlive =>
    refine .inl (.of_alive rfl (fun v => ?_) fun _ => rfl)
    by_cases hv : v = u
    · rw [hv, hu, hlive]
    · exact hothers v hv
  · next hdead =>
    refine .inr (.one hu hs.toGrounded (fun v => ?_) ?_ (fun c name => ?_) fun c => ?_)
    · rw [alive_bury]
      by_cases hv : v = u
      · subst hv
        simp [hdead]
      · rw [hothers v hv]
        exact (and_iff_left hv).symm
    · rw [bury_eq]
    · rw [entryAt?, (tables_bury _ u c).1]
      rfl
    · rw [notices, context_bury]
      rfl

theorem loses_release (hs : s.Sound) (u : UnitId) :
    s.Loses [] (s.release u) ∨ s.Loses [u] (s.release u) := by
  unfold System.release
  split
  · next hu =>
    refine loses_buryIfDead hs (alive_of_mem_handles hu) fun v hv => ?_
    rw [Bool.eq_iff_iff]
    simp [alive, List.mem_erase_of_ne hv]
  · exact .inl (.refl s)

theorem loses_disown (hs : s.Sound) (u : UnitId) :
    s.Loses [] (s.disown u) ∨ s.Loses [u] (s.disown u) := by
  unfold System.disown
  split
  · next hu =>
    refine loses_buryIfDead hs (alive_of_mem_owned hu) fun v hv => ?_
    rw [Bool.eq_iff_iff]
    simp [alive, List.mem_erase_of_ne hv]
  · exact .inl (.refl s)

/-- Deaths in the order in which the units were built are those that show. -/
theorem Loses.ordered (hst : s.Loses us t) (hus : us.Pairwise fun u v => u.val < v.val) (ht : t.Numbered) :
    s.Loses (s.losses t) t := by
  have hmem : ∀ u, u ∈ s.losses t ↔ u ∈ us := by
    intro u
    rw [mem_losses ht, hst.dead_iff, or_and_right]
    constructor
    · rintro (⟨hdead, hnot⟩ | ⟨hu, -⟩)
      · exact absurd hdead hnot
      · exact hu
    · exact fun hu => .inr ⟨hu, hst.fresh hu⟩
  have hroll : (s.losses t).Pairwise fun u v => u.val < v.val := t.roll_pairwise.filter _
  have hperm : (s.losses t).Perm us :=
    (List.perm_ext_iff_of_nodup (hroll.imp fun hlt he => Nat.ne_of_lt hlt (congrArg UnitId.val he)) hst.once).2 hmem
  rw [hperm.eq_of_pairwise (fun u v _ _ huv hvu => absurd hvu (Nat.lt_asymm huv)) hroll hus]
  exact hst

/-- Where at most one unit has died, the order is no question. -/
theorem loses_losses (hst : s.Loses [] t ∨ s.Loses [u] t) (ht : t.Numbered) : s.Loses (s.losses t) t := by
  rcases hst with hnone | hone
  · exact hnone.ordered .nil ht
  · exact hone.ordered (List.pairwise_singleton ..) ht

theorem loses_foldl_disown (hs : s.Sound) (us : List UnitId) : s.Loses (s.fallen us) (us.foldl disown s) := by
  induction us generalizing s with
  | nil => exact .refl s
  | cons u us ih =>
    have hnext := hs.disown u
    exact (loses_losses (loses_disown hs u) hnext.toNumbered).trans hs.toGrounded (ih hnext)

/-- Letting go of a loader, handle by handle. -/
theorem letGo_eq_foldl_disown (s : System) (path : List Stop) :
    s.letGo path = (path.flatMap (s.unheld path).abandoned).foldl disown (s.unheld path) := by
  have hone : ∀ (s : System) f, s.abandon f = (s.abandoned f).foldl disown s := by
    intro s f
    cases f with
    | dynamic => simp [abandon, abandoned, Stop.owns]
    | foreign id units raises =>
      by_cases hr : s.reaches id = true
      · simp [abandon, abandoned, Stop.id, hr]
      · simp only [abandon, abandoned, Stop.id, hr, Bool.false_eq_true, ↓reduceIte]
        exact (List.foldl_map ..).symm
  have hall : ∀ s, path.foldl abandon s = (path.flatMap s.abandoned).foldl disown s := by
    induction path with
    | nil => exact fun _ => rfl
    | cons f path ih =>
      intro s
      -- the paths that are held stay the same meanwhile, so it does not matter when a stop is looked at
      have hsame : (s.abandon f).abandoned = s.abandoned := by
        funext g
        have hp : (s.abandon f).paths = s.paths := paths_foldl_abandon [f] s
        rw [abandoned, abandoned, reaches, reaches, hp]
      rw [List.foldl_cons, ih, hsame, hone, List.flatMap_cons, List.foldl_append]
  rw [letGo_eq, hall]

theorem loses_letGo (hs : s.Sound) (path : List Stop) : s.Loses (s.deathsBy (.letGo path)) (s.letGo path) := by
  have hsound : (s.unheld path).Sound := hs.congr rfl rfl rfl rfl rfl
  have hcalm : s.Loses [] (s.unheld path) := (Loses.refl s).congr rfl rfl rfl rfl
  rw [letGo_eq_foldl_disown]
  exact hcalm.trans hs.toGrounded (loses_foldl_disown hsound _)

/-- A foreign loader takes its handles from running code, which keeps its own. So nobody dies when it gives
one of them up again. -/
theorem loses_adopt (given : List (String × UnitId)) :
    ∀ (units : Table String UnitId) (s : System), s.Sound → (∀ e ∈ given, e.2 ∈ s.handles) →
      (∀ name u, units.get? name = some u → u ∈ s.handles) →
      s.Loses [] (given.foldl (fun r e => adopt r e.1 e.2) (units, s)).2 := by
  induction given with
  | nil => exact fun _ s _ _ _ => .refl s
  | cons e given ih =>
    intro units s hs hgiven hunits
    have hu : s.alive e.2 = true := alive_of_mem_handles (hgiven e List.mem_cons_self)
    have hrest : ∀ g ∈ given, g.2 ∈ s.handles := fun g hg => hgiven g (List.mem_cons_of_mem _ hg)
    have hinsert : ∀ name u, (units.insert e.1 e.2).get? name = some u → u ∈ s.handles := by
      intro name u hget
      rw [Table.get?_insert] at hget
      split at hget
      · rw [← Option.some.inj hget]
        exact hgiven e List.mem_cons_self
      · exact hunits name u hget
    have howned := hs.own hu
    simp only [List.foldl_cons, adopt]
    split
    · next old hold =>
      have hsame : ((s.own e.2).disown old).handles = s.handles := handles_disown ..
      have hkept : ((s.own e.2).disown old).alive old = true :=
        alive_of_mem_handles (hsame ▸ hunits e.1 old hold)
      have hcalm : (s.own e.2).Loses [] ((s.own e.2).disown old) := by
        rcases loses_disown howned old with hnone | hone
        · exact hnone
        · have hdead := (hone.dead_iff old).2 (.inr (List.mem_singleton.2 rfl))
          exact absurd hkept (Bool.eq_false_iff.1 hdead.2)
      have hlast := ih (units.insert e.1 e.2) _ (howned.disown old) (by rwa [hsame]) (by rwa [hsame])
      exact (Loses.own hu).trans hs.toGrounded (hcalm.trans howned.toGrounded hlast)
    · exact (Loses.own hu).trans hs.toGrounded (ih _ _ howned hrest hinsert)

-- ================================================================ searches

/-- All units that die on the way were built on it, and they die in that order. -/
def LosesNew (s t : System) : Prop :=
  ∃ us, s.Loses us t ∧ us.Pairwise (fun u v => u.val < v.val) ∧ ∀ u ∈ us, ¬ s.Built u

namespace LosesNew

theorem of_none (hst : s.Loses [] t) : s.LosesNew t := ⟨[], hst, .nil, fun _ hu => absurd hu List.not_mem_nil⟩

theorem losses (hst : s.LosesNew t) (ht : t.Numbered) : s.Loses (s.losses t) t := by
  obtain ⟨us, hus, hordered, -⟩ := hst
  exact hus.ordered hordered ht

theorem trans (hs : s.Grounded) (ht : t.Numbered) (hr : r.Numbered) (hst : s.LosesNew t) (htr : t.LosesNew r) :
    s.LosesNew r := by
  obtain ⟨us, hus, hfirst, hnew⟩ := hst
  obtain ⟨vs, hvs, hsecond, hlater⟩ := htr
  refine ⟨us ++ vs, hus.trans hs hvs, List.pairwise_append.2 ⟨hfirst, hsecond, fun u hu v hv => ?_⟩, fun u hu => ?_⟩
  -- what was built later has a greater number
  · have hu : u.val ≤ t.units.size := ((ht.unit_iff u).1 ((hus.dead_iff u).2 (.inr hu)).1).2
    have hpos : 0 < v.val := ((hr.unit_iff v).1 ((hvs.dead_iff v).2 (.inr hv)).1).1
    by_contra hle
    exact hlater v hv ((ht.unit_iff v).2 ⟨hpos, by omega⟩)
  · rcases List.mem_append.1 hu with hu | hu
    · exact hnew u hu
    · exact fun hbuilt => hlater u hu (hus.built hbuilt)

end LosesNew

/-- A unit that a host refuses has lived for a moment. -/
theorem loses_refused (hs : s.Consistent) (hc : s.Knows c) (d : Definition) :
    s.Loses [s.nextUnit] (s.refused c d) := by
  have hnew : (s.withNew (some c) d).Sound := hs.toSound.withNew (fun a ha => by rwa [← Option.some.inj ha]) d
  have hlive : (s.withNew (some c) d).alive s.nextUnit = true := alive_withNew.2 (.inl rfl)
  have hdead : (s.refused c d).alive s.nextUnit = false := by
    rw [refused_eq hs, alive_bury]
    exact not_alive_nextUnit hs
  rcases loses_release hnew s.nextUnit with hnone | hone
  · have hbuilt : (s.refused c d).Built s.nextUnit := hnone.built (built_withNew.2 (.inl rfl))
    have hbefore := ((hnone.dead_iff s.nextUnit).1 ⟨hbuilt, hdead⟩).resolve_right List.not_mem_nil
    rw [hbefore.2] at hlive
    cases hlive
  · exact (Loses.withNew hs (some c) d).trans hs.toGrounded hone

theorem Upkeep.losesNew (hu : Upkeep s t) (hs : s.Consistent) : s.LosesNew t := by
  cases hu with
  | @evict c name u hc hu dead =>
    refine .of_none (.setContext (fun {x v} hv => ?_) (.inl rfl))
    rw [Table.get?_erase] at hv
    split at hv
    · cases hv
    · exact hv
  | @sweep c hc =>
    refine .of_none (.setContext (fun {x v} hv => ?_) (.inr ⟨rfl, fun n hn hv => ?_⟩))
    · exact (UnitCache.get?_purge.1 hv).1
    · exact (UnitCache.get?_purge.1 hv).2 hn
  | forget => exact .of_none ((Loses.refl s).congr rfl rfl rfl rfl)
  | refuse hc hopen absent he =>
    refine ⟨_, loses_refused hs hc _, List.pairwise_singleton .., fun u hu => ?_⟩
    rw [List.mem_singleton.1 hu]
    exact not_built_nextUnit hs.toNumbered

theorem Upkeeps.losesNew (hu : Upkeeps s t) (hs : s.Consistent) : s.LosesNew t := by
  induction hu with
  | refl => exact .of_none (.refl s)
  | tail hrest hstep ih =>
    have hmid := Upkeeps.consistent hrest hs
    exact ih.trans hs.toGrounded hmid.toNumbered (hstep.consistent hmid).toNumbered (hstep.losesNew hmid)

theorem Outcome.losesNew (ho : Outcome s f answer t) (hs : s.Consistent) : s.LosesNew t := by
  cases ho with
  | @live u r hr hu =>
    have hcon := hr.consistent hs
    exact (hr.losesNew hs).trans hs.toGrounded hcon.toNumbered (hcon.retain hu).toNumbered
      (.of_none (.retain hu))
  | @fresh c h d r hr ha =>
    have hcon := hr.consistent hs
    exact (hr.losesNew hs).trans hs.toGrounded hcon.toNumbered (hcon.installed ha).toNumbered
      (.of_none (.installed hcon c h d))
  | failure hr => exact hr.losesNew hs
  | nothing hr => exact hr.losesNew hs

/-- When the handle on what was found goes again, nobody dies but a unit that was built for it. -/
theorem Outcome.losesNew_release (ho : Outcome s f (.unit u) t) (hs : s.Consistent) :
    s.LosesNew (t.release u) := by
  cases ho with
  | @live u r hr hu =>
    rw [release_retain_of_alive hu]
    exact hr.losesNew hs
  | @fresh c h d r hr ha =>
    have hcon := hr.consistent hs
    have htaken := hcon.installed ha
    have hlast : r.LosesNew ((r.installed c h d).release r.nextUnit) := by
      have hnew := Loses.installed hcon c h d
      rcases loses_release htaken.toSound r.nextUnit with hnone | hone
      · exact .of_none (hnew.trans hcon.toGrounded hnone)
      · refine ⟨_, hnew.trans hcon.toGrounded hone, List.pairwise_singleton .., fun u hu => ?_⟩
        rw [List.mem_singleton.1 hu]
        exact not_built_nextUnit hcon.toNumbered
    exact (hr.losesNew hs).trans hs.toGrounded hcon.toNumbered (htaken.release _).toNumbered hlast

theorem load_losesNew {l : Loader} {scope : ResolutionScope} (hs : s.Consistent) (hl : s.Holds l.path)
    (hscope : s.KnowsScope scope) (name : String) (link : Bool) :
    s.LosesNew (s.load l name link scope).2 := by
  have ho := sought_outcome hs hl hscope name
  have hhost : s.HasHost l.host := (hs.toWired.known hl List.mem_cons_self).2
  rw [load_eq]
  obtain ⟨result, t, hr⟩ : ∃ result t, s.sought l name scope = (result, t) := ⟨_, _, rfl⟩
  rw [hr] at ho ⊢
  cases result with
  | error e => exact ho.losesNew hs
  | ok u =>
    have ht : t.Consistent := Changes.consistent ho.changes hs
    show s.LosesNew (t.linkFound l.host u link).2
    rw [linkFound_eq]
    split
    · cases (t.link l.host u).1 with
      | ok =>
        exact (ho.losesNew hs).trans hs.toGrounded ht.toNumbered (ht.link (ho.hasHost hs hhost) u).toNumbered
          (.of_none (.link ht.toGrounded l.host u))
      | error e => exact ho.losesNew_release hs
    · exact ho.losesNew hs

-- ================================================================ commands

theorem Loses.newContext (hs : s.Consistent) (parent : ContextId) : s.Loses [] (s.newContext parent).2 := by
  refine .of_alive rfl (fun _ => rfl) (context_setContext_congr ?_)
  rw [show s.context ⟨s.contexts.size⟩ = default by
    rw [System.context, get?_contexts_size hs.toNumbered]; rfl]
  rfl

theorem Loses.createLoader (hs : s.Consistent) (parent : Parent) (locations : List String) (h : HostId) :
    s.Loses [] (s.createLoader parent locations h).2 := by
  cases parent with
  | dynamic l => exact (Loses.refl s).congr rfl rfl rfl rfl
  | foreign f => exact (Loses.newContext hs .root).congr rfl rfl rfl rfl

theorem Loses.configuredLoader (hs : s.Consistent) (config : LoaderConfig) (parent : Option Parent) (h : HostId) :
    s.Loses [] (s.configuredLoader config parent h).2 := by
  unfold System.configuredLoader
  split
  · exact (Loses.refl s).congr rfl rfl rfl rfl
  · split
    · exact (Loses.newContext hs _).congr rfl rfl rfl rfl
    · exact (Loses.refl s).congr rfl rfl rfl rfl
  · exact (Loses.newContext hs _).congr rfl rfl rfl rfl

/-- What a closed context had is gone, the notices with the entries. -/
theorem Loses.close (s : System) (l : Loader) : s.Loses [] (s.close l) := by
  rw [close_eq]
  split
  · exact .refl s
  · have hclose : s.Loses [] (s.setContext l.context (s.context l.context).close) := by
      refine .setContext (fun {x v} hv => ?_) (.inr ⟨rfl, fun n _ hv => ?_⟩)
      · cases hv
      · cases hv
    exact hclose.congr rfl rfl rfl rfl

/-- A command that goes through the loaders loses what the record of deaths says. -/
theorem perform_loses (hs : s.Consistent) (hl : cmd.LoaderLevel) (hp : cmd.Possible s) :
    s.Loses (s.deathsBy cmd) (s.perform cmd).2 := by
  have hnext : (s.perform cmd).2.Numbered := ((perform_moves hs hp).consistent hs).toNumbered
  have hnone : s.Loses [] (s.perform cmd).2 → s.Loses (s.losses (s.perform cmd).2) (s.perform cmd).2 :=
    fun h => (LosesNew.of_none h).losses hnext
  cases cmd with
  | letGo path => exact loses_letGo hs.toSound path
  | release u => exact loses_losses (loses_release hs.toSound u) hnext
  | define | findResident | resolveViaChain | resolve | cached | findLoaded =>
    obtain ⟨f, ho⟩ := perform_outcome hs hp trivial
    exact (ho.losesNew hs).losses hnext
  | load l name link scope => exact (load_losesNew hs hp.1 hp.2 name link).losses hnext
  | sweep c => exact (Upkeep.losesNew (.sweep hp) hs).losses hnext
  | newContext parent => exact hnone (.newContext hs parent)
  | newForeign units raises via =>
    exact hnone ((loses_adopt units .empty s hs.toSound hp.1 nofun).congr rfl rfl rfl rfl)
  | createLoader parent locations h => exact hnone (.createLoader hs parent locations h)
  | childLoader l => exact hnone (.createLoader hs (.dynamic l) [] l.host)
  | isolatedLoader l => exact hnone ((Loses.newContext hs l.context).congr rfl rfl rfl rfl)
  | configuredLoader config parent h => exact hnone (.configuredLoader hs config parent h)
  | loaderFromFile file content parent h =>
    refine hnone ?_
    simp only [perform, answering, loaderFromFile]
    split
    · exact .refl s
    · exact .configuredLoader hs _ parent h
  | registerConstants l g values =>
    refine hnone ?_
    simp only [perform, answering, registerConstants]
    split
    · exact .refl s
    · exact .of_alive rfl (fun _ => rfl) (context_setContext_congr rfl)
  | close l => exact hnone (.close s l)
  | buildDetached d => exact hnone (.withNew hs none d)
  | retain u => exact hnone (.retain (alive_of_mem_handles hp))
  | link h u => exact hnone (.link hs.toGrounded h u)
  | markLinked u => exact hnone (.markLinked s u)
  | newHost | rootLoader | loaderInContext | publish | addLocation | hold =>
    exact hnone ((Loses.refl s).congr rfl rfl rfl rfl)
  | insertCached | clearCache | drainQueue | registerPool | clearPools | install | releaseHost =>
    exact absurd trivial hl

end System

-- ================================================================ runs

/-- A run from the beginning loses what the record of deaths says. -/
theorem Run.loses (hr : Run Command.LoaderLevel .initial cmds s) :
    System.initial.Loses (System.initial.deathsAlong cmds) s := by
  induction hr with
  | start => exact .refl _
  | step hrest hl hp ih =>
    rw [System.deathsAlong_concat, hrest.after_eq]
    exact ih.trans System.Consistent.initial.toGrounded (System.perform_loses (hrest.consistent .initial) hl hp)

end UnitLoading
