/-
Places: where a search or a write puts a unit, in the cache of a context and at a host.

A place is a context and a name, or a host, a context and a name. What a search builds has the name that was
asked for, in the context and at the host of a loader on the path (`finding_fresh`), and it fills its own two
places, while all others keep their living units (`Outcome.resident?`, `Outcome.loaded?`). The same is said
of the writes that put a unit somewhere past the loaders.
-/
import UnitLoading.Proofs.Atomicity
import UnitLoading.Proofs.Closing

namespace UnitLoading

variable {s t r : System} {c a : ContextId} {h k : HostId} {name : String} {u v : UnitId} {d : Definition}
  {f : Finding} {answer : Answer} {cmd : Command}

namespace Finding

theorem ofLookup_ne_fresh {found : Option UnitId} : ofLookup found ≠ .fresh c h d := by
  cases found <;> exact Finding.noConfusion

theorem orElse_eq_fresh {g : Finding} (hf : f.orElse g = .fresh c h d) :
    f = .fresh c h d ∨ g = .fresh c h d := by
  cases f with
  | nothing => exact .inr hf
  | live | fresh | failure => exact .inl hf

theorem ofLookup_eq_nothing {found : Option UnitId} : ofLookup found = .nothing ↔ found = none := by
  cases found <;> simp [ofLookup]

theorem forgiven_eq_live : f.forgiven = .live u ↔ f = .live u := by
  cases f with
  | failure e => cases e <;> exact ⟨Finding.noConfusion, Finding.noConfusion⟩
  | live | fresh | nothing => exact .rfl

theorem forgiven_eq_fresh : f.forgiven = .fresh c h d ↔ f = .fresh c h d := by
  cases f with
  | failure e => cases e <;> exact ⟨Finding.noConfusion, Finding.noConfusion⟩
  | live | fresh | nothing => exact .rfl

end Finding

namespace System

-- ================================================================ what is built

/-- What a definition builds is what was defined, where it was defined. -/
theorem defining_fresh {e : Definition} (hf : s.defining c h d = .fresh a k e) : a = c ∧ k = h ∧ e = d := by
  unfold defining at hf
  split at hf
  · cases hf
  · split at hf
    · split at hf <;> cases hf
    · split at hf
      · cases hf
      · cases hf
        exact ⟨rfl, rfl, rfl⟩

/-- A definition gives a unit that is there only if it is the one that resides. -/
theorem defining_live (hf : s.defining c h d = .live u) : s.resident? c d.name = some u := by
  unfold defining at hf
  split at hf
  · cases hf
  · split at hf
    · next v hv =>
      split at hf
      · cases hf
        exact hv
      · cases hf
    · split at hf <;> cases hf

theorem supply_live (hs : s.Consistent) {id : LoaderId} (hf : s.supply id c h name = .live u) :
    s.resident? c name = some u := by
  unfold supply at hf
  split at hf
  · cases hf
  · next e he =>
    obtain ⟨location, -, hpublished⟩ := List.exists_of_findSome?_eq_some he
    rw [← hs.published hpublished]
    exact defining_live hf

theorem supply_fresh (hs : s.Consistent) {id : LoaderId} (hf : s.supply id c h name = .fresh a k d) :
    a = c ∧ k = h ∧ d.name = name := by
  unfold supply at hf
  split at hf
  · cases hf
  · next e he =>
    obtain ⟨rfl, rfl, rfl⟩ := defining_fresh hf
    obtain ⟨location, -, hpublished⟩ := List.exists_of_findSome?_eq_some he
    exact ⟨rfl, rfl, hs.published hpublished⟩

/-- What a resolution builds has the name that was asked for, in the context and at the host of a loader on
the path. -/
theorem finding_fresh (hs : s.Consistent) {scope : Option ResolutionScope} {path : List Stop}
    (hf : s.finding name scope path = .fresh c h d) : (∃ id, .dynamic id c h ∈ path) ∧ d.name = name := by
  induction path generalizing scope with
  | nil => cases hf
  | cons stop rest ih =>
    -- a look-up builds nothing, so the unit is built behind this stop, or from what it supplies itself
    have hbehind : ∀ {scope}, s.finding name scope rest = .fresh c h d →
        (∃ id, .dynamic id c h ∈ stop :: rest) ∧ d.name = name := by
      intro scope hf
      obtain ⟨⟨id, hid⟩, hname⟩ := ih hf
      exact ⟨⟨id, List.mem_cons_of_mem _ hid⟩, hname⟩
    cases stop with
    | foreign id units raises =>
      unfold finding at hf
      split at hf
      · cases hf
      · have hvia := (Finding.orElse_eq_fresh hf).resolve_left Finding.ofLookup_ne_fresh
        exact hbehind (Finding.forgiven_eq_fresh.1 hvia)
    | dynamic id a k =>
      unfold finding at hf
      replace hf := (Finding.orElse_eq_fresh hf).resolve_left Finding.ofLookup_ne_fresh
      replace hf := (Finding.orElse_eq_fresh hf).resolve_left Finding.ofLookup_ne_fresh
      replace hf := (Finding.orElse_eq_fresh hf).resolve_left Finding.ofLookup_ne_fresh
      rcases Finding.orElse_eq_fresh hf with hrest | hsupply
      · exact hbehind hrest
      · obtain ⟨rfl, rfl, hname⟩ := supply_fresh hs hsupply
        exact ⟨⟨id, List.mem_cons_self⟩, hname⟩

theorem resolving_fresh (hs : s.Consistent) {l : Loader} {scope : ResolutionScope}
    (hf : s.resolving l name scope = .fresh c h d) : (∃ id, .dynamic id c h ∈ l.path) ∧ d.name = name :=
  finding_fresh hs ((Finding.orElse_eq_fresh hf).resolve_right Finding.noConfusion)

theorem seeking_fresh (hs : s.Consistent) {l : Loader} {scope : ResolutionScope}
    (hf : s.seeking l name scope = .fresh c h d) : (∃ id, .dynamic id c h ∈ l.path) ∧ d.name = name :=
  resolving_fresh hs ((Finding.orElse_eq_fresh hf).resolve_left Finding.ofLookup_ne_fresh)

-- ================================================================ filling a place

/-- A handle more on a living unit brings nobody to life. -/
theorem alive_retain_of_alive (hu : s.alive u = true) : (s.retain u).alive = s.alive := by
  funext v
  rw [Bool.eq_iff_iff, alive_retain_iff]
  constructor
  · rintro (rfl | hv)
    · exact hu
    · exact hv
  · exact .inr

theorem resident?_retain (hu : s.alive u = true) (c : ContextId) (name : String) :
    (s.retain u).resident? c name = s.resident? c name := by
  rw [resident?, alive_retain_of_alive hu]
  rfl

theorem loaded?_retain (hu : s.alive u = true) (h : HostId) (c : ContextId) (name : String) :
    (s.retain u).loaded? h c name = s.loaded? h c name := by
  rw [loaded?, alive_retain_of_alive hu]
  rfl

/-- A unit that is installed fills its place in the cache, and no other. -/
theorem resident?_installed_eq (hs : s.Consistent) (c : ContextId) (h : HostId) (d : Definition)
    (a : ContextId) (name : String) : (s.installed c h d).resident? a name
      = if a = c ∧ name = d.name then some s.nextUnit else s.resident? a name := by
  show ((s.installed c h d).entryAt? a name).filter (s.withNew (some c) d).alive = _
  rw [entryAt?_installed]
  split
  · exact Option.filter_eq_some_iff.2 ⟨rfl, alive_withNew.2 (.inl rfl)⟩
  · show _ = (s.entryAt? a name).filter s.alive
    cases hu : s.entryAt? a name with
    | none => rfl
    | some u => rw [Option.filter_some, Option.filter_some, alive_withNew_of_built hs (hs.entry hu)]

/-- A unit that is installed fills its place at its host, and no other. -/
theorem loaded?_installed_eq (hs : s.Consistent) (c : ContextId) (h : HostId) (d : Definition) (k : HostId)
    (a : ContextId) (name : String) : (s.installed c h d).loaded? k a name
      = if k = h ∧ a = c ∧ name = d.name then some s.nextUnit else s.loaded? k a name := by
  show ((s.installed c h d).slot? k a name).filter (s.withNew (some c) d).alive = _
  rw [slot?_installed]
  split
  · exact Option.filter_eq_some_iff.2 ⟨rfl, alive_withNew.2 (.inl rfl)⟩
  · exact live?_host_withNew hs (some c) d k a name

/-- A living unit that is recorded under a name of a cache fills that place, and no other. -/
theorem resident?_record (hu : s.alive u = true) (c : ContextId) (x : String) (a : ContextId) (name : String) :
    (s.record c x u).resident? a name = if a = c ∧ name = x then some u else s.resident? a name := by
  show ((s.setContext c _).context a).cache.live? s.alive name = _
  rw [context_setContext]
  by_cases hac : a = c
  · subst hac
    simp only [↓reduceIte, true_and, UnitCache.live?_record hu]
    rfl
  · simp only [hac, ↓reduceIte, false_and]
    rfl

/-- A host that is handed a unit fills no place of another name. -/
theorem loaded?_install {x : CompiledUnit} (hx : s.units.get? u = some x) (hname : x.name ≠ name)
    (h : HostId) (c : ContextId) (k : HostId) (a : ContextId) :
    (s.install h c u).2.loaded? k a name = s.loaded? k a name := by
  unfold System.install
  rw [hx]
  dsimp only
  split
  · next y hy =>
    refine host_setHost_congr (f := fun y => y.live? s.alive a name) ?_ k
    rcases Host.install_ok hy with rfl | rfl
    · rfl
    · have hkey : (a, name) ≠ (c, x.name) := fun e => hname (Prod.mk.inj e).2.symm
      rw [Host.live?, Host.withLoaded, Table.get?_insert, if_neg hkey]
      rfl
  · rfl

/-- Handing a unit to a host is a matter of that host alone. -/
theorem install_eq (s : System) (h : HostId) (c : ContextId) (u : UnitId) :
    (s.install h c u).2 = { s with hosts := (s.install h c u).2.hosts } := by
  unfold System.install
  split
  · rfl
  · split <;> rfl

-- ================================================================ searching

/-- The next number is new to every state with the same life before. -/
theorem SameLife.not_built_nextUnit (hl : s.SameLife t) (ht : t.Consistent) : ¬ s.Built t.nextUnit := by
  intro hb
  exact System.not_built_nextUnit ht.toNumbered (hl.onward.built hb)

/-- After a search every place in a cache is as it was, but for that of a unit which the search has built and
gives. -/
theorem Outcome.resident? (ho : Outcome s f answer t) (hs : s.Consistent) (a : ContextId) (name : String) :
    t.resident? a name = s.resident? a name ∨
      ∃ h d u, f = .fresh a h d ∧ d.name = name ∧ answer = .unit u ∧ ¬ s.Built u ∧
        t.resident? a name = some u := by
  cases ho with
  | @live u r ht hu =>
    left
    rw [resident?_retain hu]
    exact (ht.sameLife hs).resident a name
  | @fresh c h d r ht ha =>
    have hlife := ht.sameLife hs
    have hcon := ht.consistent hs
    rw [resident?_installed_eq hcon]
    by_cases hplace : a = c ∧ name = d.name
    · obtain ⟨rfl, rfl⟩ := hplace
      right
      exact ⟨h, d, r.nextUnit, rfl, rfl, rfl, hlife.not_built_nextUnit hcon, if_pos ⟨rfl, rfl⟩⟩
    · left
      rw [if_neg hplace]
      exact hlife.resident a name
  | failure ht => exact .inl ((ht.sameLife hs).resident a name)
  | nothing ht => exact .inl ((ht.sameLife hs).resident a name)

/-- The same for the places at hosts. -/
theorem Outcome.loaded? (ho : Outcome s f answer t) (hs : s.Consistent) (k : HostId) (a : ContextId)
    (name : String) : t.loaded? k a name = s.loaded? k a name ∨
      ∃ d u, f = .fresh a k d ∧ d.name = name ∧ answer = .unit u ∧ ¬ s.Built u ∧
        t.loaded? k a name = some u := by
  cases ho with
  | @live u r ht hu =>
    left
    rw [loaded?_retain hu]
    exact (ht.sameLife hs).loaded k a name
  | @fresh c h d r ht ha =>
    have hlife := ht.sameLife hs
    have hcon := ht.consistent hs
    rw [loaded?_installed_eq hcon]
    by_cases hplace : k = h ∧ a = c ∧ name = d.name
    · obtain ⟨rfl, rfl, rfl⟩ := hplace
      right
      exact ⟨d, r.nextUnit, rfl, rfl, rfl, hlife.not_built_nextUnit hcon, if_pos ⟨rfl, rfl, rfl⟩⟩
    · left
      rw [if_neg hplace]
      exact hlife.loaded k a name
  | failure ht => exact .inl ((ht.sameLife hs).loaded k a name)
  | nothing ht => exact .inl ((ht.sameLife hs).loaded k a name)

/-- A search keeps the contexts open or closed, with the same pools, and where they are in the tree. -/
theorem Outcome.context (ho : Outcome s f answer t) (hs : s.Consistent) (a : ContextId) :
    s.Unmoved t a ∧ (t.context a).ancestors = (s.context a).ancestors ∧ (s.Knows a → t.Knows a) := by
  have hkeep : ∀ {r}, Upkeeps s r → s.Unmoved r a ∧ (r.context a).ancestors = (s.context a).ancestors ∧
      (s.Knows a → r.Knows a) := by
    intro r ht
    have hlife := ht.sameLife hs
    exact ⟨⟨hlife.closed a, hlife.pools a⟩, hlife.ancestors a, (hlife.knows a).2⟩
  cases ho with
  | @live u r ht hu => exact hkeep (r := r) ht
  | @fresh c h d r ht ha =>
    obtain ⟨hunmoved, hancestors, hknows⟩ := hkeep ht
    refine ⟨hunmoved.trans (unmoved_installed r c h d a), Eq.trans ?_ hancestors,
      fun hk => (knows_setContext ha.knows).2 (hknows hk)⟩
    refine context_setContext_congr (f := Context.ancestors) ?_ a
    rfl
  | failure ht => exact hkeep ht
  | nothing ht => exact hkeep ht

end System

end UnitLoading
