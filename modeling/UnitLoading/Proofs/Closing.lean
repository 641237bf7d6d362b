/-
Closing: a context that was closed stays closed and empty, and nothing is defined in it again.

# What a change can make of a context

A change leaves a context open or closed as it was and with the same pools, or it adds a pool to an open
one, or it closes one that is open and not the root (`Change.turn`). So the root stays open in every run,
and a closed context never gets a pool.

# What is sealed

`Sealed c s t` compares two states of one run: in the later one the context is closed, no unit of it is on
record that was not on record before, and no host has an entry for it that it did not have before. Every
change out of a state in which the context is closed is of this kind, for the three steps that build a unit
of a context or give it an entry all ask that the context be open; by induction so is every run
(`Run.sealed`). Surviving handles of the context's units matter to none of this: their deaths post notices,
which are no entries.
-/
import UnitLoading.Proofs.Residency

namespace UnitLoading

variable {s t r : System} {c a : ContextId} {h : HostId} {name : String} {u v : UnitId} {l : Loader}
  {d : Definition} {cmds more : List Command} {permitted : Command → Prop}

namespace System

-- ================================================================ flags and pools

/-- The context is open or closed as before and has the same pools. -/
def Unmoved (s t : System) (a : ContextId) : Prop :=
  (t.context a).closed = (s.context a).closed ∧ (t.context a).pools = (s.context a).pools

theorem Unmoved.of_context (he : t.context a = s.context a) : s.Unmoved t a := by
  rw [Unmoved, he]
  exact ⟨rfl, rfl⟩

theorem Unmoved.trans (hst : s.Unmoved t a) (htr : t.Unmoved r a) : s.Unmoved r a :=
  ⟨htr.1.trans hst.1, htr.2.trans hst.2⟩

theorem unmoved_setContext {x : Context} (hclosed : x.closed = (s.context c).closed)
    (hpools : x.pools = (s.context c).pools) (a : ContextId) : s.Unmoved (s.setContext c x) a :=
  ⟨context_setContext_congr (f := Context.closed) hclosed a,
    context_setContext_congr (f := Context.pools) hpools a⟩

theorem unmoved_buryIfDead (s : System) (u : UnitId) (a : ContextId) : s.Unmoved (s.buryIfDead u) a := by
  unfold buryIfDead
  split
  · exact .of_context rfl
  · rw [Unmoved, context_bury]
    exact ⟨rfl, rfl⟩

theorem unmoved_release (s : System) (u : UnitId) (a : ContextId) : s.Unmoved (s.release u) a := by
  unfold System.release
  split
  · exact unmoved_buryIfDead _ u a
  · exact .of_context rfl

theorem unmoved_disown (s : System) (u : UnitId) (a : ContextId) : s.Unmoved (s.disown u) a := by
  unfold System.disown
  split
  · exact unmoved_buryIfDead _ u a
  · exact .of_context rfl

theorem unmoved_letGo (s : System) (path : List Stop) (a : ContextId) : s.Unmoved (s.letGo path) a :=
  letGo_induction path (P := fun t => s.Unmoved t a) (fun t v ht => ht.trans (unmoved_disown t v a))
    (.of_context rfl)

theorem unmoved_newForeign {units : List (String × UnitId)} (hu : ∀ e ∈ units, e.2 ∈ s.handles)
    (raises : List String) (via : Option Loader) (a : ContextId) :
    s.Unmoved (s.newForeign units raises via).2 a := by
  have hadopt := adopt_induction (P := fun t => s.Unmoved t a)
    (fun _ _ ht _ => ht) (fun t v ht => ht.trans (unmoved_disown t v a)) units .empty s
    (.of_context rfl) hu
  exact hadopt

/-- What was not made yet counts as open and without pools, as a new context is. -/
theorem unmoved_newContext (hn : s.Numbered) (parent a : ContextId) :
    s.Unmoved (s.newContext parent).2 a := by
  have hnew : s.context ⟨s.contexts.size⟩ = default := by
    rw [System.context, get?_contexts_size hn]
    rfl
  apply unmoved_setContext
  · rw [hnew]
    rfl
  · rw [hnew]
    rfl

theorem unmoved_installed (s : System) (c : ContextId) (h : HostId) (d : Definition) (a : ContextId) :
    s.Unmoved (s.installed c h d) a := by
  rw [Unmoved, context_installed]
  split
  · next hac =>
    rw [hac]
    exact ⟨rfl, rfl⟩
  · exact ⟨rfl, rfl⟩

theorem context_markLinked (s : System) (u : UnitId) (a : ContextId) :
    (s.markLinked u).2.context a = s.context a := by
  unfold System.markLinked
  split <;> rfl

theorem context_link (s : System) (h : HostId) (u : UnitId) (a : ContextId) :
    (s.link h u).2.context a = s.context a := by
  unfold System.link
  split
  · rfl
  · split <;> rfl

/-- What a change makes of a context. -/
inductive Turn (s t : System) (a : ContextId) : Prop
  | unmoved (hsame : s.Unmoved t a)
  | pool (hopen : (s.context a).closed = false) (g : GenerationId) (values : List Constant)
      (hpool : t.context a = { s.context a with pools := (s.context a).pools.register g values })
  | shut (hopen : (s.context a).closed = false) (hroot : a ≠ .root)
      (hshut : t.context a = (s.context a).close)

theorem Change.turn (hc : Change s t) (hs : s.Consistent) (a : ContextId) : s.Turn t a := by
  cases hc with
  | upkeep hu =>
    have hlife := hu.sameLife hs
    exact .unmoved ⟨hlife.closed a, hlife.pools a⟩
  | release u => exact .unmoved (unmoved_release s u a)
  | @installed c h d ha => exact .unmoved (unmoved_installed s c h d a)
  | link _ _ _ => exact .unmoved (.of_context (context_link ..))
  | markLinked u => exact .unmoved (.of_context (context_markLinked s u a))
  | @newContext parent hp => exact .unmoved (unmoved_newContext hs.toNumbered parent a)
  | @newForeign units via hu hvia raises => exact .unmoved (unmoved_newForeign hu raises via a)
  | @letGo path hp => exact .unmoved (unmoved_letGo s path a)
  | @register c hc hopen g values =>
    by_cases hac : a = c
    · subst hac
      refine .pool hopen g values ?_
      exact (context_setContext ..).trans (if_pos rfl)
    · exact .unmoved (.of_context ((context_setContext ..).trans (if_neg hac)))
  | @shut c h hc hh hroot hopen =>
    by_cases hac : a = c
    · subst hac
      refine .shut hopen (by simpa [ContextId.isRoot] using hroot) ?_
      exact (context_setContext ..).trans (if_pos rfl)
    · exact .unmoved (.of_context ((context_setContext ..).trans (if_neg hac)))
  | retain | detached | newHost | newLoader | hold | publish | addLocation =>
    exact .unmoved (.of_context rfl)

-- ================================================================ the root

theorem Change.root_open (hc : Change s t) (hs : s.Consistent)
    (ho : (s.context .root).closed = false) : (t.context .root).closed = false := by
  cases hc.turn hs .root with
  | unmoved hsame => exact hsame.1.trans ho
  | pool _ g values hpool =>
    rw [hpool]
    exact ho
  | shut _ hroot _ => exact absurd rfl hroot

theorem Write.closed (hw : Write s t) (a : ContextId) : (t.context a).closed = (s.context a).closed := by
  cases hw with
  | record | clear | drain | pools =>
    refine context_setContext_congr (f := Context.closed) ?_ a
    rfl
  | release => rfl
  | install =>
    unfold System.install
    split
    · rfl
    · split <;> rfl

theorem Moves.root_open (hm : Moves s t) (hs : s.Consistent) (ho : (s.context .root).closed = false) :
    (t.context .root).closed = false := by
  induction hm with
  | refl => exact ho
  | tail hrest hstep ih =>
    rcases hstep with hc | hw
    · exact hc.root_open (Moves.consistent hrest hs) ih
    · rw [hw.closed]
      exact ih

theorem closed_initial (c : ContextId) : (System.initial.context c).closed = false := by
  by_cases hc : c = .root
  · simp [System.initial, context, hc, Context.fresh]
  · simp only [System.initial, context, Table.get?_insert, hc, ↓reduceIte, Table.get?_empty,
      Option.getD_none]
    rfl

/-- Nothing that a program can do closes the root. -/
theorem Reachable.root_open (hr : s.Reachable permitted) : (s.context .root).closed = false := by
  obtain ⟨cmds, hr⟩ := hr
  induction hr with
  | start => exact closed_initial .root
  | step hrun _ hp ih =>
    have hcon := hrun.consistent .initial
    exact (perform_moves hcon hp).root_open hcon ih

theorem close_eq (s : System) (l : Loader) :
    s.close l = if l.context.isRoot || (s.context l.context).closed then s else s.shut l.context l.host := rfl

/-- Closing leaves the root as it is, with everything that it has. -/
theorem context_root_close (s : System) (l : Loader) : (s.close l).context .root = s.context .root := by
  rw [close_eq]
  split
  · rfl
  · next hguard =>
    have hne : ContextId.root ≠ l.context := by
      intro he
      apply hguard
      rw [← he]
      rfl
    exact (context_setContext ..).trans (if_neg hne)

-- ================================================================ closed contexts have no pools

/-- Closed contexts have no pools. -/
def Drained (s : System) : Prop := ∀ c, (s.context c).closed = true → (s.context c).pools = .empty

theorem Drained.change (hd : s.Drained) (hs : s.Consistent) (hc : Change s t) : t.Drained := by
  intro a hclosed
  cases hc.turn hs a with
  | unmoved hsame =>
    rw [hsame.2]
    apply hd
    rw [← hsame.1]
    exact hclosed
  | pool hopen g values hpool =>
    rw [hpool] at hclosed
    have hcon : (s.context a).closed = true := hclosed
    rw [hopen] at hcon
    cases hcon
  | shut _ _ hshut =>
    rw [hshut]
    rfl

theorem Drained.changes (hd : s.Drained) (hs : s.Consistent) (hc : Changes s t) : t.Drained := by
  induction hc with
  | refl => exact hd
  | tail hrest hstep ih => exact ih.change (Changes.consistent hrest hs) hstep

theorem Reachable.drained (hr : s.Reachable Command.LoaderLevel) : s.Drained := by
  obtain ⟨cmds, hr⟩ := hr
  induction hr with
  | start =>
    intro c hclosed
    rw [closed_initial] at hclosed
    cases hclosed
  | step hrun hl hp ih =>
    have hcon := hrun.consistent .initial
    exact ih.changes hcon (perform_changes hcon hl hp)

-- ================================================================ sealed contexts

theorem definedIn_congr (hu : t.units = s.units) : t.DefinedIn u c name ↔ s.DefinedIn u c name := by
  rw [DefinedIn, DefinedIn, hu]

/-- A unit that is built in an open context is none of a closed one. -/
theorem definedIn_of_withNew (hopen : (s.context a).closed = false) (hclosed : (s.context c).closed = true)
    (hu : (s.withNew (some a) d).DefinedIn u c name) : s.DefinedIn u c name := by
  rw [definedIn_withNew] at hu
  split at hu
  · rw [Option.some.inj hu.1, hclosed] at hopen
    cases hopen
  · exact hu

/-- From one state to a later one, the context stays closed and gets no units and no entries at hosts. -/
structure Sealed (c : ContextId) (s t : System) : Prop where
  closed : (t.context c).closed = true
  defined {u : UnitId} {name : String} : t.DefinedIn u c name → s.DefinedIn u c name
  slot {h : HostId} {name : String} {u : UnitId} : t.slot? h c name = some u → s.slot? h c name = some u

theorem Sealed.refl (hclosed : (s.context c).closed = true) : Sealed c s s := ⟨hclosed, id, id⟩

theorem Sealed.trans (hst : Sealed c s t) (htr : Sealed c t r) : Sealed c s r :=
  ⟨htr.closed, fun hu => hst.defined (htr.defined hu), fun hl => hst.slot (htr.slot hl)⟩

theorem Change.closed (hc : Change s t) (hs : s.Consistent) (hclosed : (s.context c).closed = true) :
    (t.context c).closed = true := by
  cases hc.turn hs c with
  | unmoved hsame => exact hsame.1.trans hclosed
  | pool hopen | shut hopen =>
    rw [hopen] at hclosed
    cases hclosed

theorem definedIn_link : (s.link h v).2.DefinedIn u c name ↔ s.DefinedIn u c name := by
  cases hx : s.units.get? v with
  | none =>
    unfold System.link
    rw [hx]
  | some x =>
    rw [link_eq hx]
    cases (s.host h).refusals.unlinkable.get? x.name with
    | some reason => exact .rfl
    | none => exact definedIn_markLinked

theorem Change.definedIn (hc : Change s t) (hclosed : (s.context c).closed = true)
    (hu : t.DefinedIn u c name) : s.DefinedIn u c name := by
  cases hc with
  | upkeep hup =>
    cases hup with
    | @refuse a h d e _ hopen _ _ =>
      have hunits : (s.refused a d).units = (s.withNew (some a) d).units := by
        rw [refused, release_eq]
      exact definedIn_of_withNew hopen hclosed ((definedIn_congr hunits).1 hu)
    | evict | sweep | forget => exact hu
  | release u => exact (definedIn_congr (by rw [release_eq])).1 hu
  | installed ha => exact definedIn_of_withNew ha.isOpen hclosed hu
  | detached d =>
    rw [definedIn_withNew] at hu
    split at hu
    · cases hu.1
    · exact hu
  | link _ _ _ => exact definedIn_link.1 hu
  | markLinked u => exact definedIn_markLinked.1 hu
  | @newForeign units via hall hvia raises =>
    have hunits := adopt_induction (P := fun t => t.units = s.units) (fun _ _ ht _ => ht)
      (fun t v ht => by rw [disown_eq]; exact ht) units .empty s rfl hall
    exact (definedIn_congr hunits).1 hu
  | @letGo path hp =>
    have hunits : (s.letGo path).units = s.units :=
      letGo_induction path (P := fun t => t.units = s.units) (fun t v ht => by rw [disown_eq]; exact ht) rfl
    exact (definedIn_congr hunits).1 hu
  | retain | newContext | newHost | newLoader | hold | publish | addLocation | register | shut => exact hu

theorem Change.slot (hc : Change s t) (hs : s.Consistent) (hclosed : (s.context c).closed = true)
    (hu : t.slot? h c name = some u) : s.slot? h c name = some u := by
  rcases hc.thins hs with hthin | ⟨a, k, d, ha, rfl⟩ | ⟨d, rfl⟩
  · exact hthin.slot hu
  · rw [slot?_installed, if_neg] at hu
    · exact hu
    · rintro ⟨-, rfl, -⟩
      have hopen := ha.isOpen
      rw [hclosed] at hopen
      cases hopen
  · exact hu

theorem Change.isSealed (hc : Change s t) (hs : s.Consistent) (hclosed : (s.context c).closed = true) :
    Sealed c s t :=
  ⟨hc.closed hs hclosed, hc.definedIn hclosed, hc.slot hs hclosed⟩

theorem Changes.isSealed (hc : Changes s t) (hs : s.Consistent) (hclosed : (s.context c).closed = true) :
    Sealed c s t := by
  induction hc with
  | refl => exact .refl hclosed
  | tail hrest hstep ih => exact ih.trans (hstep.isSealed (Changes.consistent hrest hs) ih.closed)

-- ================================================================ after a close

theorem closed_close (hroot : l.context ≠ .root) : ((s.close l).context l.context).closed = true := by
  rw [close_eq]
  split
  · next hguard =>
    rw [Bool.or_eq_true] at hguard
    rcases hguard with hr | hclosed
    · rw [ContextId.isRoot, decide_eq_true_eq] at hr
      exact absurd hr hroot
    · exact hclosed
  · rw [shut, releaseHost, context_setHost, context_setContext, if_pos rfl]
    rfl

end System

-- ================================================================ runs

/-- A context that is closed is sealed, whatever is done through the loaders. -/
theorem Run.isSealed (hr : Run Command.LoaderLevel s cmds t) (hs : s.Consistent)
    (hclosed : (s.context c).closed = true) : System.Sealed c s t := by
  induction hr with
  | start => exact .refl hclosed
  | step hrun hl hp ih =>
    have hcon := hrun.consistent hs
    exact ih.trans ((System.perform_changes hcon hl hp).isSealed hcon ih.closed)

/-- A loader that was closed at any time of a run has a closed context, unless it is the root. -/
theorem Run.closed_of_mem (hr : Run Command.LoaderLevel s cmds t) (hs : s.Consistent)
    (hclose : .close l ∈ cmds) (hroot : l.context ≠ .root) : (t.context l.context).closed = true := by
  induction hr with
  | start => exact absurd hclose List.not_mem_nil
  | @step cmds t cmd hrun hl hp ih =>
    rcases List.mem_append.1 hclose with hbefore | hlast
    · have hcon := hrun.consistent hs
      exact ((System.perform_changes hcon hl hp).isSealed hcon (ih hbefore)).closed
    · rw [← List.mem_singleton.1 hlast]
      exact System.closed_close hroot

namespace System

-- ================================================================ permanence

theorem answer_of_closed {k : Loader} (hclosed : (s.context k.context).closed = true) :
    (∀ d, (s.perform (.define k d)).1 = .failed (.error (.closed k.context))) ∧
      ∀ g values, (s.perform (.registerConstants k g values)).1
        = .failed (.error (.closed k.context)) := by
  constructor
  · intro d
    simp only [perform, answering, System.define, defineIn]
    rw [if_pos hclosed]
    rfl
  · intro g values
    simp only [perform, answering, registerConstants]
    rw [if_pos hclosed]
    rfl

/-- The chain of a scope gives no unit of a closed context. -/
theorem not_definedIn_of_chain {scope : ResolutionScope} (hr : s.Reachable Command.LoaderLevel)
    (hclosed : (s.context c).closed = true) (hscope : s.KnowsScope scope)
    (hu : (s.perform (.resolveViaChain scope name)).1 = .unit u) (m : String) : ¬ s.DefinedIn u c m := by
  intro hdefined
  obtain ⟨a, -, hopen, hresident⟩ := resident_of_chain_answer hr.consistent hscope hu
  have hlives := (hr.resident.resident?_iff hopen).1 hresident
  rw [(hlives.2.unique hdefined).1, hclosed] at hopen
  cases hopen

/-- Once a loader over a context other than the root has been closed, its context is closed and empty in
every later state, whatever loader is used: definitions and constants are refused, no unit of the context
is ever built again, and no chain of a scope gives one of those that survive. The root is never closed, and
no closing takes anything from it. -/
theorem closing_permanent :
    (∀ cmds s l, Run Command.LoaderLevel .initial cmds s → .close l ∈ cmds → l.context ≠ .root →
      ∀ more t, Run Command.LoaderLevel s more t →
        ((t.stats l.context).closed = true ∧ (t.stats l.context).resident = 0 ∧
          (t.stats l.context).constants = 0) ∧
        (∀ k : Loader, k.context = l.context →
          (∀ d, (t.perform (.define k d)).1 = .failed (.error (.closed l.context))) ∧
          ∀ g values, (t.perform (.registerConstants k g values)).1
            = .failed (.error (.closed l.context))) ∧
        (∀ u name, t.DefinedIn u l.context name → s.DefinedIn u l.context name) ∧
        ∀ scope name u, t.KnowsScope scope → (t.perform (.resolveViaChain scope name)).1 = .unit u →
          ∀ m, ¬ t.DefinedIn u l.context m) ∧
    ∀ s : System, s.Reachable Command.Public → (s.context .root).closed = false ∧
      ∀ l, (s.perform (.close l)).2.context .root = s.context .root := by
  constructor
  · intro cmds s l hrun hclose hroot more t hmore
    have hs := hrun.consistent .initial
    have hsealed : Sealed l.context s t := hmore.isSealed hs (hrun.closed_of_mem .initial hclose hroot)
    have hclosed := hsealed.closed
    have hreach : t.Reachable Command.LoaderLevel := ⟨_, hrun.append hmore⟩
    refine ⟨⟨hclosed, ?_, ?_⟩, ?_, fun u name => hsealed.defined, ?_⟩
    · exact Table.size_eq_zero (hreach.resident.empty hclosed)
    · show (t.context l.context).pools.size = 0
      rw [hreach.drained _ hclosed]
      rfl
    · intro k hk
      rw [← hk] at hclosed ⊢
      exact answer_of_closed hclosed
    · intro scope name u hscope hu m
      exact not_definedIn_of_chain hreach hclosed hscope hu m
  · intro s hr
    exact ⟨hr.root_open, context_root_close s⟩

end System

/-- A loader with a context of its own under the first one. -/
def Loader.nested : Loader := ⟨⟨1⟩, ⟨1⟩, ⟨0⟩, Loader.first.path⟩

namespace System

/-- The state in which that loader was made and has defined a unit. -/
def branched : System :=
  ((System.stocked.perform (.isolatedLoader .first)).2.perform (.define .nested ⟨"b", [2], none⟩)).2

theorem branched_holds_nested : branched.Holds Loader.nested.path :=
  ⟨_, List.mem_cons_self, List.suffix_rfl⟩

theorem reachable_branched : branched.Reachable Command.LoaderLevel := by
  have hmade : (System.stocked.perform (.isolatedLoader .first)).2.Reachable Command.LoaderLevel :=
    reachable_stocked.step id stocked_holds_first
  exact hmade.step id ⟨_, List.mem_cons_self, List.suffix_rfl⟩

/-- A closed context refuses definitions and stays empty also when one of its units dies later. -/
theorem closing_permanent_branched :
    let closed := (branched.perform (.close .nested)).2
    let later := (closed.perform (.release ⟨2⟩)).2
    closed.alive ⟨2⟩ = true ∧ (later.stats ⟨1⟩).pendingReclamations = 1 ∧ (later.stats ⟨1⟩).resident = 0 ∧
      (later.perform (.define .nested ⟨"b", [2], none⟩)).1 = .failed (.error (.closed ⟨1⟩)) ∧
      (later.context .root).closed = false := by
  intro closed later
  obtain ⟨cmds, hrun⟩ := reachable_branched
  have hclose : Run Command.LoaderLevel .initial (cmds ++ [.close .nested]) closed :=
    hrun.step id branched_holds_nested
  have hlater : Run Command.LoaderLevel closed [.release ⟨2⟩] later := .step .start id List.mem_cons_self
  obtain ⟨hall, hroot⟩ := closing_permanent
  obtain ⟨hempty, hrefuses, -⟩ := hall _ _ .nested hclose (by simp) (by decide) _ _ hlater
  refine ⟨rfl, rfl, hempty.2.1, (hrefuses .nested rfl).1 _, ?_⟩
  exact (hroot later ⟨_, (hclose.append hlater).mono fun _ _ => trivial⟩).1

end System

end UnitLoading
