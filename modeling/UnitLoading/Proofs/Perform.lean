/-
Performing: every possible command is made of changes, and what follows for runs.

A command that only searches or defines has an outcome (`perform_outcome`), and outcomes are changes.
`perform_changes` takes every command that goes through the loaders apart into changes, and `perform_moves`
any command into changes and writes. So whatever single steps keep is kept by commands, and by induction on
a run every state that a program can reach is consistent (`Reachable.consistent`), and a unit that has died
stays dead (`Run.onward`). A unit that a command gives is alive afterwards (`alive_of_perform`); together,
nothing that has died is ever given again (`Run.answer_ne_dead`).
-/
import UnitLoading.Proofs.Change

namespace UnitLoading

variable {s t : System} {c : ContextId} {h : HostId} {name : String} {u : UnitId} {d : Definition}
  {path : List Stop} {f : Finding} {a : Answer} {permitted : Command → Prop} {cmd : Command}
  {cmds : List Command}

namespace System

-- ================================================================ outcomes as changes

theorem Upkeeps.changes (hu : Upkeeps s t) : Changes s t := by
  induction hu with
  | refl => exact .refl
  | tail _ hstep ih => exact ih.tail (.upkeep hstep)

theorem Outcome.changes (ho : Outcome s f a t) : Changes s t := by
  cases ho with
  | live ht hu => exact ht.changes.tail (.retain hu)
  | fresh ht ha => exact ht.changes.tail (.installed ha)
  | failure ht => exact ht.changes
  | nothing ht => exact ht.changes

/-- What is given is alive. -/
theorem Outcome.alive (ho : Outcome s f a t) (ha : a = .unit u) : t.alive u = true := by
  cases ho with
  | live | fresh =>
    rw [← Answer.unit.inj ha]
    exact alive_of_mem_handles List.mem_cons_self
  | failure | nothing => exact absurd ha (by simp)

-- ================================================================ linking

theorem link_of_error {e : HostError} (he : (s.link h u).1 = .error e) : (s.link h u).2 = s := by
  cases hx : s.units.get? u with
  | none => simp [link, hx] at he
  | some x =>
    rw [link_eq hx] at he ⊢
    cases hun : (s.host h).refusals.unlinkable.get? x.name with
    | some reason => rfl
    | none => simp [hun] at he

theorem alive_link (s : System) (h : HostId) (u v : UnitId) : (s.link h u).2.alive v = s.alive v := by
  unfold link
  split
  · rfl
  · split <;> rfl

theorem link_changes (hh : s.HasHost h) (hu : s.alive u = true) : Changes s (s.link h u).2 := by
  cases he : (s.link h u).1 with
  | ok => exact .single (.link hh hu he)
  | error e =>
    rw [link_of_error he]
    exact .refl

/-- Linking what was found gives it, or gives up the handle on it. -/
theorem linkFound_eq (s : System) (h : HostId) (u : UnitId) (wanted : Bool) :
    s.linkFound h u wanted =
      if wanted && !s.isLinked u then
        match (s.link h u).1 with
        | .ok () => (.ok u, (s.link h u).2)
        | .error e => (.error (.error (.host e)), s.release u)
      else (.ok u, s) := by
  unfold linkFound
  split
  · cases he : (s.link h u).1 with
    | ok => rw [show s.link h u = (.ok (), (s.link h u).2) from Prod.ext he rfl]
    | error e =>
      have hsame := link_of_error he
      rw [show s.link h u = (.error e, s) from Prod.ext he hsame]
  · rfl

theorem linkFound_changes (hh : s.HasHost h) (hu : s.alive u = true) (wanted : Bool) :
    Changes s (s.linkFound h u wanted).2 := by
  rw [linkFound_eq]
  split
  · cases he : (s.link h u).1 with
    | ok => exact link_changes hh hu
    | error e => exact .single (.release u)
  · exact .refl

/-- A load seeks the unit and links it. -/
theorem load_eq (s : System) (l : Loader) (name : String) (link : Bool) (scope : ResolutionScope) :
    s.load l name link scope = match s.sought l name scope with
      | (.ok u, t) => t.linkFound l.host u link
      | r => r := rfl

/-- Linking gives the unit that was found, in the state in which it was found or after one link. -/
theorem linkFound_ok {v : UnitId} {wanted : Bool} (hu : (s.linkFound h v wanted).1 = .ok u) :
    v = u ∧ ((s.linkFound h v wanted).2 = s ∨ (s.linkFound h v wanted).2 = (s.link h u).2) := by
  rw [linkFound_eq] at hu ⊢
  split at hu
  · next hwanted =>
    rw [if_pos hwanted]
    cases hlink : (s.link h v).1 with
    | error e =>
      rw [hlink] at hu
      cases hu
    | ok =>
      rw [hlink] at hu
      obtain rfl : v = u := Except.ok.inj hu
      exact ⟨rfl, .inr rfl⟩
  · next hwanted =>
    rw [if_neg hwanted]
    exact ⟨Except.ok.inj hu, .inl rfl⟩

/-- A load gives the unit that was sought, in the state of the search or after one link. -/
theorem load_ok {l : Loader} {link : Bool} {scope : ResolutionScope}
    (hu : (s.load l name link scope).1 = .ok u) :
    (s.sought l name scope).1 = .ok u ∧ ((s.load l name link scope).2 = (s.sought l name scope).2 ∨
      (s.load l name link scope).2 = ((s.sought l name scope).2.link l.host u).2) := by
  rw [load_eq] at hu ⊢
  obtain ⟨result, t, ht⟩ : ∃ result t, s.sought l name scope = (result, t) := ⟨_, _, rfl⟩
  rw [ht] at hu ⊢
  cases result with
  | error e => cases hu
  | ok v =>
    obtain ⟨rfl, hstate⟩ := linkFound_ok hu
    exact ⟨rfl, hstate⟩

theorem Outcome.hasHost (ho : Outcome s f a t) (hs : s.Consistent) (hh : s.HasHost h) : t.HasHost h := by
  cases ho with
  | live ht _ => exact ((ht.sameLife hs).hasHost h).2 hh
  | fresh ht ha => exact (hasHost_setHost ha.hasHost).2 (((ht.sameLife hs).hasHost h).2 hh)
  | failure ht => exact ((ht.sameLife hs).hasHost h).2 hh
  | nothing ht => exact ((ht.sameLife hs).hasHost h).2 hh

theorem load_changes {l : Loader} {scope : ResolutionScope} (hs : s.Consistent) (hl : s.Holds l.path)
    (hscope : s.KnowsScope scope) (name : String) (link : Bool) :
    Changes s (s.load l name link scope).2 := by
  have ho := sought_outcome hs hl hscope name
  have hhost : s.HasHost l.host := (hs.toWired.known hl List.mem_cons_self).2
  rw [load_eq]
  obtain ⟨result, t, hr⟩ : ∃ result t, s.sought l name scope = (result, t) := ⟨_, _, rfl⟩
  rw [hr] at ho ⊢
  cases result with
  | error e => exact ho.changes
  -- the search leaves a handle on the unit, so the unit can be linked
  | ok u => exact ho.changes.trans (linkFound_changes (ho.hasHost hs hhost) (ho.alive rfl) link)

-- ================================================================ making loaders

theorem Holds.stop {l : Loader} (hl : s.Holds l.path) (hs : s.Consistent) :
    s.Knows l.context ∧ s.HasHost l.host :=
  hs.toWired.known hl List.mem_cons_self

/-- A fresh context and a loader of it. -/
theorem newLoader_fresh_changes {parent : ContextId} {delegates : List Stop} (hp : s.Knows parent)
    (hh : s.HasHost h) (hd : s.Extends delegates) (locations : List String) :
    Changes s ((s.newContext parent).2.newLoader (s.newContext parent).1 h delegates locations).2 := by
  have hknows : (s.newContext parent).2.Knows (s.newContext parent).1 := by
    simp [System.newContext, Knows, setContext]
  exact .tail (.single (.newContext hp)) (.newLoader hknows hh hd locations)

theorem createLoader_changes {parent : Parent} (hs : s.Consistent) (hp : s.Holds parent.path)
    (hh : s.HasHost h) (locations : List String) : Changes s (s.createLoader parent locations h).2 := by
  cases parent with
  | dynamic l => exact .single (.newLoader (Holds.stop hp hs).1 hh (.inr hp) locations)
  | foreign f => exact newLoader_fresh_changes hs.root hh (.inr hp) locations

theorem configuredLoader_changes {parent : Option Parent} (hs : s.Consistent) (hp : s.HoldsParent parent)
    (hh : s.HasHost h) (config : LoaderConfig) : Changes s (s.configuredLoader config parent h).2 := by
  cases parent with
  | none => exact .single (.newLoader hs.root hh (.inl rfl) _)
  | some p =>
    have hp := hp p rfl
    cases p with
    | foreign f => exact newLoader_fresh_changes hs.root hh (.inr hp) _
    | dynamic l =>
      have hknows := (Holds.stop (l := l) hp hs).1
      unfold configuredLoader
      dsimp only
      split
      · exact newLoader_fresh_changes hknows hh (.inr hp) _
      · exact .single (.newLoader hknows hh (.inr hp) _)

-- ================================================================ commands

/-- A command that does nothing but search or define has an outcome. -/
theorem perform_outcome (hs : s.Consistent) (hp : cmd.Possible s) (hsearch : cmd.Searches) :
    ∃ f, Outcome s f (s.perform cmd).1 (s.perform cmd).2 := by
  cases cmd with
  | define l d =>
    obtain ⟨hc, hh⟩ := Holds.stop hp hs
    exact ⟨_, defineIn_outcome hs hc hh d⟩
  | findResident l name => exact ⟨_, findResident_outcome hs (Holds.stop hp hs).1 name⟩
  | resolveViaChain scope name => exact ⟨_, resolveViaChain_outcome hs hp name⟩
  | resolve l name scope => exact ⟨_, resolve_outcome hs hp.1 hp.2 name⟩
  | cached c name => exact ⟨_, cached_outcome hp name⟩
  | findLoaded h c name => exact ⟨_, findLoaded_outcome hp c name⟩
  | _ => exact absurd hsearch id

/-- A possible command that goes through the loaders is made of changes. -/
theorem perform_changes (hs : s.Consistent) (hl : cmd.LoaderLevel) (hp : cmd.Possible s) :
    Changes s (s.perform cmd).2 := by
  cases cmd with
  | define | findResident | resolveViaChain | resolve | cached | findLoaded =>
    obtain ⟨f, ho⟩ := perform_outcome hs hp trivial
    exact ho.changes
  | newContext parent => exact .single (.newContext hp)
  | newHost refusals => exact .single (.newHost refusals)
  | newForeign units raises via => exact .single (.newForeign hp.1 hp.2 raises)
  | rootLoader h => exact .single (.newLoader hs.root hp (.inl rfl) [])
  | createLoader parent locations h => exact createLoader_changes hs hp.1 hp.2 locations
  | loaderInContext parent c locations h =>
    obtain ⟨hparent, hc, hh⟩ := hp
    refine .single (.newLoader hc hh ?_ locations)
    cases parent with
    | none => exact .inl rfl
    | some p => exact .inr (hparent p rfl)
  | childLoader l =>
    have hparent : s.Holds (Parent.dynamic l).path := hp
    exact createLoader_changes hs hparent (Holds.stop hp hs).2 []
  | isolatedLoader l =>
    obtain ⟨hc, hh⟩ := Holds.stop hp hs
    exact newLoader_fresh_changes hc hh (.inr hp) []
  | configuredLoader config parent h => exact configuredLoader_changes hs hp.1 hp.2 config
  | loaderFromFile file content parent h =>
    simp only [perform, answering, loaderFromFile]
    split
    · exact .refl
    · exact configuredLoader_changes hs hp.1 hp.2 _
  | publish h location d => exact .single (.publish hp location d)
  | addLocation l location => exact .single (.addLocation l location)
  | load l name link scope => exact load_changes hs hp.1 hp.2 name link
  | registerConstants l g values =>
    simp only [perform, answering, registerConstants]
    split
    · exact .refl
    · next hopen => exact .single (.register (Holds.stop hp hs).1 (by simpa using hopen) g values)
  | close l =>
    obtain ⟨hc, hh⟩ := Holds.stop hp hs
    simp only [perform, System.close]
    split
    · exact .refl
    · next hopen =>
      rw [Bool.or_eq_true, not_or] at hopen
      exact .single (.shut hc hh (by simpa using hopen.1) (by simpa using hopen.2))
  | buildDetached d => exact .single (.detached d)
  | retain u => exact .single (.retain (alive_of_mem_handles hp))
  | release u => exact .single (.release u)
  | hold path => exact .single (.hold hp)
  | letGo path => exact .single (.letGo hp)
  | sweep c => exact .single (.upkeep (.sweep hp))
  | link h u => exact link_changes hp.1 (alive_of_mem_handles hp.2)
  | markLinked u => exact .single (.markLinked u)
  | insertCached | clearCache | drainQueue | registerPool | clearPools | install | releaseHost =>
    exact absurd trivial hl

theorem insertCached_eq (hc : s.Knows c) (make : Option UnitId → Except LoadError UnitId) :
    s.insertCached c name make = match make (s.resident? c name) with
      | .ok u => (.ok u, (s.record c name u).retain u)
      | .error e => (.error e, s) := by
  simp only [insertCached, onCache, UnitCache.insertWith, resident?]
  cases make ((s.context c).cache.live? s.alive name) with
  | ok u => rfl
  | error e => simp only [setContext_context hc]

/-- A possible command that writes into a table is made of writes and changes. -/
theorem perform_writes (hw : cmd.WritesTables) (hp : cmd.Possible s) : Moves s (s.perform cmd).2 := by
  cases cmd with
  | insertCached c name make =>
    obtain ⟨hc, hmake⟩ := hp
    simp only [perform, answering, insertCached_eq hc]
    cases hm : make (s.resident? c name) with
    | error e => exact .refl
    | ok u =>
      have hu : s.alive u = true := hmake u hm
      exact .tail (.single (.inr (.record hc hu name))) (.inl (.retain hu))
  | clearCache c => exact .single (.inr (.clear hp))
  | drainQueue c => exact .single (.inr (.drain hp))
  | registerPool c g values => exact .single (.inr (.pools hp fun p => p.register g values))
  | clearPools c => exact .single (.inr (.pools hp fun _ => .empty))
  | install h c u => exact .single (.inr (.install hp.1 (alive_of_mem_handles hp.2) c))
  | releaseHost h c => exact .single (.inr (.release hp c))
  | _ => exact absurd hw id

theorem perform_moves (hs : s.Consistent) (hp : cmd.Possible s) : Moves s (s.perform cmd).2 := by
  by_cases hw : cmd.WritesTables
  · exact perform_writes hw hp
  · exact (perform_changes hs hw hp).moves

-- ================================================================ units that are given

theorem load_alive {l : Loader} {scope : ResolutionScope} {link : Bool} (hs : s.Consistent)
    (hl : s.Holds l.path) (hscope : s.KnowsScope scope) (hu : (s.load l name link scope).1 = .ok u) :
    (s.load l name link scope).2.alive u = true := by
  obtain ⟨hsought, hsame | hlinked⟩ := load_ok hu
  · rw [hsame]
    exact (sought_outcome hs hl hscope name).alive (Answer.ofResolution_eq_unit.2 hsought)
  · rw [hlinked, alive_link]
    exact (sought_outcome hs hl hscope name).alive (Answer.ofResolution_eq_unit.2 hsought)

/-- What a command gives is alive. -/
theorem alive_of_perform (hs : s.Consistent) (hp : cmd.Possible s) (hu : (s.perform cmd).1 = .unit u) :
    (s.perform cmd).2.alive u = true := by
  cases cmd with
  | define | findResident | resolveViaChain | resolve | cached | findLoaded =>
    obtain ⟨f, ho⟩ := perform_outcome hs hp trivial
    exact ho.alive hu
  | load l name link scope =>
    refine load_alive hs hp.1 hp.2 ?_
    simp only [perform, answering] at hu
    cases he : (s.load l name link scope).1 with
    | error e => simp [he, Answer.ofResolution] at hu
    | ok v =>
      rw [he] at hu
      rw [Answer.unit.inj hu]
  | buildDetached d =>
    rw [← Answer.unit.inj hu]
    exact alive_withNew.2 (.inl rfl)
  | retain v =>
    rw [← Answer.unit.inj hu]
    exact alive_retain_iff.2 (.inl rfl)
  | insertCached c name make =>
    simp only [perform, answering, insertCached_eq hp.1] at hu ⊢
    cases hm : make (s.resident? c name) with
    | error e => simp [hm, Answer.ofLoad] at hu
    | ok v =>
      rw [hm] at hu
      rw [← Answer.unit.inj hu]
      exact alive_retain_iff.2 (.inl rfl)
  | loaderFromFile file content parent h =>
    cases he : (s.loaderFromFile file content parent h).1 <;>
      simp [perform, answering, he, Answer.ofLoader] at hu
  | registerConstants l g values =>
    cases he : (s.registerConstants l g values).1 <;>
      simp [perform, answering, he, Answer.ofStore] at hu
  | link h v => cases he : (s.link h v).1 <;> simp [perform, answering, he, Answer.ofHost] at hu
  | install h c v => cases he : (s.install h c v).1 <;> simp [perform, answering, he, Answer.ofHost] at hu
  | _ => simp [perform, answering] at hu

-- ================================================================ runs

/-- At the beginning there is the root context, and it is empty. -/
theorem context_initial (c : ContextId) (name : String) :
    (System.initial.context c).ancestors = [] ∧
      (System.initial.context c).cache.entries.get? name = none ∧
      (System.initial.context c).cache.queue = [] := by
  by_cases hc : c = .root
  · simp [System.initial, context, hc, Context.fresh, UnitCache.empty]
  · simp only [System.initial, context, Table.get?_insert, hc, ↓reduceIte, Table.get?_empty,
      Option.getD_none]
    exact ⟨rfl, rfl, rfl⟩

theorem knows_initial : System.initial.Knows c ↔ c = .root := by
  by_cases hc : c = .root <;> simp [System.initial, Knows, hc]

theorem Consistent.initial : System.initial.Consistent where
  unit_iff u := by
    simp only [Built, System.initial, Table.get?_empty, Table.size_empty, Option.isSome_none,
      Bool.false_eq_true, false_iff]
    omega
  unit_id hu := absurd hu (by simp [System.initial])
  unit_context hu := absurd hu (by simp [System.initial])
  context_iff c := by
    rw [knows_initial, System.initial, Table.size_insert, Table.get?_empty, Table.size_empty]
    cases c
    simp [ContextId.root]
  root := knows_initial.2 rfl
  ancestor {c a} ha := by
    rw [(context_initial c "").1] at ha
    exact absurd ha List.not_mem_nil
  host_iff h := by simp [HasHost, System.initial]
  published {h location name d} hp := by
    rw [show (System.initial.host h).published.get? (location, name) = none from rfl] at hp
    exact absurd hp (by simp)
  alive hu := absurd hu (by simp [System.alive, System.initial])
  entry {c name u} hu := by simp [(context_initial c name).2.1] at hu
  loaded {h c name u} hu := by
    rw [show (System.initial.host h).loaded.get? (c, name) = none from rfl] at hu
    exact absurd hu (by simp)
  notice {c n} hn := by simp [(context_initial c "").2.2] at hn
  dead {c n} hn := by simp [(context_initial c "").2.2] at hn
  ledger := ⟨[], ⟨.nil, by simp, by simp, by simp [System.initial], by simp⟩⟩
  older := by simp [System.initial]

end System

theorem Run.consistent (hr : Run permitted s cmds t) (hs : s.Consistent) : t.Consistent := by
  induction hr with
  | start => exact hs
  | step _ _ hp ih => exact (System.perform_moves ih hp).consistent ih

/-- Every state that a program can reach is consistent. -/
theorem System.Reachable.consistent (hr : s.Reachable permitted) : s.Consistent := by
  obtain ⟨cmds, hr⟩ := hr
  exact hr.consistent .initial

theorem Run.onward (hr : Run permitted s cmds t) (hs : s.Consistent) : s.Onward t := by
  induction hr with
  | start => exact .refl s
  | step hrun _ hp ih =>
    have hcon := Run.consistent hrun hs
    exact ih.trans ((System.perform_moves hcon hp).onward hcon)

/-- Once a unit is dead, no run gives it again. -/
theorem Run.answer_ne_dead (hr : Run permitted s cmds t) (hs : s.Consistent) (hb : s.Built u)
    (hdead : s.alive u = false) (hp : cmd.Possible t) : (t.perform cmd).1 ≠ .unit u := by
  intro hu
  have hcon := hr.consistent hs
  have honward : s.Onward (t.perform cmd).2 :=
    (hr.onward hs).trans ((System.perform_moves hcon hp).onward hcon)
  have hlive : s.alive u = true := honward.dead hb (System.alive_of_perform hcon hp hu)
  rw [hdead] at hlive
  exact absurd hlive (by simp)

end UnitLoading
