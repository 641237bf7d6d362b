/-
The history of the constant pools: what a loader gets for a generation, told from the commands before.

# Which commands matter

A pool is stored by a registration that succeeds, through any loader over the context, and is dropped when the
context is closed. No other command through the loaders reaches a constant table (`perform_unmoved`): units
are defined, found, linked, swept and dropped without it, and a registration under another generation or in
another context, or a close of another context, leaves it alone too (`pools_of_neither`). So what a loader
gets for a generation is what was last registered for it (`Run.lastRegistered_iff`).

# Pools that were handed out

A loader hands out a reference to an array, and a table has references too. `Arrays` puts them down as a
program has them in memory: each registration sets up a new array, and the table then refers to that one
(`Run.backed`). An array is never written again, so a reference that was handed out leads to the same values
for ever, whatever becomes of the table (`System.stored_extends`).
-/
import UnitLoading.Proofs.Confinement

namespace UnitLoading

variable {s t : System} {c : ContextId} {g : GenerationId} {l : Loader} {values : List Constant}
  {cmd : Command} {cmds : List Command}

namespace Command

/-- Whether a command stores or drops constant pools. -/
def ReachesPools : Command → Prop
  | registerConstants .. | close _ | registerPool .. | clearPools _ => True
  | _ => False

/-- Whether a command that is given in a state stores these values for a generation in a context: some loader
over the context registers them, with success. -/
def Registers (s : System) (c : ContextId) (g : GenerationId) (values : List Constant) (cmd : Command) : Prop :=
  ∃ l, cmd = .registerConstants l g values ∧ l.context = c ∧ (s.perform cmd).1 = .done

/-- Whether a command closes a context through some loader. The root cannot be closed. -/
def Closes (c : ContextId) (cmd : Command) : Prop := ∃ l, cmd = .close l ∧ l.context = c ∧ c ≠ .root

end Command

/-- These are the values that the commands registered last for a generation in a context, and the context has
not been closed since. -/
inductive LastRegistered (c : ContextId) (g : GenerationId) (values : List Constant) : List Command → Prop
  | here {cmds : List Command} {cmd : Command}
      (hregisters : cmd.Registers (System.initial.after cmds) c g values) :
      LastRegistered c g values (cmds ++ [cmd])
  | still {cmds : List Command} {cmd : Command} (hlast : LastRegistered c g values cmds)
      (hnone : ∀ other, ¬ cmd.Registers (System.initial.after cmds) c g other) (hopen : ¬ cmd.Closes c) :
      LastRegistered c g values (cmds ++ [cmd])

theorem not_lastRegistered_nil : ¬ LastRegistered c g values [] := by
  intro hlast
  obtain ⟨cmds, hcmds⟩ : ∃ cmds, cmds = ([] : List Command) := ⟨_, rfl⟩
  rw [← hcmds] at hlast
  cases hlast with
  | here | still => exact List.append_ne_nil_of_right_ne_nil _ (List.cons_ne_nil _ _) hcmds

theorem lastRegistered_concat : LastRegistered c g values (cmds ++ [cmd]) ↔
    cmd.Registers (System.initial.after cmds) c g values ∨
      LastRegistered c g values cmds ∧
        (∀ other, ¬ cmd.Registers (System.initial.after cmds) c g other) ∧ ¬ cmd.Closes c := by
  constructor
  · intro hlast
    obtain ⟨whole, hwhole⟩ : ∃ whole, whole = cmds ++ [cmd] := ⟨_, rfl⟩
    rw [← hwhole] at hlast
    cases hlast with
    | here hregisters =>
      obtain ⟨rfl, hcmd⟩ := List.append_inj' hwhole rfl
      rw [← List.singleton_inj.1 hcmd]
      exact .inl hregisters
    | still hlast hnone hopen =>
      obtain ⟨rfl, hcmd⟩ := List.append_inj' hwhole rfl
      rw [← List.singleton_inj.1 hcmd]
      exact .inr ⟨hlast, hnone, hopen⟩
  · rintro (hregisters | ⟨hlast, hnone, hopen⟩)
    · exact .here hregisters
    · exact .still hlast hnone hopen

namespace System

-- ================================================================ commands that leave pools alone

/-- A command through the loaders that neither registers constants nor closes leaves all contexts open or
closed as they were and with the same pools. -/
theorem perform_unmoved (hs : s.Consistent) (hl : cmd.LoaderLevel) (hp : cmd.Possible s)
    (hreach : ¬ cmd.ReachesPools) (a : ContextId) : s.Unmoved (s.perform cmd).2 a := by
  have hfresh : ∀ parent, s.Unmoved (s.newContext parent).2 a := fun parent =>
    unmoved_newContext hs.toNumbered parent a
  have hconfigured : ∀ config parent h, s.Unmoved (s.configuredLoader config parent h).2 a := by
    intro config parent h
    unfold configuredLoader
    split
    · exact .of_context rfl
    · split
      · exact hfresh _
      · exact .of_context rfl
    · exact hfresh _
  cases cmd with
  | define | findResident | resolveViaChain | resolve | cached | findLoaded =>
    obtain ⟨f, ho⟩ := perform_outcome hs hp trivial
    exact (ho.context hs a).1
  | load l name link scope =>
    obtain ⟨hspares, -⟩ := load_confined hs hp.1 hp.2 name link
    exact ⟨hspares.closed a, hspares.pools a⟩
  | newContext parent => exact hfresh parent
  | newForeign units raises via => exact unmoved_newForeign hp.1 raises via a
  | createLoader parent locations h =>
    cases parent with
    | dynamic l => exact .of_context rfl
    | foreign f => exact hfresh .root
  | childLoader l => exact .of_context rfl
  | isolatedLoader l => exact hfresh l.context
  | configuredLoader config parent h => exact hconfigured config parent h
  | loaderFromFile file content parent h =>
    simp only [perform, answering, loaderFromFile]
    split
    · exact .of_context rfl
    · exact hconfigured _ parent h
  | release u => exact unmoved_release s u a
  | letGo path => exact unmoved_letGo s path a
  | sweep c =>
    have hlife := (Upkeep.sweep hp).sameLife hs
    exact ⟨hlife.closed a, hlife.pools a⟩
  | link h u => exact .of_context (context_link ..)
  | markLinked u => exact .of_context (context_markLinked s u a)
  | newHost | rootLoader | loaderInContext | publish | addLocation | buildDetached | retain | hold =>
    exact .of_context rfl
  | registerConstants | close => exact absurd trivial hreach
  | insertCached | clearCache | drainQueue | registerPool | clearPools | install | releaseHost =>
    exact absurd trivial hl

-- ================================================================ registrations and closes

/-- A registration succeeds exactly in an open context. -/
theorem registered_iff : (s.perform (.registerConstants l g values)).1 = .done ↔
    (s.context l.context).closed = false := by
  simp only [perform, answering, registerConstants]
  cases (s.context l.context).closed <;> simp [Answer.ofStore]

/-- The pools after a registration in an open context: one is new or replaced. -/
theorem constants_registered (hopen : (s.context l.context).closed = false) (a : ContextId)
    (x : GenerationId) : (((s.perform (.registerConstants l g values)).2.context a).pools.get? x)
      = if a = l.context ∧ x = g then some values else (s.context a).pools.get? x := by
  simp only [perform, answering, registerConstants, hopen]
  rw [if_neg Bool.false_ne_true, context_setContext]
  by_cases ha : a = l.context
  · rw [if_pos ha, ConstantPools.get?_register, ha]
    simp only [true_and]
  · rw [if_neg ha, if_neg fun e => ha e.1]

theorem register_of_closed (hclosed : (s.context l.context).closed = true) :
    (s.perform (.registerConstants l g values)).2 = s := by
  simp only [perform, answering, registerConstants, hclosed]
  rfl

/-- The pools after a close: those of its context are gone, unless that is the root. -/
theorem constants_closed (hd : s.Drained) (l : Loader) (a : ContextId) (x : GenerationId) :
    ((s.perform (.close l)).2.context a).pools.get? x
      = if a = l.context ∧ a ≠ .root then none else (s.context a).pools.get? x := by
  show ((s.close l).context a).pools.get? x = _
  rw [close_eq]
  split
  · next hguard =>
    rw [Bool.or_eq_true, ContextId.isRoot, decide_eq_true_eq] at hguard
    split
    · next hplace =>
      obtain ⟨rfl, hroot⟩ := hplace
      rw [hd _ (hguard.resolve_left hroot)]
      rfl
    · rfl
  · next hguard =>
    rw [Bool.or_eq_true, ContextId.isRoot, decide_eq_true_eq, not_or] at hguard
    have hcontext : (s.shut l.context l.host).context a
        = if a = l.context then (s.context l.context).close else s.context a := context_setContext ..
    rw [hcontext]
    by_cases ha : a = l.context
    · rw [if_pos ha, if_pos ⟨ha, by rw [ha]; exact hguard.1⟩]
      rfl
    · rw [if_neg ha, if_neg fun e => ha e.1]

theorem pools_of_registers (hcmd : cmd.Registers s c g values) :
    ((s.perform cmd).2.context c).pools.get? g = some values := by
  obtain ⟨l, rfl, rfl, hdone⟩ := hcmd
  rw [constants_registered (registered_iff.1 hdone), if_pos ⟨rfl, rfl⟩]

theorem pools_of_closes (hd : s.Drained) (hcmd : cmd.Closes c) :
    ((s.perform cmd).2.context c).pools.get? g = none := by
  obtain ⟨l, rfl, rfl, hroot⟩ := hcmd
  rw [constants_closed hd, if_pos ⟨rfl, hroot⟩]

/-- Nothing else that is done through the loaders changes the pool of a generation in a context. -/
theorem pools_of_neither (hs : s.Consistent) (hd : s.Drained) (hl : cmd.LoaderLevel) (hp : cmd.Possible s)
    (hnone : ∀ values, ¬ cmd.Registers s c g values) (hopen : ¬ cmd.Closes c) :
    ((s.perform cmd).2.context c).pools.get? g = (s.context c).pools.get? g := by
  by_cases hreach : cmd.ReachesPools
  · cases cmd with
    | registerConstants l x values =>
      cases hclosed : (s.context l.context).closed with
      | true => rw [register_of_closed hclosed]
      | false =>
        rw [constants_registered hclosed, if_neg]
        rintro ⟨rfl, rfl⟩
        exact hnone values ⟨l, rfl, rfl, registered_iff.2 hclosed⟩
    | close l =>
      rw [constants_closed hd, if_neg]
      rintro ⟨rfl, hroot⟩
      exact hopen ⟨l, rfl, rfl, hroot⟩
    | registerPool | clearPools => exact absurd trivial hl
    | _ => exact absurd hreach id
  · rw [(perform_unmoved hs hl hp hreach c).2]

/-- At the beginning there are no pools. -/
theorem pools_initial (c : ContextId) (g : GenerationId) : (initial.context c).pools.get? g = none := by
  have hempty : (initial.context c).pools = .empty := by
    by_cases hc : c = .root
    · simp [initial, context, hc, Context.fresh]
    · simp only [initial, context, Table.get?_insert, hc, ↓reduceIte, Table.get?_empty, Option.getD_none]
      rfl
  rw [hempty, ConstantPools.get?_empty]

end System

-- ================================================================ every run

/-- Along every run a context has for a generation what was last registered for it. -/
theorem Run.lastRegistered_iff (hr : Run Command.LoaderLevel .initial cmds s) (c : ContextId)
    (g : GenerationId) (values : List Constant) :
    (s.context c).pools.get? g = some values ↔ LastRegistered c g values cmds := by
  induction hr generalizing values with
  | start =>
    rw [System.pools_initial]
    exact iff_of_false (Option.some_ne_none values ∘ Eq.symm) not_lastRegistered_nil
  | @step cmds t cmd hrun hl hp ih =>
    have hs := hrun.consistent .initial
    have hd : t.Drained := System.Reachable.drained ⟨_, hrun⟩
    rw [lastRegistered_concat, hrun.after_eq, ← ih]
    by_cases hregisters : ∃ stored, cmd.Registers t c g stored
    · obtain ⟨stored, hstored⟩ := hregisters
      rw [System.pools_of_registers hstored, Option.some.injEq]
      constructor
      · rintro rfl
        exact .inl hstored
      · rintro (⟨l, hcmd, -⟩ | ⟨-, hnone, -⟩)
        · obtain ⟨k, rfl, -⟩ := hstored
          cases hcmd
          rfl
        · exact absurd hstored (hnone stored)
    · have hnone : ∀ stored, ¬ cmd.Registers t c g stored := fun stored hstored => hregisters ⟨stored, hstored⟩
      rw [or_iff_right (hnone values)]
      by_cases hcloses : cmd.Closes c
      · rw [System.pools_of_closes hd hcloses]
        exact iff_of_false (Option.some_ne_none values ∘ Eq.symm) fun h => h.2.2 hcloses
      · rw [System.pools_of_neither hs hd hl hp hnone hcloses]
        exact ⟨fun h => ⟨h, hnone, hcloses⟩, fun h => h.1⟩

-- ================================================================ arrays and references

/-- The arrays of constants that were set up, in the order of their registration, and the place of the one
that the table of a context refers to for a generation. -/
structure Arrays where
  stored : List (List Constant)
  refers : ContextId → GenerationId → Option Nat

/-- The arrays after one more command. A registration in an open context sets up a new array and has the table
refer to it; a close of a context other than the root drops the references of its table. -/
def Arrays.next (m : Arrays) (s : System) : Command → Arrays
  | .registerConstants l g values =>
    if (s.context l.context).closed then m
    else
      { stored := m.stored ++ [values]
        refers := fun c x => if c = l.context ∧ x = g then some m.stored.length else m.refers c x }
  | .close l =>
    { m with refers := fun c x => if c = l.context ∧ c ≠ .root then none else m.refers c x }
  | _ => m

/-- The arrays after a list of commands, and the state that they lead to. -/
def System.arrays (cmds : List Command) : Arrays × System :=
  cmds.foldl (fun r cmd => (r.1.next r.2 cmd, (r.2.perform cmd).2)) (⟨[], fun _ _ => none⟩, .initial)

theorem System.arrays_append (cmds : List Command) (cmd : Command) :
    arrays (cmds ++ [cmd])
      = ((arrays cmds).1.next (arrays cmds).2 cmd, ((arrays cmds).2.perform cmd).2) := by
  rw [arrays, List.foldl_append]
  rfl

/-- The references lead to arrays, and these have the values of the state. -/
structure Backed (s : System) (m : Arrays) : Prop where
  view (c : ContextId) (g : GenerationId) :
    (s.context c).pools.get? g = (m.refers c g).bind fun i => m.stored[i]?
  placed {c : ContextId} {g : GenerationId} {i : Nat} : m.refers c g = some i → i < m.stored.length

variable {m : Arrays}

theorem Arrays.next_of_not_reachesPools (hl : cmd.LoaderLevel) (hreach : ¬ cmd.ReachesPools) :
    m.next s cmd = m := by
  cases cmd with
  | registerConstants | close => exact absurd trivial hreach
  | registerPool | clearPools => exact absurd trivial hl
  | _ => rfl

theorem Backed.register (hm : Backed s m) (l : Loader) (g : GenerationId) (values : List Constant) :
    Backed (s.perform (.registerConstants l g values)).2 (m.next s (.registerConstants l g values)) := by
  by_cases hclosed : (s.context l.context).closed = true
  · rw [System.register_of_closed hclosed, Arrays.next, if_pos hclosed]
    exact hm
  · rw [Arrays.next, if_neg hclosed]
    rw [Bool.not_eq_true] at hclosed
    refine ⟨fun c x => ?_, fun {c x i} hi => ?_⟩
    · rw [System.constants_registered hclosed]
      dsimp only
      split
      · exact (List.getElem?_concat_length ..).symm
      · -- an array that was there stays at its place
        rw [hm.view]
        cases hi : m.refers c x with
        | none => rfl
        | some i => exact (List.getElem?_append_left (hm.placed hi)).symm
    · rw [List.length_append, List.length_singleton]
      dsimp only at hi
      split at hi
      · rw [← Option.some.inj hi]
        exact Nat.lt_succ_self _
      · exact Nat.lt_succ_of_lt (hm.placed hi)

theorem Backed.close (hm : Backed s m) (hd : s.Drained) (l : Loader) :
    Backed (s.perform (.close l)).2 (m.next s (.close l)) := by
  refine ⟨fun c x => ?_, fun {c x i} hi => ?_⟩
  · rw [System.constants_closed hd]
    show _ = (if c = l.context ∧ c ≠ .root then none else m.refers c x).bind _
    split
    · rfl
    · exact hm.view c x
  · change (if c = l.context ∧ c ≠ .root then none else m.refers c x) = some i at hi
    split at hi
    · cases hi
    · exact hm.placed hi

theorem Backed.step (hm : Backed s m) (hs : s.Consistent) (hd : s.Drained) (hl : cmd.LoaderLevel)
    (hp : cmd.Possible s) : Backed (s.perform cmd).2 (m.next s cmd) := by
  by_cases hreach : cmd.ReachesPools
  · cases cmd with
    | registerConstants l g values => exact hm.register l g values
    | close l => exact hm.close hd l
    | registerPool | clearPools => exact absurd trivial hl
    | _ => exact absurd hreach id
  · rw [Arrays.next_of_not_reachesPools hl hreach]
    refine ⟨fun c g => ?_, hm.placed⟩
    rw [(System.perform_unmoved hs hl hp hreach c).2]
    exact hm.view c g

/-- Along every run the references lead to what the tables say. -/
theorem Run.backed (hr : Run Command.LoaderLevel .initial cmds s) :
    (System.arrays cmds).2 = s ∧ Backed s (System.arrays cmds).1 := by
  induction hr with
  | start =>
    refine ⟨rfl, fun c g => ?_, fun hi => ?_⟩
    · rw [System.pools_initial]
      rfl
    · cases hi
  | step hrun hl hp ih =>
    obtain ⟨hstate, hbacked⟩ := ih
    rw [System.arrays_append, hstate]
    exact ⟨rfl, hbacked.step (hrun.consistent .initial) (System.Reachable.drained ⟨_, hrun⟩) hl hp⟩

theorem Arrays.stored_next (m : Arrays) (s : System) (cmd : Command) :
    m.stored <+: (m.next s cmd).stored := by
  unfold Arrays.next
  split
  · split
    · exact List.prefix_rfl
    · exact List.prefix_append ..
  · exact List.prefix_rfl
  · exact List.prefix_rfl

/-- Arrays neither change nor go, whatever is done. -/
theorem System.stored_extends (cmds more : List Command) :
    (arrays cmds).1.stored <+: (arrays (cmds ++ more)).1.stored := by
  refine prefix_append (f := fun cmds => (arrays cmds).1.stored) (fun cmds cmd => ?_) cmds more
  rw [arrays_append]
  exact Arrays.stored_next ..

namespace System

-- ================================================================ the history of a pool

/-- What a loader gets for a generation is what some loader over its context registered last for it, with the
context not closed since; a registration succeeds exactly while the context is open. Nothing but a registration
for that generation in that context and a close of that context changes it. And what was once handed out is an
array that keeps its values, whatever is done afterwards. -/
theorem constants_last_registered (hr : Run Command.LoaderLevel .initial cmds s) (l : Loader)
    (g : GenerationId) :
    (∀ values, s.constants? l g = some values ↔ LastRegistered l.context g values cmds) ∧
    (∀ values, (s.perform (.registerConstants l g values)).1 = .done ↔
      (s.context l.context).closed = false) ∧
    (∀ cmd : Command, cmd.LoaderLevel → cmd.Possible s →
      (∀ values, ¬ cmd.Registers s l.context g values) → ¬ cmd.Closes l.context →
      (s.perform cmd).2.constants? l g = s.constants? l g) ∧
    (∀ values, s.constants? l g = some values → ∃ i, (arrays cmds).1.refers l.context g = some i ∧
      ∀ more, (arrays (cmds ++ more)).1.stored[i]? = some values) := by
  have hs : s.Consistent := hr.consistent .initial
  have hd : s.Drained := Reachable.drained ⟨_, hr⟩
  refine ⟨hr.lastRegistered_iff l.context g, fun values => registered_iff, ?_, fun values hvalues => ?_⟩
  · intro cmd hl hp hnone hopen
    exact pools_of_neither hs hd hl hp hnone hopen
  · obtain ⟨-, hbacked⟩ := hr.backed
    obtain ⟨i, hi, hstored⟩ := Option.bind_eq_some_iff.1 ((hbacked.view l.context g).symm.trans hvalues)
    refine ⟨i, hi, fun more => ?_⟩
    obtain ⟨later, hlater⟩ := stored_extends cmds more
    rw [← hlater, List.getElem?_append_left (hbacked.placed hi)]
    exact hstored

end System

/-- A loader that shares the context of the nested one. -/
def Loader.sharing : Loader := ⟨⟨2⟩, ⟨1⟩, ⟨0⟩, Loader.nested.path⟩

namespace System

/-- A program that makes both loaders and stores a pool through the nested one. -/
def pooling : List Command :=
  [.newHost .none, .rootLoader ⟨0⟩, .isolatedLoader .first, .childLoader .nested,
    .registerConstants .nested ⟨1⟩ [.int 1]]

theorem run_pooling : Run Command.LoaderLevel .initial pooling (initial.after pooling) :=
  .cons id trivial (.cons id rfl (.cons id ⟨_, List.mem_cons_self, List.suffix_rfl⟩
    (.cons id ⟨_, List.mem_cons_self, List.suffix_rfl⟩
      (.cons id ⟨_, List.mem_cons_of_mem _ List.mem_cons_self, List.suffix_rfl⟩ .start))))

/-- Both loaders get the pool. Then it is replaced through the other loader and the context is closed, and the
array that was handed out still has the values that it had. -/
theorem constants_last_registered_pooling :
    let s := initial.after pooling
    let more : List Command := [.registerConstants .sharing ⟨1⟩ [.int 2], .close .nested]
    LastRegistered ⟨1⟩ ⟨1⟩ [.int 1] pooling ∧ s.constants? .sharing ⟨1⟩ = some [.int 1] ∧
      (s.after more).constants? .sharing ⟨1⟩ = none ∧
      ∃ i, (arrays pooling).1.refers ⟨1⟩ ⟨1⟩ = some i ∧
        (arrays (pooling ++ more)).1.stored[i]? = some [.int 1] := by
  intro s more
  obtain ⟨hlast, -, -, harray⟩ := constants_last_registered run_pooling .sharing ⟨1⟩
  have hpool : s.constants? .sharing ⟨1⟩ = some [.int 1] := rfl
  obtain ⟨i, hi, hstored⟩ := harray _ hpool
  exact ⟨(hlast _).1 hpool, hpool, rfl, i, hi, hstored more⟩

end System

end UnitLoading
