/-
Objects: the loaders of a program as objects in memory, with references to one another.

# Why

A loader carries the whole path that it delegates along, so what is said of paths might be thought to hold by
the choice of that form. Here the loaders are put down as a program has them: `memory` follows a run and sets
up one object for every loader that is made, with nothing but a reference to the object behind it, which is
the loader that the command names. Objects are listed in the order of their creation and never change or go,
whatever becomes of the variables and of the paths that are held.

# What a run keeps

`Remembers` relates the objects to the state. Every reference leads to an earlier object, and every path that
is held is what one comes by in following the references (`Traces`). A command makes one loader or none
(`perform_loaders`), so this is kept by each step and holds along every run (`Run.remembers`).
-/
import UnitLoading.Proofs.Atomicity
import UnitLoading.Proofs.Closing

namespace UnitLoading

variable {s t r : System} {c : ContextId} {h : HostId} {path rest delegates : List Stop} {f : Finding}
  {answer : Answer} {cmd : Command} {cmds : List Command} {permitted : Command → Prop}

-- ================================================================ objects and references

/-- A loader by itself. -/
inductive Object where
  /-- A loader with its context and its host, and its parent, if it has one. -/
  | dynamic (context : ContextId) (host : HostId) (parent : Option LoaderId)
  /-- A foreign loader with its units and the names it fails at, and the loader it resolves through, if any. -/
  | foreign (units : Table String UnitId) (raises : List String) (via : Option LoaderId)

/-- The reference to the object behind this one. -/
def Object.behind : Object → Option LoaderId
  | dynamic _ _ parent => parent
  | foreign _ _ via => via

/-- A stop by itself, with a reference to what is behind it. -/
def Stop.object (behind : Option LoaderId) : Stop → Object
  | dynamic _ c h => .dynamic c h behind
  | foreign _ units raises => .foreign units raises behind

theorem Stop.behind_object (behind : Option LoaderId) (stop : Stop) :
    (stop.object behind).behind = behind := by
  cases stop <;> rfl

/-- The reference to the first stop of a path. -/
def entry (path : List Stop) : Option LoaderId := path.head?.map Stop.id

def Parent.id : Parent → LoaderId
  | dynamic l => l.id
  | foreign f => f.id

theorem Parent.entry_path (p : Parent) : entry p.path = some p.id := by
  cases p <;> rfl

/-- The loader that a command names as the one behind a new one. -/
def Command.behind? : Command → Option LoaderId
  | createLoader parent .. => some parent.id
  | loaderInContext parent .. | configuredLoader _ parent _ | loaderFromFile _ _ parent _ => parent.map Parent.id
  | childLoader l | isolatedLoader l => some l.id
  | newForeign _ _ via => via.map Loader.id
  | _ => none

/-- The object of a loader that was made. -/
def Answer.object? (behind : Option LoaderId) : Answer → Option Object
  | loader l => some (.dynamic l.context l.host behind)
  | foreign f => some (.foreign f.units f.raises behind)
  | _ => none

/-- The objects after a list of commands, in the order of their creation, and the state that they lead to. -/
def System.memory (cmds : List Command) : List Object × System :=
  cmds.foldl (fun r cmd =>
    (r.1 ++ ((r.2.perform cmd).1.object? cmd.behind?).toList, (r.2.perform cmd).2)) ([], .initial)

theorem System.memory_append (cmds : List Command) (cmd : Command) :
    memory (cmds ++ [cmd]) = ((memory cmds).1 ++
      (((memory cmds).2.perform cmd).1.object? cmd.behind?).toList, ((memory cmds).2.perform cmd).2) := by
  rw [memory, List.foldl_append]
  rfl

-- ================================================================ following references

/-- The path that one comes by in following the references from an object on. -/
inductive Traces (m : List Object) : Option LoaderId → List Stop → Prop
  | nil : Traces m none []
  | cons {stop : Stop} {behind : Option LoaderId} {rest : List Stop}
      (hm : m[stop.id.val]? = some (stop.object behind)) (ht : Traces m behind rest) :
      Traces m (some stop.id) (stop :: rest)

variable {m : List Object} {o : Object} {from? : Option LoaderId}

/-- New objects do not come to lie on old paths. -/
theorem Traces.append (ht : Traces m from? path) (more : List Object) : Traces (m ++ more) from? path := by
  induction ht with
  | nil => exact .nil
  | cons hm _ ih =>
    obtain ⟨hlt, -⟩ := List.getElem?_eq_some_iff.1 hm
    exact .cons ((List.getElem?_append_left hlt).trans hm) ih

theorem Traces.uncons {stop : Stop} (ht : Traces m from? (stop :: rest)) :
    ∃ behind, m[stop.id.val]? = some (stop.object behind) ∧ Traces m behind rest := by
  cases ht with
  | cons hm hrest => exact ⟨_, hm, hrest⟩

namespace System

-- ================================================================ commands and loaders

/-- No loader was made, and none is held that was not held before. -/
def KeepsLoaders (s t : System) : Prop := t.loaderCount = s.loaderCount ∧ ∀ p ∈ t.paths, s.Holds p

/-- One loader was made, with nothing behind it or the rest of a path that was held. -/
structure AddsLoader (s t : System) (o : Object) : Prop where
  count : t.loaderCount = s.loaderCount + 1
  path : ∃ stop rest, t.paths = (stop :: rest) :: s.paths ∧ s.Extends rest ∧ stop.id = ⟨s.loaderCount⟩ ∧
    o = stop.object (entry rest)

theorem KeepsLoaders.of_eq (hcount : t.loaderCount = s.loaderCount) (hpaths : t.paths = s.paths) :
    s.KeepsLoaders t := by
  refine ⟨hcount, ?_⟩
  intro p hp
  rw [hpaths] at hp
  exact ⟨p, hp, List.suffix_rfl⟩

theorem Outcome.keepsLoaders (ho : Outcome s f answer t) (hs : s.Consistent) : s.KeepsLoaders t := by
  cases ho with
  | live ht | fresh ht | failure ht | nothing ht =>
    have hlife := ht.sameLife hs
    exact .of_eq hlife.loaderCount hlife.paths

/-- A search gives no loader. -/
theorem Outcome.object?_none (ho : Outcome s f answer t) (behind : Option LoaderId) :
    answer.object? behind = none := by
  cases ho <;> rfl

theorem load_keepsLoaders {l : Loader} {scope : ResolutionScope} {name : String} {link : Bool}
    (hs : s.Consistent) (hl : s.Holds l.path) (hscope : s.KnowsScope scope) :
    s.KeepsLoaders (s.load l name link scope).2 := by
  have hsearch := (sought_outcome hs hl hscope name).keepsLoaders hs
  cases he : (s.load l name link scope).1 with
  | error e =>
    have hlife := load_failed hs hl hscope he
    exact .of_eq hlife.loaderCount hlife.paths
  | ok u =>
    obtain ⟨-, hsame | hlinked⟩ := load_ok he
    · rw [hsame]
      exact hsearch
    · rw [hlinked]
      unfold System.link
      split
      · exact hsearch
      · split <;> exact hsearch

theorem letGo_keepsLoaders (s : System) (path : List Stop) : s.KeepsLoaders (s.letGo path) := by
  constructor
  · exact letGo_induction path (P := fun t => t.loaderCount = s.loaderCount) (fun t u ht => by
      rw [disown_eq]
      exact ht) rfl
  · intro p hp
    rw [letGo_eq, paths_foldl_abandon] at hp
    exact ⟨p, List.mem_of_mem_eraseP hp, List.suffix_rfl⟩

theorem newLoader_adds (hcount : r.loaderCount = s.loaderCount) (hpaths : r.paths = s.paths)
    (hd : s.Extends delegates) (c : ContextId) (h : HostId) (locations : List String) :
    s.AddsLoader (r.newLoader c h delegates locations).2 (.dynamic c h (entry delegates)) where
  count := congrArg (· + 1) hcount
  path := by
    refine ⟨.dynamic ⟨r.loaderCount⟩ c h, delegates, ?_, hd, ?_, rfl⟩
    · show _ :: r.paths = _
      rw [hpaths]
      rfl
    · rw [hcount]
      rfl

theorem newForeign_adds {units : List (String × UnitId)} {via : Option Loader}
    (hu : ∀ e ∈ units, e.2 ∈ s.handles) (hvia : ∀ l ∈ via, s.Holds l.path) (raises : List String) :
    s.AddsLoader (s.newForeign units raises via).2
      (.foreign (s.newForeign units raises via).1.units raises (via.map Loader.id)) := by
  obtain ⟨hpaths, hcount, -⟩ := adopt_frame units s hu
  have hd : s.Extends ((via.map Loader.path).getD []) := by
    cases via with
    | none => exact .inl rfl
    | some l => exact .inr (hvia l rfl)
  refine ⟨congrArg (· + 1) hcount, .foreign ⟨s.loaderCount⟩ (s.newForeign units raises via).1.units raises,
    _, ?_, hd, rfl, ?_⟩
  · simp only [System.newForeign, System.hold, ForeignLoader.path, hpaths, hcount]
  · cases via <;> rfl

/-- The delegates of a loader under a parent are the path of the parent. -/
theorem extends_parent {parent : Option Parent} (hp : s.HoldsParent parent) :
    s.Extends ((parent.map Parent.path).getD []) ∧
      entry ((parent.map Parent.path).getD []) = parent.map Parent.id := by
  cases parent with
  | none => exact ⟨.inl rfl, rfl⟩
  | some p => exact ⟨.inr (hp p rfl), p.entry_path⟩

/-- The answer is a loader, and its object is the one that was added. -/
def Makes (s : System) (behind : Option LoaderId) (r : Answer × System) : Prop :=
  ∃ o, r.1.object? behind = some o ∧ s.AddsLoader r.2 o

theorem newLoader_makes {behind : Option LoaderId} (hcount : r.loaderCount = s.loaderCount)
    (hpaths : r.paths = s.paths) (hd : s.Extends delegates) (hentry : entry delegates = behind) (c : ContextId)
    (h : HostId) (locations : List String) :
    s.Makes behind (answering .loader (r.newLoader c h delegates locations)) := by
  refine ⟨.dynamic c h behind, rfl, ?_⟩
  rw [← hentry]
  exact newLoader_adds hcount hpaths hd c h locations

/-- A fresh context that is made first is no loader. -/
theorem newLoader_fresh_makes {behind : Option LoaderId} (hd : s.Extends delegates)
    (hentry : entry delegates = behind) (parent : ContextId) (h : HostId) (locations : List String) :
    s.Makes behind
      (answering .loader ((s.newContext parent).2.newLoader (s.newContext parent).1 h delegates locations)) := by
  have hcount : (s.newContext parent).2.loaderCount = s.loaderCount := rfl
  have hpaths : (s.newContext parent).2.paths = s.paths := rfl
  exact newLoader_makes hcount hpaths hd hentry _ h locations

theorem configuredLoader_makes {parent : Option Parent} (hp : s.HoldsParent parent) (config : LoaderConfig)
    (h : HostId) :
    s.Makes (parent.map Parent.id) (answering .loader (s.configuredLoader config parent h)) := by
  obtain ⟨hd, hentry⟩ := extends_parent hp
  cases parent with
  | none => exact newLoader_makes rfl rfl hd hentry .root h config.searchLocations
  | some p =>
    cases p with
    | foreign f => exact newLoader_fresh_makes hd hentry .root h config.searchLocations
    | dynamic l =>
      unfold configuredLoader
      dsimp only
      split
      · exact newLoader_fresh_makes hd hentry l.context h config.searchLocations
      · exact newLoader_makes rfl rfl hd hentry l.context h config.searchLocations

/-- A command makes one loader and gives it, or it makes none. -/
theorem perform_loaders (hs : s.Consistent) (hp : cmd.Possible s) :
    s.Makes cmd.behind? (s.perform cmd) ∨
      ((s.perform cmd).1.object? cmd.behind? = none ∧ s.KeepsLoaders (s.perform cmd).2) := by
  have hidle : ∀ {t answer}, t.loaderCount = s.loaderCount → t.paths = s.paths →
      Answer.object? cmd.behind? answer = none → s.Makes cmd.behind? (answer, t) ∨
        (answer.object? cmd.behind? = none ∧ s.KeepsLoaders t) :=
    fun hcount hpaths hanswer => .inr ⟨hanswer, .of_eq hcount hpaths⟩
  cases cmd with
  | newForeign units raises via => exact .inl ⟨_, rfl, newForeign_adds hp.1 hp.2 raises⟩
  | rootLoader h => exact .inl (newLoader_makes rfl rfl (.inl rfl) rfl .root h [])
  | createLoader parent locations h =>
    have hentry : entry parent.path = some parent.id := parent.entry_path
    left
    cases parent with
    | dynamic l => exact newLoader_makes rfl rfl (.inr hp.1) hentry l.context h locations
    | foreign f => exact newLoader_fresh_makes (.inr hp.1) hentry .root h locations
  | loaderInContext parent c locations h =>
    obtain ⟨hd, hentry⟩ := extends_parent hp.1
    exact .inl (newLoader_makes rfl rfl hd hentry c h locations)
  | childLoader l => exact .inl (newLoader_makes rfl rfl (.inr hp) rfl l.context l.host [])
  | isolatedLoader l => exact .inl (newLoader_fresh_makes (.inr hp) rfl l.context l.host [])
  | configuredLoader config parent h => exact .inl (configuredLoader_makes hp.1 config h)
  | loaderFromFile file content parent h =>
    simp only [perform, answering, loaderFromFile]
    split
    · exact hidle rfl rfl rfl
    · exact .inl (configuredLoader_makes hp.1 _ h)
  | define | findResident | resolveViaChain | resolve | cached | findLoaded =>
    obtain ⟨f, ho⟩ := perform_outcome hs hp trivial
    exact .inr ⟨ho.object?_none _, ho.keepsLoaders hs⟩
  | load l name link scope =>
    refine .inr ⟨?_, load_keepsLoaders hs hp.1 hp.2⟩
    simp only [perform, answering]
    cases (s.load l name link scope).1 <;> rfl
  | registerConstants l g values =>
    simp only [perform, answering, registerConstants]
    split <;> exact hidle rfl rfl rfl
  | close l =>
    refine hidle ?_ ?_ rfl
    · rw [close_eq]
      split <;> rfl
    · rw [close_eq]
      split <;> rfl
  | release u =>
    refine hidle ?_ ?_ rfl
    · rw [release_eq]
    · rw [release_eq]
  | hold path =>
    refine .inr ⟨rfl, rfl, ?_⟩
    intro p hp'
    rcases List.mem_cons.1 hp' with rfl | hp'
    · exact hp
    · exact ⟨p, hp', List.suffix_rfl⟩
  | letGo path => exact .inr ⟨rfl, letGo_keepsLoaders s path⟩
  | link h u =>
    simp only [perform, answering, System.link]
    split
    · exact hidle rfl rfl rfl
    · split <;> exact hidle rfl rfl rfl
  | markLinked u =>
    simp only [perform, answering, System.markLinked]
    split <;> exact hidle rfl rfl rfl
  | insertCached c name make =>
    simp only [perform, answering, insertCached_eq hp.1]
    cases make (s.resident? c name) <;> exact hidle rfl rfl rfl
  | install h c u =>
    simp only [perform, answering, System.install]
    split
    · exact hidle rfl rfl rfl
    · split <;> exact hidle rfl rfl rfl
  | newContext | newHost | publish | addLocation | buildDetached | retain | sweep | clearCache | drainQueue |
    registerPool | clearPools | releaseHost => exact hidle rfl rfl rfl

-- ================================================================ every run

/-- The objects are those of the state: as many as loaders were made, each with nothing behind it or an
earlier one, and along the references from the first stop of a held path lies that path. -/
structure Remembers (s : System) (m : List Object) : Prop where
  length : m.length = s.loaderCount
  earlier {i : Nat} {o : Object} : m[i]? = some o → ∀ j ∈ o.behind, j.val < i
  traced {path : List Stop} : s.Holds path → Traces m (entry path) path

end System

/-- Following a reference leads into the objects. -/
theorem Traces.lt_length {j : LoaderId} (ht : Traces m (some j) path) : j.val < m.length := by
  cases ht with
  | cons hm _ => exact (List.getElem?_eq_some_iff.1 hm).1

namespace System

theorem Remembers.keeps (hm : s.Remembers m) (hk : s.KeepsLoaders t) : t.Remembers m where
  length := hm.length.trans hk.1.symm
  earlier := hm.earlier
  traced {path} hp := by
    obtain ⟨p, hp, hsuffix⟩ := hp
    exact hm.traced ((hk.2 p hp).suffix hsuffix)

theorem Remembers.adds (hm : s.Remembers m) (ha : s.AddsLoader t o) : t.Remembers (m ++ [o]) := by
  obtain ⟨hcount, stop, rest, hpaths, hrest, hid, rfl⟩ := ha
  have hlast : (m ++ [stop.object (entry rest)])[stop.id.val]? = some (stop.object (entry rest)) := by
    rw [hid, ← hm.length, List.getElem?_concat_length]
  have htraced : Traces m (entry rest) rest := by
    rcases hrest with rfl | hrest
    · exact .nil
    · exact hm.traced hrest
  refine ⟨?_, ?_, ?_⟩
  · rw [List.length_append, List.length_singleton, hm.length, hcount]
  · intro i o hi j hj
    by_cases hlt : i < m.length
    · rw [List.getElem?_append_left hlt] at hi
      exact hm.earlier hi j hj
    · -- the new object stands last, and what is behind it was there before
      have hend := (List.getElem?_eq_some_iff.1 hi).1
      rw [List.length_append, List.length_singleton] at hend
      obtain rfl : i = m.length := by omega
      rw [List.getElem?_concat_length] at hi
      rw [← Option.some.inj hi, Stop.behind_object] at hj
      rw [show entry rest = some j from hj] at htraced
      exact htraced.lt_length
  · intro path hp
    obtain ⟨p, hp, hsuffix⟩ := hp
    rw [hpaths] at hp
    have hold : s.Holds path → Traces (m ++ [stop.object (entry rest)]) (entry path) path :=
      fun hp => (hm.traced hp).append _
    rcases List.mem_cons.1 hp with rfl | hp
    · rcases List.suffix_cons_iff.1 hsuffix with rfl | hsuffix
      · exact .cons hlast (htraced.append _)
      · rcases hrest with rfl | hrest
        · rw [List.suffix_nil.1 hsuffix]
          exact .nil
        · exact hold (hrest.suffix hsuffix)
    · exact hold ⟨p, hp, hsuffix⟩

theorem Remembers.step (hm : s.Remembers m) (hs : s.Consistent) (hp : cmd.Possible s) :
    (s.perform cmd).2.Remembers (m ++ ((s.perform cmd).1.object? cmd.behind?).toList) := by
  rcases perform_loaders hs hp with ⟨o, ho, hadds⟩ | ⟨hnone, hkeeps⟩
  · rw [ho]
    exact hm.adds hadds
  · rw [hnone, Option.toList_none, List.append_nil]
    exact hm.keeps hkeeps

end System

/-- Along every run the objects are those of the state. -/
theorem Run.remembers (hr : Run permitted .initial cmds s) :
    (System.memory cmds).2 = s ∧ s.Remembers (System.memory cmds).1 := by
  induction hr with
  | start =>
    refine ⟨rfl, rfl, ?_, ?_⟩
    · intro i o hi
      cases hi
    · intro path hp
      obtain ⟨p, hp, -⟩ := hp
      exact absurd hp List.not_mem_nil
  | step hrest hallowed hp ih =>
    obtain ⟨hstate, hremembers⟩ := ih
    rw [System.memory_append, hstate]
    exact ⟨rfl, hremembers.step (hrest.consistent .initial) hp⟩

/-- Objects neither change nor go. -/
theorem System.memory_extends (cmds more : List Command) : (memory cmds).1 <+: (memory (cmds ++ more)).1 := by
  refine prefix_append (f := fun cmds => (memory cmds).1) (fun cmds cmd => ?_) cmds more
  rw [memory_append]
  exact List.prefix_append ..

end UnitLoading
