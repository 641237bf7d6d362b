/-
Runs: what a program can ask of the library, one command at a time, and the states that it can bring about.

# Commands and what they presuppose

A `Command` is one call with its arguments, and `System.perform` answers it with the operations of the
library; nothing is defined anew here. `Command.Possible` says what a program must have in its hands to
give a command: it names only contexts and hosts that were made, it uses a loader only while it holds one
whose delegation path leads there, and it passes, copies or drops a handle only if it has one. Every other
argument is free. A scope is a value, so pushing and popping overrides needs no command: a command takes
any scope over contexts that were made.

# Two kinds of run

`Command.WritesTables` singles out the commands that go past the loaders and write into a cache, a
constant pool or a host's table directly. Runs without them are the loader-level ones, in which everything
that a table says was put there by some loader; the runs of all commands are the public ones.
-/
import UnitLoading.System.Lifecycle

namespace UnitLoading

-- ================================================================ commands

/-- One call of a program. -/
inductive Command where
  -- making contexts, hosts and loaders
  | newContext (parent : ContextId)
  | newHost (refusals : Refusals)
  | newForeign (units : List (String × UnitId)) (raises : List String) (via : Option Loader)
  | rootLoader (host : HostId)
  | createLoader (parent : Parent) (locations : List String) (host : HostId)
  | loaderInContext (parent : Option Parent) (context : ContextId) (locations : List String) (host : HostId)
  | childLoader (l : Loader)
  | isolatedLoader (l : Loader)
  | configuredLoader (config : LoaderConfig) (parent : Option Parent) (host : HostId)
  | loaderFromFile (path : String) (file : FileState) (parent : Option Parent) (host : HostId)
  -- using a loader
  | publish (host : HostId) (location : String) (d : Definition)
  | addLocation (l : Loader) (location : String)
  | define (l : Loader) (d : Definition)
  | findResident (l : Loader) (name : String)
  | resolveViaChain (scope : ResolutionScope) (name : String)
  | resolve (l : Loader) (name : String) (scope : ResolutionScope)
  | load (l : Loader) (name : String) (link : Bool) (scope : ResolutionScope)
  | registerConstants (l : Loader) (g : GenerationId) (values : List Constant)
  | close (l : Loader)
  -- handles
  | buildDetached (d : Definition)
  | retain (u : UnitId)
  | release (u : UnitId)
  | hold (path : List Stop)
  | letGo (path : List Stop)
  -- looking into a table without a loader
  | cached (c : ContextId) (name : String)
  | sweep (c : ContextId)
  | findLoaded (h : HostId) (c : ContextId) (name : String)
  | link (h : HostId) (u : UnitId)
  | markLinked (u : UnitId)
  -- writing into a table without a loader
  | insertCached (c : ContextId) (name : String) (make : Option UnitId → Except LoadError UnitId)
  | clearCache (c : ContextId)
  | drainQueue (c : ContextId)
  | registerPool (c : ContextId) (g : GenerationId) (values : List Constant)
  | clearPools (c : ContextId)
  | install (h : HostId) (c : ContextId) (u : UnitId)
  | releaseHost (h : HostId) (c : ContextId)

/-- What a command is answered. Counts and flags are left out: no later command depends on them. -/
inductive Answer where
  | done
  /-- A unit, with a handle on it. -/
  | unit (u : UnitId)
  /-- No unit. -/
  | absent
  | failed (e : Failure)
  | context (c : ContextId)
  | host (h : HostId)
  | loader (l : Loader)
  | foreign (f : ForeignLoader)

namespace Answer

def ofLookup : Option UnitId → Answer
  | some u => unit u
  | none => absent

@[simp] theorem ofLookup_eq_unit {found : Option UnitId} {u : UnitId} :
    ofLookup found = unit u ↔ found = some u := by
  cases found <;> simp [ofLookup]

def ofSearch : Except Failure (Option UnitId) → Answer
  | .ok found => ofLookup found
  | .error e => failed e

def ofResolution : Except Failure UnitId → Answer
  | .ok u => unit u
  | .error e => failed e

@[simp] theorem ofResolution_eq_unit {r : Except Failure UnitId} {u : UnitId} :
    ofResolution r = unit u ↔ r = .ok u := by
  cases r <;> simp [ofResolution]

def ofLoad : Except LoadError UnitId → Answer
  | .ok u => unit u
  | .error e => failed (.error e)

def ofStore : Except LoadError Unit → Answer
  | .ok () => done
  | .error e => failed (.error e)

def ofHost : Except HostError Unit → Answer
  | .ok () => done
  | .error e => failed (.error (.host e))

def ofLoader : Except LoadError Loader → Answer
  | .ok l => loader l
  | .error e => failed (.error e)

end Answer

namespace System

-- ================================================================ performing

/-- Puts a unit that `make` chooses under a name of a cache. The caller gets a handle on it. -/
def insertCached (s : System) (c : ContextId) (name : String)
    (make : Option UnitId → Except LoadError UnitId) : Except LoadError UnitId × System :=
  match s.onCache c fun cache => cache.insertWith s.alive name make with
  | (.ok u, s) => (.ok u, s.retain u)
  | (.error e, s) => (.error e, s)

/-- Applies an operation to the constant pools of a context. -/
def onPools (s : System) (c : ContextId) (f : ConstantPools → ConstantPools) : System :=
  s.setContext c { s.context c with pools := f (s.context c).pools }

/-- Gives the answer in the form of commands. -/
def answering (f : α → Answer) (r : α × System) : Answer × System := (f r.1, r.2)

/-- Carries out a command. -/
def perform (s : System) : Command → Answer × System
  | .newContext parent => answering .context (s.newContext parent)
  | .newHost refusals => answering .host (s.newHost refusals)
  | .newForeign units raises via => answering .foreign (s.newForeign units raises via)
  | .rootLoader h => answering .loader (s.rootLoader h)
  | .createLoader parent locations h => answering .loader (s.createLoader parent locations h)
  | .loaderInContext parent c locations h => answering .loader (s.loaderInContext parent c locations h)
  | .childLoader l => answering .loader (s.childLoader l)
  | .isolatedLoader l => answering .loader (s.isolatedLoader l)
  | .configuredLoader config parent h => answering .loader (s.configuredLoader config parent h)
  | .loaderFromFile path file parent h => answering .ofLoader (s.loaderFromFile path file parent h)
  | .publish h location d => (.done, s.publish h location d)
  | .addLocation l location => (.done, s.addLocation l location)
  | .define l d => answering .ofLoad (s.define l d)
  | .findResident l name => answering .ofLookup (s.findResident l.context name)
  | .resolveViaChain scope name => answering .ofLookup (s.resolveViaChain scope name)
  | .resolve l name scope => answering .ofResolution (s.resolve l name scope)
  | .load l name link scope => answering .ofResolution (s.load l name link scope)
  | .registerConstants l g values => answering .ofStore (s.registerConstants l g values)
  | .close l => (.done, s.close l)
  | .buildDetached d => answering .unit (s.buildDetached d)
  | .retain u => (.unit u, s.retain u)
  | .release u => (.done, s.release u)
  | .hold path => (.done, s.hold path)
  | .letGo path => (.done, s.letGo path)
  | .cached c name => answering .ofLookup (s.cached c name)
  | .sweep c => answering (fun _ => .done) (s.sweep c)
  | .findLoaded h c name => answering .ofLookup (s.findLoaded h c name)
  | .link h u => answering .ofHost (s.link h u)
  | .markLinked u => answering (fun _ => .done) (s.markLinked u)
  | .insertCached c name make => answering .ofLoad (s.insertCached c name make)
  | .clearCache c => answering (fun _ => .done) (s.onCache c fun cache => ((), cache.clear))
  | .drainQueue c => answering (fun _ => .done) (s.onCache c UnitCache.drain)
  | .registerPool c g values => (.done, s.onPools c fun p => p.register g values)
  | .clearPools c => (.done, s.onPools c fun _ => .empty)
  | .install h c u => answering .ofHost (s.install h c u)
  | .releaseHost h c => (.done, s.releaseHost h c)

-- ================================================================ what a program holds

/-- Whether a context was made. -/
def Knows (s : System) (c : ContextId) : Prop := (s.contexts.get? c).isSome = true

/-- Whether a host was made. -/
def HasHost (s : System) (h : HostId) : Prop := (s.hosts.get? h).isSome = true

/-- Whether a delegation path is held, or is the rest of one that is held: a loader that is held keeps
everything it delegates to. -/
def Holds (s : System) (path : List Stop) : Prop := ∃ p ∈ s.paths, path <:+ p

/-- Whether all overrides of a scope were made. -/
def KnowsScope (s : System) (scope : ResolutionScope) : Prop := ∀ c ∈ scope.overrides, s.Knows c

/-- Whether the parent of a new loader, if it has one, is held. -/
def HoldsParent (s : System) (parent : Option Parent) : Prop := ∀ p ∈ parent, s.Holds p.path

end System

namespace Command

/-- What a program must have in its hands to give a command. -/
def Possible (s : System) : Command → Prop
  | newContext parent => s.Knows parent
  | newHost _ => True
  | newForeign units _ via => (∀ e ∈ units, e.2 ∈ s.handles) ∧ ∀ l ∈ via, s.Holds l.path
  | rootLoader h => s.HasHost h
  | createLoader parent _ h => s.Holds parent.path ∧ s.HasHost h
  | loaderInContext parent c _ h => s.HoldsParent parent ∧ s.Knows c ∧ s.HasHost h
  | childLoader l => s.Holds l.path
  | isolatedLoader l => s.Holds l.path
  | configuredLoader _ parent h => s.HoldsParent parent ∧ s.HasHost h
  | loaderFromFile _ _ parent h => s.HoldsParent parent ∧ s.HasHost h
  | publish h _ _ => s.HasHost h
  | addLocation l _ => s.Holds l.path
  | define l _ => s.Holds l.path
  | findResident l _ => s.Holds l.path
  | resolveViaChain scope _ => s.KnowsScope scope
  | resolve l _ scope => s.Holds l.path ∧ s.KnowsScope scope
  | load l _ _ scope => s.Holds l.path ∧ s.KnowsScope scope
  | registerConstants l _ _ => s.Holds l.path
  | close l => s.Holds l.path
  | buildDetached _ => True
  | retain u => u ∈ s.handles
  | release u => u ∈ s.handles
  | hold path => s.Holds path
  | letGo path => path ∈ s.paths
  | cached c _ => s.Knows c
  | sweep c => s.Knows c
  | findLoaded h _ _ => s.HasHost h
  | link h u => s.HasHost h ∧ u ∈ s.handles
  | markLinked u => u ∈ s.handles
  -- what `make` gives back is a handle, its own or the one that it was shown
  | insertCached c name make => s.Knows c ∧
      ∀ u, make ((s.context c).cache.live? s.alive name) = .ok u → s.alive u = true
  | clearCache c => s.Knows c
  | drainQueue c => s.Knows c
  | registerPool c _ _ => s.Knows c
  | clearPools c => s.Knows c
  | install h _ u => s.HasHost h ∧ u ∈ s.handles
  | releaseHost h _ => s.HasHost h

/-- Whether a command writes into a cache, a constant pool or the table of a host past the loaders. -/
def WritesTables : Command → Prop
  | insertCached .. | clearCache _ | drainQueue _ | registerPool .. | clearPools _ | install .. |
    releaseHost .. => True
  | _ => False

/-- Whether a command does nothing but look for a unit or define one. A load may link it as well. -/
def Searches : Command → Prop
  | define .. | findResident .. | resolveViaChain .. | resolve .. | cached .. | findLoaded .. => True
  | _ => False

/-- The commands of loader-level runs. -/
def LoaderLevel (cmd : Command) : Prop := ¬ cmd.WritesTables

/-- The commands of public runs: all. -/
def Public (_ : Command) : Prop := True

end Command

-- ================================================================ runs

/-- From `s`, the listed commands, each of them permitted and possible when its turn came, lead to the last
state. -/
inductive Run (permitted : Command → Prop) (s : System) : List Command → System → Prop
  | start : Run permitted s [] s
  | step {cmds : List Command} {t : System} {cmd : Command} :
      Run permitted s cmds t → permitted cmd → cmd.Possible t →
      Run permitted s (cmds ++ [cmd]) (t.perform cmd).2

/-- The states that runs of permitted commands reach from the beginning. -/
def System.Reachable (permitted : Command → Prop) (s : System) : Prop :=
  ∃ cmds, Run permitted .initial cmds s

variable {permitted also : Command → Prop} {s t : System} {cmds : List Command}

/-- A run of some commands is a run of any wider choice of them. -/
theorem Run.mono (h : ∀ cmd, permitted cmd → also cmd) (hr : Run permitted s cmds t) :
    Run also s cmds t := by
  induction hr with
  | start => exact .start
  | step _ hp hposs ih => exact .step ih (h _ hp) hposs

theorem Run.append {more : List Command} {r : System} (hr : Run permitted s cmds t)
    (hm : Run permitted t more r) : Run permitted s (cmds ++ more) r := by
  induction hm with
  | start =>
    rw [List.append_nil]
    exact hr
  | step _ hp hposs ih =>
    rw [← List.append_assoc]
    exact .step ih hp hposs

/-- A run can also be told from its first command on. -/
theorem Run.cons {cmd : Command} (hp : permitted cmd) (hposs : cmd.Possible s)
    (hr : Run permitted (s.perform cmd).2 cmds t) : Run permitted s (cmd :: cmds) t :=
  (Run.step .start hp hposs).append hr

theorem System.Reachable.step {cmd : Command} (h : s.Reachable permitted) (hc : permitted cmd)
    (hp : cmd.Possible s) : (s.perform cmd).2.Reachable permitted := by
  obtain ⟨cmds, hr⟩ := h
  exact ⟨_, hr.step hc hp⟩

/-- Every state that loader-level runs reach is reached by public ones. -/
theorem System.Reachable.public (h : s.Reachable permitted) : s.Reachable Command.Public := by
  obtain ⟨cmds, hr⟩ := h
  exact ⟨cmds, hr.mono fun _ _ => trivial⟩

-- ================================================================ looking back on a run

/-- The state that a list of commands leads to. -/
def System.after (s : System) : List Command → System
  | [] => s
  | cmd :: cmds => (s.perform cmd).2.after cmds

/-- Whether something is true of one of the commands and of the state in which its turn came. -/
def System.Sometime (p : System → Command → Prop) (s : System) : List Command → Prop
  | [] => False
  | cmd :: cmds => p s cmd ∨ (s.perform cmd).2.Sometime p cmds

theorem System.after_concat (s : System) (cmds : List Command) (cmd : Command) :
    s.after (cmds ++ [cmd]) = ((s.after cmds).perform cmd).2 := by
  induction cmds generalizing s with
  | nil => rfl
  | cons first cmds ih => exact ih (s.perform first).2

theorem System.sometime_concat {p : System → Command → Prop} (s : System) (cmds : List Command)
    (cmd : Command) : s.Sometime p (cmds ++ [cmd]) ↔ s.Sometime p cmds ∨ p (s.after cmds) cmd := by
  induction cmds generalizing s with
  | nil => exact or_comm
  | cons first cmds ih =>
    rw [List.cons_append, Sometime, Sometime, ih, or_assoc]
    rfl

theorem Run.after_eq (hr : Run permitted s cmds t) : s.after cmds = t := by
  induction hr with
  | start => rfl
  | step _ _ _ ih => rw [System.after_concat, ih]

/-- What every command leaves as it is or appends to is a beginning of what it comes to be. -/
theorem prefix_append {α : Type} {f : List Command → List α}
    (hone : ∀ cmds cmd, f cmds <+: f (cmds ++ [cmd])) (cmds more : List Command) :
    f cmds <+: f (cmds ++ more) := by
  induction more generalizing cmds with
  | nil => simp
  | cons cmd more ih =>
    have hrest := ih (cmds ++ [cmd])
    rw [List.append_assoc] at hrest
    exact (hone cmds cmd).trans hrest

-- ================================================================ how a program begins

/-- The state with one host, which takes everything, and a root loader. -/
def System.rooted : System :=
  ((System.initial.perform (.newHost .none)).2.perform (.rootLoader ⟨0⟩)).2

/-- That root loader. -/
def Loader.first : Loader := ⟨⟨0⟩, .root, ⟨0⟩, []⟩

theorem System.reachable_rooted : System.rooted.Reachable Command.LoaderLevel :=
  ⟨_, .step (.step .start id trivial) id rfl⟩

theorem System.holds_first : System.rooted.Holds Loader.first.path :=
  ⟨_, List.mem_cons_self, List.suffix_rfl⟩

/-- The state after that loader has defined a unit. -/
def System.stocked : System := (System.rooted.perform (.define .first ⟨"a", [1], none⟩)).2

theorem System.reachable_stocked : System.stocked.Reachable Command.LoaderLevel :=
  reachable_rooted.step id holds_first

theorem System.stocked_holds_first : System.stocked.Holds Loader.first.path := holds_first

end UnitLoading
