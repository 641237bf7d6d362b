/-
Locks: a resolution that chases references from object to object, with the locks that it holds.

# The walk

Each loader has a lock, which it takes when it is asked for a name and gives back with its answer, so while a
search is under way the loaders that it has come through are all locked. The locks are not to be taken twice:
whoever asks a loader whose lock it holds itself waits for ever. `walk` is the resolution as a program carries
it out, over the objects and their references. It knows neither a path nor a bound: it stops with `deadlock` at
a lock of its own, with `dangling` at a reference to nothing, and with `exhausted` when the number of steps that
it was given in advance has run out.

# Why nothing goes wrong

Every reference leads to an object that was made earlier (`Remembers.earlier`). So the numbers of the objects
on the way go down: a walk that has come through some loaders only meets older ones, whose locks it does not
hold, and from an object with number `n` it takes no more than `n` further steps. Where nothing goes wrong,
the walk does step by step what the resolution along the path does (`walk_eq`).
-/
import UnitLoading.Proofs.Objects

namespace UnitLoading

variable {s t : System} {c : ContextId} {h : HostId} {name : String} {id : LoaderId} {path : List Stop}
  {m : List Object} {cmds : List Command} {l : Loader}

-- ================================================================ searches that can come to a halt

/-- What can stop a walk. -/
inductive Halt where
  /-- It asks for a lock that it holds. -/
  | deadlock (id : LoaderId)
  /-- There is no such object. -/
  | dangling (id : LoaderId)
  /-- It has taken all the steps that it was allowed. -/
  | exhausted
  deriving DecidableEq, Repr

/-- A search that may come to a halt. -/
abbrev Walk := System → Except Halt (Except Failure (Option UnitId) × System)

namespace Walk

/-- A search that comes to no halt. -/
def lift (a : Search) : Walk := fun s => .ok (a s)

def halt (reason : Halt) : Walk := fun _ => .error reason

/-- The second search, if the first finds nothing. -/
def orElse (a b : Walk) : Walk := fun s =>
  match a s with
  | .ok (.ok none, s) => b s
  | r => r

/-- The search in which an error counts as finding nothing, but not a halt. -/
def forgiving (a : Walk) : Walk := fun s =>
  match a s with
  | .ok (.error (.error _), s) => .ok (.ok none, s)
  | r => r

theorem lift_orElse (a b : Search) : (lift a).orElse (lift b) = lift (a.orElse b) := by
  funext s
  unfold orElse lift Search.orElse
  obtain ⟨result, t, hr⟩ : ∃ result t, a s = (result, t) := ⟨_, _, rfl⟩
  rw [hr]
  cases result with
  | error e => rfl
  | ok found => cases found <;> rfl

theorem lift_forgiving (a : Search) : (lift a).forgiving = lift a.forgiving := by
  funext s
  unfold forgiving lift Search.forgiving
  obtain ⟨result, t, hr⟩ : ∃ result t, a s = (result, t) := ⟨_, _, rfl⟩
  rw [hr]
  cases result with
  | error e => cases e <;> rfl
  | ok found => rfl

end Walk

namespace System

-- ================================================================ walking over objects

/-- What a loader does under its lock, given how it asks the object behind it. -/
def underLock (name : String) (scope : Option ResolutionScope) (id : LoaderId) (c : ContextId) (h : HostId)
    (delegate : Walk) : Walk :=
  (Walk.lift (residentStep c name)).orElse <|
  (Walk.lift (loadedStep h c name)).orElse <|
  (Walk.lift (scopeStep scope name)).orElse <|
  delegate.orElse <|
  Walk.lift (supplyStep id c h name)

/-- What a foreign loader does, given how it asks the loader that it resolves through. It has no lock. -/
def withoutLock (name : String) (units : Table String UnitId) (raises : List String) (via : Walk) : Walk :=
  if name ∈ raises then Walk.lift fun s => (.error .raised, s)
  else (Walk.lift (ownedStep units name)).orElse via.forgiving

/-- Resolves a name from the object of a reference on, in at most so many steps. The locks in `held` are those
of the loaders that the search has come through. -/
def walk (m : List Object) (name : String) :
    Nat → List LoaderId → Option ResolutionScope → Option LoaderId → Walk
  | _, _, _, none => .lift .nothing
  | 0, _, _, some _ => .halt .exhausted
  | steps + 1, held, scope, some id =>
    match m[id.val]? with
    | none => .halt (.dangling id)
    | some (.foreign units raises via) => withoutLock name units raises (walk m name steps held (some .empty) via)
    | some (.dynamic c h parent) =>
      if id ∈ held then .halt (.deadlock id)
      else underLock name scope id c h (walk m name steps (id :: held) none parent)

/-- Resolves a name for a loader. The caller holds no lock. -/
def resolveFrom (m : List Object) (steps : Nat) (l : Loader) (name : String) (scope : ResolutionScope)
    (s : System) : Except Halt (Except Failure UnitId × System) :=
  (walk m name steps [] (some scope) (some l.id) s).map (settle l name)

/-- Resolves a name for execution. The host is asked under the lock that the resolution then goes on with. -/
def loadFrom (m : List Object) (steps : Nat) (l : Loader) (name : String) (link : Bool) (scope : ResolutionScope)
    (s : System) : Except Halt (Except Failure UnitId × System) :=
  match m[l.id.val]? with
  | some (.dynamic c h parent) =>
    let search := (Walk.lift (loadedStep h c name)).orElse
      (underLock name (some scope) l.id c h (walk m name steps [l.id] none parent))
    (search s).map fun r => match settle l name r with
      | (.ok u, t) => t.linkFound h u link
      | r => r
  | _ => .error (.dangling l.id)

/-- A loader that delegated to itself would wait for its own lock. -/
example : (resolveFrom [.dynamic .root ⟨0⟩ (some ⟨0⟩)] 5 .first "a" .empty System.rooted).map Prod.fst
    = .error (.deadlock ⟨0⟩) := rfl

-- ================================================================ no walk comes to a halt

/-- If asking the object behind a loader comes to no halt, asking the loader comes to none. -/
theorem underLock_lift (name : String) (scope : Option ResolutionScope) (id : LoaderId) (c : ContextId)
    (h : HostId) (rest : List Stop) : underLock name scope id c h (.lift (resolveAlong name none rest))
      = .lift (resolveAlong name scope (.dynamic id c h :: rest)) := by
  rw [underLock, Walk.lift_orElse, Walk.lift_orElse, Walk.lift_orElse, Walk.lift_orElse, resolveAlong_dynamic]

theorem withoutLock_lift (name : String) (scope : Option ResolutionScope) (id : LoaderId)
    (units : Table String UnitId) (raises : List String) (rest : List Stop) :
    withoutLock name units raises (.lift (resolveAlong name (some .empty) rest))
      = .lift (resolveAlong name scope (.foreign id units raises :: rest)) := by
  rw [withoutLock, Walk.lift_forgiving, Walk.lift_orElse, resolveAlong_foreign]
  split <;> rfl

section

variable {steps : Nat} (hearlier : ∀ (i : Nat) (o : Object), m[i]? = some o → ∀ j ∈ o.behind, j.val < i)
include hearlier

/-- From an object that is older than all whose locks are held, with steps enough for its number, the walk is
the resolution along the path that the references trace. -/
theorem walk_eq {behind : Option LoaderId} (ht : Traces m behind path) (name : String)
    (scope : Option ResolutionScope) (held : List LoaderId) (steps : Nat)
    (hheld : ∀ j ∈ behind, ∀ i ∈ held, j.val < i.val) (hsteps : ∀ j ∈ behind, j.val < steps) :
    walk m name steps held scope behind = .lift (resolveAlong name scope path) := by
  -- along the references: each one leads to an object below all that were passed and below the steps left
  induction ht generalizing scope held steps with
  | nil => rw [walk, resolveAlong]
  | @cons stop behind rest hm _ ih =>
    have hlower : ∀ j ∈ behind, j.val < stop.id.val := by
      have hobject := hearlier _ _ hm
      rwa [Stop.behind_object] at hobject
    have hstop := hsteps stop.id rfl
    obtain ⟨steps, rfl⟩ : ∃ n, steps = n + 1 := ⟨steps - 1, by omega⟩
    have hleft : ∀ j ∈ behind, j.val < steps := by
      intro j hj
      have := hlower j hj
      omega
    have hpassed : ∀ j ∈ behind, ∀ i ∈ held, j.val < i.val := by
      intro j hj i hi
      exact Nat.lt_trans (hlower j hj) (hheld stop.id rfl i hi)
    cases stop with
    | foreign id units raises =>
      have hobject : m[id.val]? = some (.foreign units raises behind) := hm
      show walk m name (steps + 1) held scope (some id) = _
      rw [walk, hobject]
      dsimp only
      rw [ih (some .empty) held steps hpassed hleft]
      exact withoutLock_lift ..
    | dynamic id c h =>
      have hobject : m[id.val]? = some (.dynamic c h behind) := hm
      have hfree : id ∉ held := fun hmem => Nat.lt_irrefl _ (hheld id rfl id hmem)
      have hlocked : ∀ j ∈ behind, ∀ i ∈ id :: held, j.val < i.val := by
        intro j hj i hi
        rcases List.mem_cons.1 hi with rfl | hi
        · exact hlower j hj
        · exact hpassed j hj i hi
      show walk m name (steps + 1) held scope (some id) = _
      rw [walk, hobject]
      dsimp only
      rw [if_neg hfree, ih none (id :: held) steps hlocked hleft]
      exact underLock_lift ..

theorem resolveFrom_eq (ht : Traces m (some l.id) l.path) (hsteps : l.id.val < steps) (name : String)
    (scope : ResolutionScope) (s : System) :
    resolveFrom m steps l name scope s = .ok (s.resolve l name scope) := by
  have hwalk := walk_eq hearlier ht name (some scope) [] steps
    (fun _ _ _ hi => absurd hi List.not_mem_nil) (fun j hj => by
      rw [← Option.some.inj hj]
      exact hsteps)
  rw [resolveFrom, hwalk]
  rfl

/-- The lock of the loader is held while the host is asked already, and nobody behind the loader needs it. -/
theorem loadFrom_eq (ht : Traces m (some l.id) l.path) (hsteps : l.id.val < steps) (name : String) (link : Bool)
    (scope : ResolutionScope) (s : System) :
    loadFrom m steps l name link scope s = .ok (s.load l name link scope) := by
  obtain ⟨behind, hobject, hrest⟩ : ∃ behind, m[l.id.val]? = some (.dynamic l.context l.host behind) ∧
      Traces m behind l.delegates := ht.uncons
  have hlower : ∀ j ∈ behind, j.val < l.id.val := hearlier _ _ hobject
  have hwalk := walk_eq hearlier hrest name none [l.id] steps
    (fun j hj i hi => by
      rw [List.mem_singleton.1 hi]
      exact hlower j hj)
    (fun j hj => Nat.lt_trans (hlower j hj) hsteps)
  rw [loadFrom, hobject]
  dsimp only
  rw [hwalk, underLock_lift, Walk.lift_orElse]
  rfl

end

/-- Delegation only ever leads to what was made earlier, and so every resolution and every load comes to an
end without asking for a lock that it holds. After any run the objects refer to earlier ones only, and
following the references from a loader that is held one comes by its delegation path. Whatever happens to
variables and handles later on, objects are only added: a walk from that loader, with a number of steps above
the number of the loader, always answers, and as the resolution or the load along its path does. -/
theorem delegation_safe (hr : Run Command.Public .initial cmds s) :
    (∀ (i : Nat) (o : Object), (memory cmds).1[i]? = some o → ∀ j ∈ o.behind, j.val < i) ∧
    (∀ l : Loader, s.Holds l.path → Traces (memory cmds).1 (some l.id) l.path) ∧
    ∀ more t, Run Command.Public s more t → (memory cmds).1 <+: (memory (cmds ++ more)).1 ∧
      ∀ l : Loader, s.Holds l.path → ∀ steps, l.id.val < steps → ∀ name scope,
        resolveFrom (memory (cmds ++ more)).1 steps l name scope t = .ok (t.resolve l name scope) ∧
          ∀ link, loadFrom (memory (cmds ++ more)).1 steps l name link scope t
            = .ok (t.load l name link scope) := by
  obtain ⟨-, hremembers⟩ := hr.remembers
  refine ⟨fun _ _ => hremembers.earlier, fun l hl => hremembers.traced hl, ?_⟩
  intro more t hmore
  obtain ⟨-, hlater⟩ := (hr.append hmore).remembers
  have hkept := memory_extends cmds more
  refine ⟨hkept, ?_⟩
  intro l hl steps hsteps name scope
  have htraced : Traces (memory (cmds ++ more)).1 (some l.id) l.path := by
    obtain ⟨added, hadded⟩ := hkept
    rw [← hadded]
    exact (hremembers.traced hl).append added
  exact ⟨resolveFrom_eq (fun _ _ => hlater.earlier) htraced hsteps name scope t,
    fun link => loadFrom_eq (fun _ _ => hlater.earlier) htraced hsteps name link scope t⟩

end System

/-- A foreign loader that resolves through the first loader, and a loader under it. -/
def ForeignLoader.relay : ForeignLoader := ⟨⟨1⟩, .empty, [], Loader.first.path⟩

def Loader.distant : Loader := ⟨⟨2⟩, ⟨1⟩, ⟨0⟩, ForeignLoader.relay.path⟩

namespace System

/-- A program that makes them. -/
def relaying : List Command :=
  [.newHost .none, .rootLoader ⟨0⟩, .define .first ⟨"a", [1], none⟩, .newForeign [] [] (some .first),
    .createLoader (.foreign .relay) [] ⟨0⟩]

/-- And then drops all but the last. -/
def dropping : List Command := [.letGo ForeignLoader.relay.path, .letGo Loader.first.path]

theorem run_relaying : Run Command.Public .initial relaying (memory relaying).2 := by
  refine .cons trivial trivial (.cons trivial rfl (.cons trivial ?_ (.cons trivial ⟨?_, ?_⟩
    (.cons trivial ⟨?_, rfl⟩ .start))))
  · exact holds_first
  · exact fun _ hu => absurd hu List.not_mem_nil
  · intro l hl
    cases hl
    exact holds_first
  · exact ⟨_, List.mem_cons_self, List.suffix_rfl⟩

theorem run_dropping : Run Command.Public (memory relaying).2 dropping (memory (relaying ++ dropping)).2 := by
  refine .cons trivial ?_ (.cons trivial ?_ .start)
  · exact List.mem_cons_of_mem _ List.mem_cons_self
  · exact List.mem_cons_of_mem _ List.mem_cons_self

/-- The loader that is left walks through the foreign one to the first, in three steps. -/
theorem delegation_safe_dropped :
    (memory relaying).1 = [.dynamic .root ⟨0⟩ none, .foreign .empty [] (some ⟨0⟩),
        .dynamic ⟨1⟩ ⟨0⟩ (some ⟨1⟩)] ∧
      (memory (relaying ++ dropping)).2.paths = [Loader.distant.path] ∧
      resolveFrom (memory (relaying ++ dropping)).1 3 .distant "a" .empty (memory (relaying ++ dropping)).2
        = .ok ((memory (relaying ++ dropping)).2.resolve .distant "a" .empty) ∧
      ((memory (relaying ++ dropping)).2.resolve .distant "a" .empty).1 = .ok ⟨1⟩ := by
  obtain ⟨-, -, hlater⟩ := delegation_safe run_relaying
  obtain ⟨-, hwalk⟩ := hlater dropping _ run_dropping
  have hheld : (memory relaying).2.Holds Loader.distant.path := ⟨_, List.mem_cons_self, List.suffix_rfl⟩
  exact ⟨rfl, rfl, (hwalk .distant hheld 3 (by decide) "a" .empty).1, rfl⟩

end System

end UnitLoading
