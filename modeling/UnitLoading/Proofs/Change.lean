/-
Changes: the single steps that every command is made of.

# The inversion

`Change` has one constructor for each way in which a command that goes through the loaders can change a
state, with the guard under which it does; `Write` has one for each way of writing into a table directly.
Every command is some of these steps, so what a run keeps is shown by one case for each constructor, and
neither the delegation of a resolution nor the fold of a foreign loader is seen again.

# What every step keeps

Every step leads from a consistent state to a consistent one (`Change.consistent`, `Write.consistent`), and
in no step does a dead unit come back (`Change.onward`, `Write.onward`).
-/
import UnitLoading.Proofs.Resolving

namespace UnitLoading

variable {s t : System} {c : ContextId} {h : HostId} {name : String} {u : UnitId} {d : Definition}
  {path : List Stop}

namespace System

-- ================================================================ single steps

/-- Closes a context and has a host forget it. -/
def shut (s : System) (c : ContextId) (h : HostId) : System :=
  (s.setContext c (s.context c).close).releaseHost h c

/-- One step of a command that goes through the loaders, or of a handle. -/
inductive Change : System → System → Prop
  | upkeep {s t : System} (hu : Upkeep s t) : Change s t
  | retain {s : System} {u : UnitId} (hu : s.alive u = true) : Change s (s.retain u)
  | release {s : System} (u : UnitId) : Change s (s.release u)
  | installed {s : System} {c : ContextId} {h : HostId} {d : Definition} (ha : s.Admits c h d) :
      Change s (s.installed c h d)
  | link {s : System} {h : HostId} {u : UnitId} (hh : s.HasHost h) (hu : s.alive u = true)
      (hok : (s.link h u).1 = .ok ()) : Change s (s.link h u).2
  | markLinked {s : System} (u : UnitId) : Change s (s.markLinked u).2
  | detached {s : System} (d : Definition) : Change s (s.withNew none d)
  | newContext {s : System} {parent : ContextId} (hp : s.Knows parent) : Change s (s.newContext parent).2
  | newHost {s : System} (refusals : Refusals) : Change s (s.newHost refusals).2
  | newLoader {s : System} {c : ContextId} {h : HostId} {delegates : List Stop} (hc : s.Knows c)
      (hh : s.HasHost h) (hd : s.Extends delegates) (locations : List String) :
      Change s (s.newLoader c h delegates locations).2
  | newForeign {s : System} {units : List (String × UnitId)} {via : Option Loader}
      (hu : ∀ e ∈ units, e.2 ∈ s.handles) (hvia : ∀ l ∈ via, s.Holds l.path) (raises : List String) :
      Change s (s.newForeign units raises via).2
  | hold {s : System} {path : List Stop} (hp : s.Holds path) : Change s (s.hold path)
  | letGo {s : System} {path : List Stop} (hp : path ∈ s.paths) : Change s (s.letGo path)
  | publish {s : System} {h : HostId} (hh : s.HasHost h) (location : String) (d : Definition) :
      Change s (s.publish h location d)
  | addLocation {s : System} (l : Loader) (location : String) : Change s (s.addLocation l location)
  | register {s : System} {c : ContextId} (hc : s.Knows c) (hopen : (s.context c).closed = false)
      (g : GenerationId) (values : List Constant) : Change s (s.onPools c fun p => p.register g values)
  | shut {s : System} {c : ContextId} {h : HostId} (hc : s.Knows c) (hh : s.HasHost h)
      (hroot : c.isRoot = false) (hopen : (s.context c).closed = false) : Change s (s.shut c h)

/-- One step that writes into a table past the loaders. -/
inductive Write : System → System → Prop
  | record {s : System} {c : ContextId} {u : UnitId} (hc : s.Knows c) (hu : s.alive u = true)
      (name : String) : Write s (s.record c name u)
  | clear {s : System} {c : ContextId} (hc : s.Knows c) :
      Write s (s.onCache c fun cache => ((), cache.clear)).2
  | drain {s : System} {c : ContextId} (hc : s.Knows c) : Write s (s.onCache c UnitCache.drain).2
  | pools {s : System} {c : ContextId} (hc : s.Knows c) (f : ConstantPools → ConstantPools) :
      Write s (s.onPools c f)
  | install {s : System} {h : HostId} {u : UnitId} (hh : s.HasHost h) (hu : s.alive u = true)
      (c : ContextId) : Write s (s.install h c u).2
  | release {s : System} {h : HostId} (hh : s.HasHost h) (c : ContextId) : Write s (s.releaseHost h c)

/-- Any number of steps that go through the loaders. -/
def Changes : System → System → Prop := Relation.ReflTransGen Change

/-- Any number of steps of both kinds. -/
def Moves : System → System → Prop := Relation.ReflTransGen fun s t => Change s t ∨ Write s t

theorem Changes.moves (hc : Changes s t) : Moves s t := by
  induction hc with
  | refl => exact .refl
  | tail _ hstep ih => exact ih.tail (.inl hstep)

-- ================================================================ consistency

theorem Consistent.markLinked (hs : s.Consistent) (u : UnitId) : (s.markLinked u).2.Consistent := by
  unfold System.markLinked
  split
  · exact hs
  · next x hx =>
    have hid : x.markLinked.id = x.id := rfl
    exact hs.setUnit hx (hid.trans (hs.unit_id hx)) rfl

/-- Linking raises a unit's flag and counts it once, or fails and does nothing. -/
theorem link_eq {x : CompiledUnit} (hx : s.units.get? u = some x) (h : HostId) :
    s.link h u = match (s.host h).refusals.unlinkable.get? x.name with
      | some reason => (.error (.linkFailed x.name reason), s)
      | none => (.ok (), (s.setHost h (if x.linked then s.host h else
          { s.host h with links := (s.host h).links + 1 })).markLinked u |>.2) := by
  have hx' : ∀ y, (s.setHost h y).units.get? u = some x := fun _ => hx
  cases hun : (s.host h).refusals.unlinkable.get? x.name with
  | some reason => simp only [link, hx, Host.link, hun]
  | none =>
    simp only [link, hx, Host.link, hun, System.markLinked, hx']
    rfl

theorem Consistent.link (hs : s.Consistent) (hh : s.HasHost h) (u : UnitId) :
    (s.link h u).2.Consistent := by
  cases hx : s.units.get? u with
  | none =>
    unfold System.link
    rw [hx]
    exact hs
  | some x =>
    rw [link_eq hx]
    cases (s.host h).refusals.unlinkable.get? x.name with
    | some reason => exact hs
    | none =>
      refine (hs.setHost hh (fun _ _ _ hp => ?_) fun _ _ _ hl => ?_).markLinked u
      · split at hp <;> exact hs.published hp
      · split at hl <;> exact hs.loaded hl

theorem get?_release (y : Host) (c : ContextId) (key : ContextId × String) :
    (y.release c).loaded.get? key = if key.1 ≠ c then y.loaded.get? key else none := by
  have hf := Table.get?_filter_key y.loaded (fun key => decide (key.1 ≠ c)) key
  simp only [decide_eq_true_eq] at hf
  exact hf

theorem Consistent.releaseHost (hs : s.Consistent) (hh : s.HasHost h) (c : ContextId) :
    (s.releaseHost h c).Consistent := by
  refine hs.setHost hh (fun _ _ _ => hs.published) fun a name u hu => ?_
  rw [get?_release] at hu
  split at hu
  · exact hs.loaded hu
  · exact absurd hu (by simp)

theorem Change.consistent (hc : Change s t) (hs : s.Consistent) : t.Consistent := by
  cases hc with
  | upkeep hu => exact hu.consistent hs
  | retain hu => exact hs.retain hu
  | release u => exact hs.release u
  | installed ha => exact hs.installed ha
  | link hh hu _ => exact hs.link hh _
  | markLinked u => exact hs.markLinked u
  | detached d => exact hs.withNew (fun _ hc => absurd hc (by simp)) d
  | newContext hp => exact hs.newContext hp
  | newHost refusals => exact hs.newHost refusals
  | newLoader hc hh hd locations => exact hs.newLoader hc hh hd locations
  | newForeign hu hvia raises => exact hs.newForeign hu hvia raises
  | hold hp => exact hs.hold hp
  | letGo hp => exact hs.letGo hp
  | publish hh location d =>
    refine hs.setHost hh (fun a name d' hp => ?_) fun _ _ _ => hs.loaded
    rw [Host.publish, Table.get?_insert] at hp
    split at hp
    · next e => rw [← Option.some.inj hp, (Prod.mk.inj e).2]
    · exact hs.published hp
  | addLocation l location =>
    exact ⟨hs.toSound.congr rfl rfl rfl rfl rfl,
      hs.toWired.congr rfl rfl rfl (fun _ => id) fun _ => id⟩
  | register hc _ g values =>
    exact hs.setContext hc rfl (fun _ _ => hs.entry) fun _ hn => ⟨hs.notice hn, hs.dead hn⟩
  | @shut c h hc hh _ _ =>
    have hclose : (s.setContext c (s.context c).close).Consistent := by
      refine hs.setContext hc rfl (fun name u hu => ?_) fun n hn => ?_
      · exact absurd hu (by simp [Context.close, UnitCache.clear, UnitCache.empty])
      · exact absurd hn (by simp [Context.close, UnitCache.clear, UnitCache.empty])
    exact hclose.releaseHost hh c

theorem Write.consistent (hw : Write s t) (hs : s.Consistent) : t.Consistent := by
  cases hw with
  | record hc hu name =>
    refine hs.setContext hc rfl (fun x v hv => ?_) fun n hn => ⟨hs.notice hn, hs.dead hn⟩
    rw [UnitCache.record, Table.get?_insert] at hv
    split at hv
    · rw [← Option.some.inj hv]
      exact hs.alive hu
    · exact hs.entry hv
  | clear hc =>
    refine hs.setContext hc rfl (fun name u hu => ?_) fun n hn => absurd hn List.not_mem_nil
    exact absurd hu (by simp [UnitCache.clear, UnitCache.empty])
  | drain hc => exact hs.setContext hc rfl (fun _ _ => hs.entry) fun n hn => absurd hn List.not_mem_nil
  | pools hc f =>
    exact hs.setContext hc rfl (fun _ _ => hs.entry) fun _ hn => ⟨hs.notice hn, hs.dead hn⟩
  | @install h u hh hu c =>
    obtain ⟨x, hx⟩ := Option.isSome_iff_exists.1 (hs.alive hu)
    unfold System.install
    rw [hx]
    dsimp only
    split
    · next y hy =>
      refine hs.setHost hh (fun _ _ _ hp => ?_) fun a name v hv => ?_
      · rcases Host.install_ok hy with rfl | rfl <;> exact hs.published hp
      · rcases Host.install_ok hy with rfl | rfl
        · exact hs.loaded hv
        · rw [Host.withLoaded, Table.get?_insert] at hv
          split at hv
          · rw [← Option.some.inj hv, hs.unit_id hx]
            exact hs.alive hu
          · exact hs.loaded hv
    · exact hs
  | release hh c => exact hs.releaseHost hh c

theorem Changes.consistent (hc : Changes s t) (hs : s.Consistent) : t.Consistent := by
  induction hc with
  | refl => exact hs
  | tail _ hstep ih => exact hstep.consistent ih

theorem Moves.consistent (hm : Moves s t) (hs : s.Consistent) : t.Consistent := by
  induction hm with
  | refl => exact hs
  | tail _ hstep ih =>
    cases hstep with
    | inl hc => exact hc.consistent ih
    | inr hw => exact hw.consistent ih

-- ================================================================ death is final

/-- Where units and handles are the same, nothing comes back. -/
theorem Onward.of_eq (hu : t.units = s.units) (hh : t.handles = s.handles) (ho : t.owned = s.owned) :
    s.Onward t where
  built hb := by rwa [Built, hu]
  dead _ ha := by rwa [alive, hh, ho] at ha

theorem onward_own (hu : s.alive u = true) : s.Onward (s.own u) where
  built := id
  dead _ ha := by
    rcases alive_own_iff.1 ha with rfl | ha
    · exact hu
    · exact ha

theorem onward_disown (s : System) (u : UnitId) : s.Onward (s.disown u) where
  built hb := by
    rw [disown_eq]
    exact hb
  dead _ ha := alive_of_alive_disown ha

theorem built_markLinked {v : UnitId} : (s.markLinked u).2.Built v ↔ s.Built v := by
  unfold System.markLinked
  split
  · exact .rfl
  · next x hx =>
    by_cases hv : v = u
    · subst hv
      simp [Built, hx]
    · simp [Built, hv]

theorem alive_markLinked (s : System) (u v : UnitId) : (s.markLinked u).2.alive v = s.alive v := by
  unfold System.markLinked
  split <;> rfl

theorem onward_markLinked (s : System) (u : UnitId) : s.Onward (s.markLinked u).2 :=
  ⟨built_markLinked.2, fun _ ha => by rwa [alive_markLinked] at ha⟩

theorem Change.onward (hc : Change s t) (hs : s.Consistent) : s.Onward t := by
  cases hc with
  | upkeep hu => exact (hu.sameLife hs).onward
  | retain hu =>
    refine ⟨id, fun _ ha => ?_⟩
    rcases alive_retain_iff.1 ha with rfl | ha
    · exact hu
    · exact ha
  | release u =>
    refine ⟨fun hb => ?_, fun _ => alive_of_alive_release⟩
    rw [release_eq]
    exact hb
  | installed ha =>
    exact (onward_withNew hs.toNumbered _ _).trans (.of_eq rfl rfl rfl)
  | @link h u hh hu hok =>
    obtain ⟨x, hx⟩ := Option.isSome_iff_exists.1 (hs.alive hu)
    rw [link_eq hx]
    cases (s.host h).refusals.unlinkable.get? x.name with
    | some reason => exact .refl s
    | none =>
      have hhost : ∀ y, s.Onward (s.setHost h y) := fun _ => .of_eq rfl rfl rfl
      exact (hhost _).trans (onward_markLinked _ u)
  | markLinked u => exact onward_markLinked s u
  | detached d => exact onward_withNew hs.toNumbered none d
  | @newForeign units via hu hvia raises =>
    -- a name that is given twice lets the handle on its first unit go again
    have hadopt := adopt_induction (P := s.Onward)
      (fun t v ht hv => ht.trans (onward_own (alive_of_mem_handles hv)))
      (fun t v ht => ht.trans (onward_disown t v)) units .empty s (.refl s) hu
    exact hadopt.trans (.of_eq rfl rfl rfl)
  | letGo hp =>
    exact letGo_induction _ (P := s.Onward) (fun t v ht => ht.trans (onward_disown t v)) (.of_eq rfl rfl rfl)
  | newContext | newHost | newLoader | hold | publish | addLocation | register | shut =>
    exact .of_eq rfl rfl rfl

theorem Write.onward (hw : Write s t) : s.Onward t := by
  cases hw with
  | record | clear | drain | pools | release => exact .of_eq rfl rfl rfl
  | install =>
    unfold System.install
    split
    · exact .refl s
    · split
      · exact .of_eq rfl rfl rfl
      · exact .refl s

theorem Moves.onward (hm : Moves s t) (hs : s.Consistent) : s.Onward t := by
  induction hm with
  | refl => exact .refl s
  | tail hrest hstep ih =>
    cases hstep with
    | inl hc => exact ih.trans (hc.onward (Moves.consistent hrest hs))
    | inr hw => exact ih.trans hw.onward

end System

end UnitLoading
