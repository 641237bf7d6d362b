/-
Making loaders and letting them go: consistency is kept, and so are the handles of foreign loaders.

A foreign loader takes its handles while it is made and gives them up when the last path through it goes.
Both are folds over single handles, so what single handles keep is kept by induction
(`adopt_induction`, `abandon_induction`); only the ledger of stops has to be followed through the whole
fold. The handles that go are those of the stops that no path reaches any more, each of them on the dropped
path once, since stops on a path are of different age.
-/
import Mathlib.Data.List.Flatten
import Mathlib.Data.List.Nodup
import UnitLoading.Proofs.Consistent

namespace UnitLoading.System

variable {s t : System} {u : UnitId} {path : List Stop}

-- ================================================================ held paths

theorem Holds.suffix {rest : List Stop} (hp : s.Holds path) (hr : rest <:+ path) : s.Holds rest := by
  obtain ⟨p, hp, hsuf⟩ := hp
  exact ⟨p, hp, hr.trans hsuf⟩

/-- The stops of a held path are on the ledger. -/
theorem Ledger.mem {stops : List Stop} (hl : s.Ledger stops) (hp : s.Holds path) {f : Stop} (hf : f ∈ path) :
    f ∈ stops := by
  obtain ⟨p, hp, hsuf⟩ := hp
  exact hl.covers p hp f (hsuf.subset hf)

theorem Wired.known (hw : s.Wired) (hp : s.Holds path) {f : Stop} (hf : f ∈ path) : f.KnownIn s := by
  obtain ⟨stops, hl⟩ := hw.ledger
  exact hl.known f (hl.mem hp hf)

/-- What a foreign loader on a held path owns is alive. -/
theorem Wired.alive (hw : s.Wired) (hp : s.Holds path) {f : Stop} (hf : f ∈ path) (hu : u ∈ f.owns) :
    s.alive u = true := by
  obtain ⟨stops, hl⟩ := hw.ledger
  have hmem : u ∈ stops.flatMap Stop.owns := List.mem_flatMap.2 ⟨f, hl.mem hp hf, hu⟩
  have hpos : 0 < s.owned.count u := Nat.lt_of_lt_of_le (List.count_pos_iff.2 hmem) (hl.owned u)
  exact alive_of_mem_owned (List.count_pos_iff.1 hpos)

theorem Wired.older_of_holds (hw : s.Wired) (hp : s.Holds path) :
    path.Pairwise fun f g => g.id.val < f.id.val := by
  obtain ⟨p, hp, hsuf⟩ := hp
  exact (hw.older p hp).sublist hsuf.sublist

-- ================================================================ new stops

/-- Whether a new stop may stand before these: they are none, or the rest of a held path. -/
def Extends (s : System) (delegates : List Stop) : Prop := delegates = [] ∨ s.Holds delegates

/-- A new stop before the rest of a held path makes another path. -/
theorem Wired.cons {delegates : List Stop} (stop : Stop) (hw : s.Wired) (hd : s.Extends delegates)
    (hid : stop.id = ⟨s.loaderCount⟩) (hk : stop.KnownIn t) (hp : t.paths = (stop :: delegates) :: s.paths)
    (hn : t.loaderCount = s.loaderCount + 1)
    (ho : ∀ u, stop.owns.count u + s.owned.count u ≤ t.owned.count u) (hc : ∀ c, s.Knows c → t.Knows c)
    (hh : ∀ h, s.HasHost h → t.HasHost h) : t.Wired := by
  obtain ⟨stops, hl⟩ := hw.ledger
  have hmem : ∀ f ∈ delegates, f ∈ stops := by
    intro f hf
    rcases hd with rfl | hd
    · exact absurd hf List.not_mem_nil
    · exact hl.mem hd hf
  -- the number of the new stop is above all that were given out, so it is on the ledger once
  have hnew : ∀ f ∈ stops, f.id.val < stop.id.val := by
    intro f hf
    rw [hid]
    exact hl.numbered f hf
  refine ⟨⟨stop :: stops, ?_, ?_, ?_, ?_, ?_⟩, ?_⟩
  · refine List.nodup_cons.2 ⟨fun hm => ?_, hl.distinct⟩
    obtain ⟨f, hf, he⟩ := List.mem_map.1 hm
    have hlt := hnew f hf
    rw [he] at hlt
    exact Nat.lt_irrefl _ hlt
  · intro f hf
    rw [hn]
    rcases List.mem_cons.1 hf with rfl | hf
    · rw [hid]
      exact Nat.lt_succ_self _
    · exact Nat.lt_succ_of_lt (hl.numbered f hf)
  · intro f hf
    rcases List.mem_cons.1 hf with rfl | hf
    · exact hk
    · exact Stop.KnownIn.mono (hl.known f hf) hc hh
  · intro p hpm f hf
    rw [hp] at hpm
    rcases List.mem_cons.1 hpm with rfl | hpm
    · rcases List.mem_cons.1 hf with rfl | hf
      · exact List.mem_cons_self
      · exact List.mem_cons_of_mem _ (hmem f hf)
    · exact List.mem_cons_of_mem _ (hl.covers p hpm f hf)
  · intro u
    rw [List.flatMap_cons, List.count_append]
    exact Nat.le_trans (Nat.add_le_add_left (hl.owned u) _) (ho u)
  · intro p hpm
    rw [hp] at hpm
    rcases List.mem_cons.1 hpm with rfl | hpm
    · refine List.pairwise_cons.2 ⟨fun g hg => hnew g (hmem g hg), ?_⟩
      rcases hd with rfl | hd
      · exact .nil
      · exact hw.older_of_holds hd
    · exact hw.older p hpm

/-- Fields that say nothing about units, contexts and hosts do not matter. -/
theorem Sound.congr (hs : s.Sound) (hu : t.units = s.units) (hc : t.contexts = s.contexts)
    (hh : t.hosts = s.hosts) (hhan : t.handles = s.handles) (hown : t.owned = s.owned) : t.Sound := by
  have ha : ∀ u, t.alive u = s.alive u := fun u => by rw [alive, alive, hhan, hown]
  have hb : ∀ u, t.Built u ↔ s.Built u := fun u => by rw [Built, Built, hu]
  exact {
    toNumbered := hs.toNumbered.congr hu hc hh
    toGrounded := hs.toGrounded.of_onward hc hh ⟨(hb _).2, fun _ h => by rwa [ha] at h⟩ fun u h => by
      rw [ha] at h
      exact (hb u).2 (hs.alive h) }

theorem Consistent.newLoader {c : ContextId} {h : HostId} {delegates : List Stop} (hs : s.Consistent)
    (hc : s.Knows c) (hh : s.HasHost h) (hd : s.Extends delegates) (locations : List String) :
    (s.newLoader c h delegates locations).2.Consistent where
  toSound := hs.toSound.congr rfl rfl rfl rfl rfl
  toWired := hs.toWired.cons (.dynamic ⟨s.loaderCount⟩ c h) hd rfl ⟨hc, hh⟩ rfl rfl
    (fun u => by simp [Stop.owns, System.newLoader, System.hold]) (fun _ => id) fun _ => id

/-- One more hold on the rest of a held path. -/
theorem Consistent.hold (hs : s.Consistent) (hp : s.Holds path) : (s.hold path).Consistent where
  toSound := hs.toSound.congr rfl rfl rfl rfl rfl
  toWired := by
    obtain ⟨stops, hl⟩ := hs.ledger
    refine ⟨⟨stops, hl.distinct, hl.numbered, hl.known, ?_, hl.owned⟩, ?_⟩
    · intro p hpm f hf
      rcases List.mem_cons.1 hpm with rfl | hpm
      · exact hl.mem hp hf
      · exact hl.covers p hpm f hf
    · intro p hpm
      rcases List.mem_cons.1 hpm with rfl | hpm
      · exact hs.toWired.older_of_holds hp
      · exact hs.older p hpm

-- ================================================================ foreign loaders

/-- Whatever is kept when a foreign loader takes a handle from running code or gives one up is kept while
it takes all of its handles. -/
theorem adopt_induction {P : System → Prop} (hown : ∀ s u, P s → u ∈ s.handles → P (s.own u))
    (hdisown : ∀ s u, P s → P (s.disown u)) (given : List (String × UnitId)) :
    ∀ (units : Table String UnitId) (s : System), P s → (∀ e ∈ given, e.2 ∈ s.handles) →
      P (given.foldl (fun r e => adopt r e.1 e.2) (units, s)).2 := by
  induction given with
  | nil => exact fun _ _ hs _ => hs
  | cons e given ih =>
    intro units s hs hall
    have hs' : P (s.own e.2) := hown s e.2 hs (hall e List.mem_cons_self)
    have hall' : ∀ g ∈ given, g.2 ∈ s.handles := fun g hg => hall g (List.mem_cons_of_mem _ hg)
    simp only [List.foldl_cons, adopt]
    split
    · refine ih _ _ (hdisown _ _ hs') fun g hg => ?_
      rw [handles_disown]
      exact hall' g hg
    · exact ih _ _ hs' hall'

/-- One more handle accounts for one more unit; the unit of an earlier one of its name goes with its
handle. -/
theorem count_adopt (units : Table String UnitId) (s : System) (name : String) (v u : UnitId) :
    (adopt (units, s) name v).1.values.count u + s.owned.count u
      ≤ (adopt (units, s) name v).2.owned.count u + units.values.count u := by
  have hcount := Table.count_values_insert units name v u
  have hown : (s.own v).owned.count u = s.owned.count u + [v].count u := by
    rw [List.count_singleton, ← List.count_cons]
    rfl
  cases hold : units.get? name with
  | none =>
    rw [hold, Option.toList_none, List.count_nil] at hcount
    simp only [adopt, hold]
    omega
  | some old =>
    rw [hold, Option.toList_some] at hcount
    have hdisown : (s.own v).owned.count u ≤ ((s.own v).disown old).owned.count u + [old].count u := by
      rw [owned_disown, List.count_erase, List.count_singleton]
      omega
    simp only [adopt, hold]
    omega

/-- What a foreign loader keeps is accounted for by the handles that it took. -/
theorem count_foldl_adopt (given : List (String × UnitId)) (u : UnitId) :
    ∀ (units : Table String UnitId) (s : System),
      (given.foldl (fun r e => adopt r e.1 e.2) (units, s)).1.values.count u + s.owned.count u
        ≤ (given.foldl (fun r e => adopt r e.1 e.2) (units, s)).2.owned.count u + units.values.count u := by
  induction given with
  | nil => exact fun units s => Nat.le_of_eq (Nat.add_comm _ _)
  | cons e given ih =>
    intro units s
    have hone := count_adopt units s e.1 e.2 u
    rw [List.foldl_cons]
    obtain ⟨r, hr⟩ : ∃ r, r = adopt (units, s) e.1 e.2 := ⟨_, rfl⟩
    rw [← hr] at hone ⊢
    have hrest := ih r.1 r.2
    change (given.foldl _ r).1.values.count u + _ ≤ (given.foldl _ r).2.owned.count u + _ at hrest
    omega

/-- What taking handles leaves alone. -/
theorem adopt_frame (given : List (String × UnitId)) (s : System)
    (hall : ∀ e ∈ given, e.2 ∈ s.handles) :
    let t := (given.foldl (fun r e => adopt r e.1 e.2) (Table.empty, s)).2
    t.paths = s.paths ∧ t.loaderCount = s.loaderCount ∧ t.hosts = s.hosts := by
  refine adopt_induction (P := fun t => t.paths = s.paths ∧ t.loaderCount = s.loaderCount ∧
    t.hosts = s.hosts) (fun _ _ h _ => h) (fun t u h => ?_) given _ _ ⟨rfl, rfl, rfl⟩ hall
  rw [disown_eq]
  exact h

theorem Consistent.newForeign {units : List (String × UnitId)} {via : Option Loader} (hs : s.Consistent)
    (hu : ∀ e ∈ units, e.2 ∈ s.handles) (hvia : ∀ l ∈ via, s.Holds l.path) (raises : List String) :
    (s.newForeign units raises via).2.Consistent := by
  obtain ⟨hpaths, hcount, hhosts⟩ := adopt_frame units s hu
  obtain ⟨hsound, hknows⟩ := adopt_induction (P := fun t => t.Sound ∧ ∀ c, s.Knows c → t.Knows c)
    (fun t u h hu => ⟨h.1.own (alive_of_mem_handles hu), h.2⟩)
    (fun t u h => ⟨h.1.disown u, fun c hc => (knows_disown h.1.toNumbered).2 (h.2 c hc)⟩)
    units .empty s ⟨hs.toSound, fun _ => id⟩ hu
  -- the one part that single handles do not keep: the new stop has to be accounted for as a whole
  have howned := fun u => count_foldl_adopt units u .empty s
  have hd : s.Extends ((via.map Loader.path).getD []) := by
    cases via with
    | none => exact .inl rfl
    | some l => exact .inr (hvia l rfl)
  refine ⟨hsound.congr rfl rfl rfl rfl rfl, hs.toWired.cons (.foreign ⟨s.loaderCount⟩ _ raises) hd
    rfl trivial ?_ ?_ howned hknows fun h hh => ?_⟩
  · simp only [System.newForeign, System.hold, ForeignLoader.path, hpaths, hcount]
  · simp only [System.newForeign, System.hold, hcount]
  · simp only [System.newForeign, System.hold, HasHost, hhosts]
    exact hh

-- ================================================================ letting go

/-- The handles that a stop gives up: all, if no held path reaches it. -/
def abandoned (s : System) (f : Stop) : List UnitId := if s.reaches f.id then [] else f.owns

theorem owned_foldl_disown (entries : List (String × UnitId)) (s : System) :
    (entries.foldl (fun s e => s.disown e.2) s).owned = s.owned.diff (entries.map Prod.snd) := by
  induction entries generalizing s with
  | nil => rfl
  | cons e entries ih => rw [List.foldl_cons, ih, owned_disown, List.map_cons, List.diff_cons]

theorem owned_abandon (s : System) (f : Stop) : (s.abandon f).owned = s.owned.diff (s.abandoned f) := by
  cases f with
  | dynamic => simp [abandon, abandoned, Stop.owns]
  | foreign id units raises =>
    by_cases hr : s.reaches id = true
    · simp [abandon, abandoned, Stop.id, hr]
    · simp only [abandon, abandoned, Stop.id, hr, Bool.false_eq_true, ↓reduceIte]
      exact owned_foldl_disown units.entries s

/-- Whatever is kept when a foreign loader gives up a handle is kept while stops give up theirs. -/
theorem abandon_induction {P : System → Prop} (hdisown : ∀ s u, P s → P (s.disown u)) (path : List Stop)
    (s : System) (hs : P s) : P (path.foldl abandon s) := by
  have hfold : ∀ (entries : List (String × UnitId)) (s : System), P s →
      P (entries.foldl (fun s e => s.disown e.2) s) := by
    intro entries
    induction entries with
    | nil => exact fun _ hs => hs
    | cons e entries ih => exact fun s hs => ih _ (hdisown s e.2 hs)
  induction path generalizing s with
  | nil => exact hs
  | cons f path ih =>
    refine ih _ ?_
    cases f with
    | dynamic => exact hs
    | foreign id units raises =>
      simp only [abandon]
      split
      · exact hs
      · exact hfold _ _ hs

theorem paths_foldl_abandon (path : List Stop) (s : System) :
    (path.foldl abandon s).paths = s.paths :=
  abandon_induction (P := fun t => t.paths = s.paths) (fun t u h => by rw [paths_disown, h]) path s rfl

theorem owned_foldl_abandon (path : List Stop) (s : System) :
    (path.foldl abandon s).owned = s.owned.diff (path.flatMap s.abandoned) := by
  induction path generalizing s with
  | nil => rfl
  | cons f path ih =>
    have hsame : (s.abandon f).abandoned = s.abandoned := by
      funext g
      have hp : (s.abandon f).paths = s.paths := paths_foldl_abandon [f] s
      rw [abandoned, abandoned, reaches, reaches, hp]
    rw [List.foldl_cons, ih, hsame, owned_abandon, List.flatMap_cons, List.diff_append]

/-- Leaving items out and mapping them to nothing come to the same. -/
theorem flatMap_ite_nil {α β : Type} (p : α → Bool) (g : α → List β) (l : List α) :
    (l.flatMap fun a => if p a then [] else g a) = (l.filter fun a => !p a).flatMap g := by
  induction l with
  | nil => rfl
  | cons a l ih =>
    rw [List.flatMap_cons, ih]
    cases hp : p a <;> simp [hp]

/-- The state after a path was taken off those that are held. -/
def unheld (s : System) (path : List Stop) : System :=
  { s with paths := s.paths.eraseP fun p => p.head?.map Stop.id == path.head?.map Stop.id }

theorem letGo_eq (s : System) (path : List Stop) : s.letGo path = path.foldl abandon (s.unheld path) := rfl

/-- Whatever is kept when a path is no longer held and when handles of foreign loaders go is kept when a
loader is let go. -/
theorem letGo_induction {P : System → Prop} (path : List Stop) (hdisown : ∀ s u, P s → P (s.disown u))
    (hs : P (s.unheld path)) : P (s.letGo path) := abandon_induction hdisown path _ hs

/-- The stops that are still reached account for the handles that foreign loaders still have. -/
theorem Ledger.letGo {stops : List Stop} (hl : s.Ledger stops) (hp : path ∈ s.paths)
    (hold : path.Pairwise fun f g => g.id.val < f.id.val) (u : UnitId) :
    ((stops.filter fun f => (s.unheld path).reaches f.id).flatMap Stop.owns).count u
      ≤ (s.letGo path).owned.count u := by
  let r : Stop → Bool := fun f => (s.unheld path).reaches f.id
  -- what goes is what the unreached stops of the path own, and each of them is on the ledger once
  have hgone : path.flatMap (s.unheld path).abandoned = (path.filter fun f => !r f).flatMap Stop.owns :=
    flatMap_ite_nil r Stop.owns path
  have hnodup : (path.filter fun f => !r f).Nodup := by
    have hdistinct : path.Nodup := hold.imp fun {f g} hlt he => by
      rw [he] at hlt
      exact Nat.lt_irrefl _ hlt
    exact hdistinct.filter _
  have hsub : (path.filter fun f => !r f).Subperm (stops.filter fun f => !r f) := by
    refine hnodup.subperm fun f hf => ?_
    rw [List.mem_filter] at hf ⊢
    exact ⟨hl.covers path hp f hf.1, hf.2⟩
  have hle : ((path.filter fun f => !r f).flatMap Stop.owns).count u
      ≤ ((stops.filter fun f => !r f).flatMap Stop.owns).count u := by
    obtain ⟨l, hperm, hl⟩ := hsub
    rw [← (hperm.flatMap_right _).count_eq]
    exact (hl.flatMap _).count_le u
  have hsplit : (stops.flatMap Stop.owns).count u
      = ((stops.filter r).flatMap Stop.owns).count u
        + ((stops.filter fun f => !r f).flatMap Stop.owns).count u := by
    rw [← ((List.filter_append_perm r stops).flatMap_right _).count_eq, List.flatMap_append,
      List.count_append]
  have howned := hl.owned u
  rw [letGo_eq, owned_foldl_abandon, hgone, List.count_diff]
  show ((stops.filter r).flatMap Stop.owns).count u ≤ s.owned.count u - _
  omega

theorem Consistent.letGo (hs : s.Consistent) (hp : path ∈ s.paths) : (s.letGo path).Consistent := by
  obtain ⟨stops, hl⟩ := hs.ledger
  obtain ⟨hsound, hknows, hhosts, hcount⟩ := letGo_induction (s := s) path
    (P := fun t => t.Sound ∧ (∀ c, s.Knows c → t.Knows c) ∧ t.hosts = s.hosts ∧
      t.loaderCount = s.loaderCount)
    (fun t u h => ⟨h.1.disown u, fun c hc => (knows_disown h.1.toNumbered).2 (h.2.1 c hc), by
      rw [disown_eq]
      exact h.2.2⟩)
    ⟨hs.toSound.congr rfl rfl rfl rfl rfl, fun _ => id, rfl, rfl⟩
  have hhas : ∀ h, s.HasHost h → (s.letGo path).HasHost h := fun h hh => by
    rw [HasHost, hhosts]
    exact hh
  have hpaths : (s.letGo path).paths = (s.unheld path).paths := paths_foldl_abandon path _
  have hsub : ∀ p ∈ (s.letGo path).paths, p ∈ s.paths := by
    intro p hpm
    rw [hpaths] at hpm
    exact List.mem_of_mem_eraseP hpm
  refine ⟨hsound, ⟨⟨stops.filter fun f => (s.unheld path).reaches f.id, ?_, ?_, ?_, ?_,
    hl.letGo hp (hs.older path hp)⟩, fun p hpm => hs.older p (hsub p hpm)⟩⟩
  · exact hl.distinct.sublist (List.filter_sublist.map Stop.id)
  · intro f hf
    rw [hcount]
    exact hl.numbered f (List.mem_filter.1 hf).1
  · exact fun f hf => Stop.KnownIn.mono (hl.known f (List.mem_filter.1 hf).1) hknows hhas
  · intro p hpm f hf
    refine List.mem_filter.2 ⟨hl.covers p (hsub p hpm) f hf, ?_⟩
    rw [hpaths] at hpm
    exact List.any_eq_true.2 ⟨p, hpm, List.any_eq_true.2 ⟨f, hf, by simp⟩⟩

end UnitLoading.System
