/-
Counters: over a whole run, the counts of the hosts are exact.

# What is counted

`takenBy` is the set of the units that a host took in the course of a program, each of them defined through a
loader with that host, and `linkedBy` is the set of those whose flag it raised. Both look back at every command
of the run with the state in which its turn came, and do not read the counts.

# Why each unit counts once

A host takes only units that are new, and a new unit has not been taken before (`Run.built_of_taken`). A host
links only units whose flag is down, and a flag that is up stays up (`Run.isLinked`), so a unit is linked by
one host only, and once (`Linked`). Sets grow by one unit exactly when the counts do, and the counts of all
hosts together are the number of units whose flag is up (`Linked.total`).
-/
import Mathlib.Data.Set.Card.Arithmetic
import UnitLoading.Proofs.Intake
import UnitLoading.Proofs.Linking

namespace UnitLoading

variable {s t : System} {h k : HostId} {u : UnitId} {cmd : Command} {cmds : List Command}

namespace System

/-- The units that a host has taken after these commands. -/
def takenBy (cmds : List Command) (h : HostId) : Set UnitId :=
  {u | initial.Sometime (fun s cmd => s.Takes cmd h u) cmds}

/-- The units that a host has linked after these commands. -/
def linkedBy (cmds : List Command) (h : HostId) : Set UnitId :=
  {u | initial.Sometime (fun s cmd => s.Links cmd h u) cmds}

end System

theorem Run.mem_takenBy_concat {permitted : Command → Prop} (hr : Run permitted .initial cmds s) :
    u ∈ System.takenBy (cmds ++ [cmd]) h ↔ u ∈ System.takenBy cmds h ∨ s.Takes cmd h u := by
  show System.initial.Sometime _ (cmds ++ [cmd]) ↔ _
  rw [System.sometime_concat, hr.after_eq]
  rfl

theorem Run.mem_linkedBy_concat {permitted : Command → Prop} (hr : Run permitted .initial cmds s) :
    u ∈ System.linkedBy (cmds ++ [cmd]) h ↔ u ∈ System.linkedBy cmds h ∨ s.Links cmd h u := by
  show System.initial.Sometime _ (cmds ++ [cmd]) ↔ _
  rw [System.sometime_concat, hr.after_eq]
  rfl

-- ================================================================ units that were taken

/-- A unit that was taken was built. -/
theorem Run.built_of_taken (hr : Run Command.LoaderLevel .initial cmds s)
    (hu : u ∈ System.takenBy cmds h) : s.Built u := by
  induction hr with
  | start => exact absurd hu id
  | step hrest hl hp ih =>
    have hs := hrest.consistent .initial
    rcases hrest.mem_takenBy_concat.1 hu with hold | ⟨-, c, name, -, hdefined, -⟩
    · exact ((System.perform_moves hs hp).onward hs).built (ih hold)
    · exact hdefined.built

/-- A host has counted the units that it has taken. -/
theorem Run.installs_eq (hr : Run Command.LoaderLevel .initial cmds s) (h : HostId) :
    (System.takenBy cmds h).encard = (s.host h).installs := by
  induction hr with
  | start => exact Set.encard_empty
  | @step cmds s cmd hrest hl hp ih =>
    rcases System.perform_takes ⟨_, hrest⟩ hl hp h with ⟨hcount, hnone⟩ | ⟨u, hcount, htakes⟩
    · have hsame : System.takenBy (cmds ++ [cmd]) h = System.takenBy cmds h := by
        ext u
        rw [hrest.mem_takenBy_concat, or_iff_left (hnone u)]
      rw [hsame, ih, hcount]
    · have hone : System.takenBy (cmds ++ [cmd]) h = insert u (System.takenBy cmds h) := by
        ext v
        rw [hrest.mem_takenBy_concat, htakes, Set.mem_insert_iff, or_comm]
      have hfresh : u ∉ System.takenBy cmds h := by
        intro hu
        exact ((htakes u).2 rfl).1 (hrest.built_of_taken hu)
      rw [hone, Set.encard_insert_of_notMem hfresh, ih, hcount]
      rfl

-- ================================================================ units that were linked

/-- The flags and the counts of links are those of the sets of units that the hosts linked, and no unit is in
two of these sets. -/
structure Linked (s : System) (units : HostId → Set UnitId) : Prop where
  flag (u : UnitId) : s.isLinked u = true ↔ ∃ h, u ∈ units h
  unique {u : UnitId} {h k : HostId} : u ∈ units h → u ∈ units k → h = k
  count (h : HostId) : (units h).encard = (s.host h).links

variable {units more : HostId → Set UnitId}

namespace Linked

theorem keep (hl : Linked s units) (ht : s.KeepsLinks t) : Linked t units where
  flag u := by rw [ht.isLinked, hl.flag]
  unique := hl.unique
  count h := by rw [ht.links, hl.count]

/-- One more unit was linked, by one host. -/
theorem raise (hl : Linked s units) (ht : System.LinksOne h u s t)
    (hmore : ∀ k v, v ∈ more k ↔ v ∈ units k ∨ k = h ∧ v = u) : Linked t more := by
  -- the flag was down, so nobody had linked the unit
  have hfresh : ∀ k, u ∉ units k := by
    intro k hu
    have hflag := (hl.flag u).2 ⟨k, hu⟩
    rw [ht.before] at hflag
    cases hflag
  refine ⟨fun v => ?_, fun {v j k} hj hk => ?_, fun k => ?_⟩
  · rw [ht.isLinked, hl.flag]
    simp only [hmore, exists_or, exists_eq_left]
    exact or_comm
  · rcases (hmore j v).1 hj with hj | ⟨rfl, rfl⟩
    · rcases (hmore k v).1 hk with hk | ⟨rfl, rfl⟩
      · exact hl.unique hj hk
      · exact absurd hj (hfresh j)
    · rcases (hmore k v).1 hk with hk | ⟨rfl, -⟩
      · exact absurd hk (hfresh k)
      · rfl
  · rw [ht.links]
    by_cases hk : k = h
    · have hone : more k = insert u (units k) := by
        ext v
        rw [hmore, Set.mem_insert_iff, or_comm, and_iff_right hk]
      rw [if_pos hk, hone, Set.encard_insert_of_notMem (hfresh k), hl.count]
      rfl
    · have hsame : more k = units k := by
        ext v
        rw [hmore, or_iff_left fun e => hk e.1]
      rw [if_neg hk, hsame, hl.count]

/-- Only a host that was made has linked anything. -/
theorem hasHost (hl : Linked s units) (hu : u ∈ units h) : s.HasHost h := by
  by_contra hnone
  have hempty : (s.host h).links = 0 := by
    rw [System.host, Option.not_isSome_iff_eq_none.1 hnone]
    rfl
  have hcount := hl.count h
  rw [hempty, Nat.cast_zero, Set.encard_eq_zero] at hcount
  rw [hcount] at hu
  exact hu

/-- All hosts together have counted every unit whose flag is up, and have counted it once. -/
theorem total (hl : Linked s units) :
    {u | s.isLinked u = true}.encard = (∑ h ∈ s.hosts.keys.toFinset, (s.host h).links : ℕ) := by
  let hosts := s.hosts.keys.toFinset
  have hunion : {u | s.isLinked u = true} = ⋃ h ∈ (hosts : Set HostId), units h := by
    ext u
    rw [Set.mem_iUnion₂]
    refine (hl.flag u).trans ?_
    constructor
    · rintro ⟨h, hu⟩
      exact ⟨h, Finset.mem_coe.2 (List.mem_toFinset.2 (Table.mem_keys.2 (hl.hasHost hu))), hu⟩
    · rintro ⟨h, -, hu⟩
      exact ⟨h, hu⟩
  have hdisjoint : (hosts : Set HostId).PairwiseDisjoint units := by
    intro h _ k _ hne
    exact Set.disjoint_left.2 fun u hh hk => hne (hl.unique hh hk)
  calc {u | s.isLinked u = true}.encard
      = ∑ᶠ h ∈ (hosts : Set HostId), (units h).encard := by
        rw [hunion, hosts.finite_toSet.encard_biUnion hdisjoint]
    _ = ∑ h ∈ hosts, (units h).encard := finsum_mem_coe_finset ..
    _ = ∑ h ∈ hosts, ((s.host h).links : ℕ∞) := Finset.sum_congr rfl fun h _ => hl.count h
    _ = (∑ h ∈ hosts, (s.host h).links : ℕ) := (Nat.cast_sum ..).symm

end Linked

/-- Along every run the flags and the counts are those of the units that were linked. -/
theorem Run.linked (hr : Run Command.Counted .initial cmds s) : Linked s (System.linkedBy cmds) := by
  induction hr with
  | start =>
    refine ⟨fun u => ?_, fun hu => absurd hu id, fun h => Set.encard_empty⟩
    refine iff_of_false Bool.false_ne_true ?_
    rintro ⟨h, hu⟩
    exact hu
  | @step cmds s cmd hrest hc hp ih =>
    rcases System.perform_links (hrest.consistent .initial) hc hp with hkeeps | ⟨h, u, hlinker, hone⟩
    · have hsame : System.linkedBy (cmds ++ [cmd]) = System.linkedBy cmds := by
        ext k v
        rw [hrest.mem_linkedBy_concat, or_iff_left (hkeeps.not_links k v)]
      rw [hsame]
      exact ih.keep hkeeps
    · refine ih.raise hone fun k v => ?_
      rw [hrest.mem_linkedBy_concat, hone.links_iff hlinker]

/-- A flag that is up stays up. -/
theorem Run.isLinked (hr : Run Command.Counted s cmds t) (hs : s.Consistent) (hu : s.isLinked u = true) :
    t.isLinked u = true := by
  induction hr with
  | start => exact hu
  | step hrest hc hp ih =>
    rcases System.perform_links (hrest.consistent hs) hc hp with hkeeps | ⟨h, v, -, hone⟩
    · rw [hkeeps.isLinked]
      exact ih
    · exact (hone.isLinked u).2 (.inr ih)

namespace System

-- ================================================================ exact counts

/-- Along every run of commands through the loaders and of links by hosts, in which no flag is raised by hand:
a host has counted as many installations as loaders with that host have defined units that it took; a flag
that is up stays up; a host has counted as many links as it has linked units, each unit is linked by one host
at most, the flags that are up are those of the units linked, and all hosts together have counted as many links
as there are flags up. A load that is to link what it finds gives a unit that is linked; it fails for the link
only where it found a unit that was not linked and that its host refuses to link, which stays unlinked and
uncounted. And any load that finds a unit that is not linked has its host link and count it, if that does not
refuse its name. -/
theorem counters_exact (hr : Run Command.Counted .initial cmds s) :
    (∀ h, (takenBy cmds h).encard = (s.host h).installs) ∧
    (∀ u more t, Run Command.Counted s more t → s.isLinked u = true → t.isLinked u = true) ∧
    (∀ h, (linkedBy cmds h).encard = (s.host h).links) ∧
    (∀ u, s.isLinked u = true ↔ ∃ h, u ∈ linkedBy cmds h) ∧
    (∀ u h k, u ∈ linkedBy cmds h → u ∈ linkedBy cmds k → h = k) ∧
    {u | s.isLinked u = true}.encard = (∑ h ∈ s.hosts.keys.toFinset, (s.host h).links : ℕ) ∧
    ∀ l name scope, s.Holds l.path → s.KnowsScope scope →
      let found := s.perform (.load l name false scope)
      let linked := s.perform (.load l name true scope)
      (∀ u, linked.1 = .unit u → linked.2.isLinked u = true) ∧
      (∀ link m reason, (s.perform (.load l name link scope)).1
          = .failed (.error (.host (.linkFailed m reason))) →
        link = true ∧ (s.host l.host).refusals.unlinkable.get? m = some reason ∧ s.KeepsLinks linked.2 ∧
          ∃ u unit, found.1 = .unit u ∧ found.2.units.get? u = some unit ∧ unit.name = m ∧
            s.isLinked u = false ∧ linked.2.isLinked u = false ∧
            ∀ h, u ∉ linkedBy (cmds ++ [.load l name true scope]) h) ∧
      ∀ u unit, found.1 = .unit u → found.2.units.get? u = some unit → s.isLinked u = false →
        (s.host l.host).refusals.unlinkable.get? unit.name = none →
        linked.1 = .unit u ∧ LinksOne l.host u s linked.2 := by
  have hs : s.Consistent := hr.consistent .initial
  have hlinked := hr.linked
  refine ⟨(hr.mono fun _ hc => hc.1).installs_eq, fun u more t hm => hm.isLinked hs, hlinked.count, hlinked.flag,
    fun u h k => hlinked.unique, hlinked.total, ?_⟩
  intro l name scope hl hscope found linked
  refine ⟨fun u hu => load_gives_linked hs hl hscope hu, ?_, ?_⟩
  · intro link m reason hfailed
    obtain ⟨rfl, hrefused, hkeeps, u, unit, hfound, hx, hname, hdown⟩ := load_linkFailed hs hl hscope hfailed
    have hstill : linked.2.isLinked u = false := (hkeeps.isLinked u).trans hdown
    refine ⟨rfl, hrefused, hkeeps, u, unit, hfound, hx, hname, hdown, hstill, fun h hu => ?_⟩
    have hnext : Run Command.Counted .initial (cmds ++ [.load l name true scope]) linked.2 :=
      hr.step ⟨id, fun _ => Command.noConfusion⟩ ⟨hl, hscope⟩
    have hflag := (hnext.linked.flag u).2 ⟨h, hu⟩
    rw [hstill] at hflag
    cases hflag
  · intro u unit hu hx hdown hagreed
    exact load_links_found hs hl hscope hu hx hdown hagreed

end System

/-- A root loader with the second host. -/
def Loader.second : Loader := ⟨⟨1⟩, .root, ⟨1⟩, []⟩

namespace System

/-- A program with two hosts, the first of which refuses to link the unit that its loader has defined. -/
def refusing : List Command :=
  [.newHost ⟨.empty, .empty, .ofList [("a", "no symbol")]⟩, .newHost .none, .rootLoader ⟨0⟩, .rootLoader ⟨1⟩,
    .define .first ⟨"a", [1], none⟩]

/-- A load by each of the two loaders. -/
def loadTwice : List Command := [.load .first "a" true .empty, .load .second "a" true .empty]

theorem run_refusing : Run Command.Counted .initial refusing (initial.after refusing) :=
  .cons ⟨id, nofun⟩ trivial (.cons ⟨id, nofun⟩ trivial (.cons ⟨id, nofun⟩ rfl
    (.cons ⟨id, nofun⟩ rfl (.cons ⟨id, nofun⟩
      ⟨_, List.mem_cons_of_mem _ List.mem_cons_self, List.suffix_rfl⟩ .start))))

theorem refusing_holds_first : (initial.after refusing).Holds Loader.first.path :=
  ⟨_, List.mem_cons_of_mem _ List.mem_cons_self, List.suffix_rfl⟩

theorem run_loadTwice :
    Run Command.Counted .initial (refusing ++ loadTwice) (initial.after (refusing ++ loadTwice)) :=
  run_refusing.append (.cons ⟨id, nofun⟩ ⟨refusing_holds_first, knowsScope_empty _⟩
    (.cons ⟨id, nofun⟩ ⟨⟨_, List.mem_cons_self, List.suffix_rfl⟩, knowsScope_empty _⟩ .start))

/-- The first host has counted the unit that it took, and no link, since it refused to. The unit stayed
unlinked, and when the second loader was asked for it, the second host linked it and counted that. -/
theorem counters_exact_refusing :
    let s := initial.after refusing
    (s.perform (.load .first "a" true .empty)).1 = .failed (.error (.host (.linkFailed "a" "no symbol"))) ∧
      (s.perform (.load .first "a" true .empty)).2.isLinked ⟨1⟩ = false ∧
      (takenBy (refusing ++ loadTwice) ⟨0⟩).encard = 1 ∧ (linkedBy (refusing ++ loadTwice) ⟨0⟩).encard = 0 ∧
      (linkedBy (refusing ++ loadTwice) ⟨1⟩).encard = 1 ∧
      {u | (initial.after (refusing ++ loadTwice)).isLinked u = true}.encard = 1 := by
  intro s
  have hfailed : (s.perform (.load .first "a" true .empty)).1
      = .failed (.error (.host (.linkFailed "a" "no symbol"))) := rfl
  obtain ⟨-, -, -, -, -, -, hload⟩ := counters_exact run_refusing
  obtain ⟨-, hlinkFailed, -⟩ := hload .first "a" .empty refusing_holds_first (knowsScope_empty s)
  obtain ⟨-, -, -, u, unit, hu, -, -, -, hdown, -⟩ := hlinkFailed true _ _ hfailed
  obtain rfl : u = ⟨1⟩ := (Answer.unit.inj hu).symm
  obtain ⟨htaken, -, hlinked, -, -, htotal, -⟩ := counters_exact run_loadTwice
  exact ⟨hfailed, hdown, htaken ⟨0⟩, hlinked ⟨0⟩, hlinked ⟨1⟩, htotal⟩

end System

end UnitLoading
