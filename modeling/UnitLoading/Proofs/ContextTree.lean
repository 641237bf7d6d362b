/-
The tree of contexts: what stands above a context.

A context is made below another one and keeps the path to the root from then on. So a single change leaves
the tree as it is (`SameTree`), or it adds one leaf (`Change.sameTree_or_leaf`). Both keep the tree in order
(`Tree`): nothing is above the root, and above any other context are its parent, which is older, and what is
above that one. From this it follows by induction on the number of a context that a path to the root leads
from newer contexts to older ones and ends there.
-/
import UnitLoading.Proofs.Fading

namespace UnitLoading

variable {s t r : System} {c a : ContextId} {u : UnitId} {x : Context} {cmds : List Command}
  {permitted : Command → Prop}

namespace System

-- ================================================================ steps and the tree

/-- The same contexts were made, and each has the same ones above it. -/
structure SameTree (s t : System) : Prop where
  knows (c : ContextId) : t.Knows c ↔ s.Knows c
  ancestors (c : ContextId) : (t.context c).ancestors = (s.context c).ancestors

namespace SameTree

theorem trans (hst : s.SameTree t) (htr : t.SameTree r) : s.SameTree r where
  knows c := (htr.knows c).trans (hst.knows c)
  ancestors c := (htr.ancestors c).trans (hst.ancestors c)

theorem of_contexts (hc : t.contexts = s.contexts) : s.SameTree t where
  knows c := by rw [Knows, Knows, hc]
  ancestors c := by rw [context, context, hc]

theorem setContext (hc : s.Knows c) (hx : x.ancestors = (s.context c).ancestors) :
    s.SameTree (s.setContext c x) where
  knows _ := knows_setContext hc
  ancestors := context_setContext_congr (f := Context.ancestors) hx

/-- A notice is posted to a context that is there. -/
theorem buryIfDead (hn : s.Numbered) (u : UnitId) : s.SameTree (s.buryIfDead u) where
  knows _ := knows_buryIfDead hn
  ancestors c := by
    unfold System.buryIfDead
    split
    · rfl
    · rw [context_bury]

theorem release (hn : s.Numbered) (u : UnitId) : s.SameTree (s.release u) := by
  unfold System.release
  split
  · have hn' : ({ s with handles := s.handles.erase u } : System).Numbered := hn.congr rfl rfl rfl
    exact SameTree.trans (t := { s with handles := s.handles.erase u }) (of_contexts rfl) (.buryIfDead hn' u)
  · exact of_contexts rfl

theorem disown (hn : s.Numbered) (u : UnitId) : s.SameTree (s.disown u) := by
  unfold System.disown
  split
  · have hn' : ({ s with owned := s.owned.erase u } : System).Numbered := hn.congr rfl rfl rfl
    exact SameTree.trans (t := { s with owned := s.owned.erase u }) (of_contexts rfl) (.buryIfDead hn' u)
  · exact of_contexts rfl

end SameTree

/-- A change leaves the tree as it is, or it makes a context. -/
theorem Change.sameTree_or_leaf (hc : Change s t) (hs : s.Consistent) :
    s.SameTree t ∨ ∃ parent, s.Knows parent ∧ t = (s.newContext parent).2 := by
  cases hc with
  | newContext hp => exact .inr ⟨_, hp, rfl⟩
  | upkeep hu =>
    have hlife := hu.sameLife hs
    exact .inl ⟨hlife.knows, hlife.ancestors⟩
  | release u => exact .inl (.release hs.toNumbered u)
  | @installed c h d ha =>
    refine .inl ⟨fun _ => knows_setContext ha.knows, fun a => ?_⟩
    rw [context_installed]
    split
    · next hac => rw [hac]
    · rfl
  | @link h u _ _ _ =>
    have hcontexts : (s.link h u).2.contexts = s.contexts := by
      unfold System.link
      split
      · rfl
      · split <;> rfl
    exact .inl (.of_contexts hcontexts)
  | markLinked u =>
    have hcontexts : (s.markLinked u).2.contexts = s.contexts := by
      unfold System.markLinked
      split <;> rfl
    exact .inl (.of_contexts hcontexts)
  | @newForeign units via hu hvia raises =>
    -- the numbering goes along, since notices are posted to contexts that are there
    obtain ⟨-, htree⟩ := adopt_induction (P := fun t => t.Sound ∧ s.SameTree t)
      (fun t v ht hv => ⟨ht.1.own (alive_of_mem_handles hv), ht.2.trans (.of_contexts rfl)⟩)
      (fun t v ht => ⟨ht.1.disown v, ht.2.trans (.disown ht.1.toNumbered v)⟩)
      units .empty s ⟨hs.toSound, .of_contexts rfl⟩ hu
    exact .inl (htree.trans (.of_contexts rfl))
  | @letGo path hp =>
    have hunheld : (s.unheld path).Sound := hs.toSound.congr rfl rfl rfl rfl rfl
    obtain ⟨-, htree⟩ := letGo_induction (s := s) path (P := fun t => t.Sound ∧ s.SameTree t)
      (fun t v ht => ⟨ht.1.disown v, ht.2.trans (.disown ht.1.toNumbered v)⟩)
      ⟨hunheld, .of_contexts rfl⟩
    exact .inl htree
  | register hc _ g values => exact .inl (.setContext hc rfl)
  | @shut c h hc _ _ _ =>
    have hclosed : s.SameTree (s.setContext c (s.context c).close) := .setContext hc rfl
    exact .inl (hclosed.trans (.of_contexts rfl))
  | retain | detached | newHost | newLoader | hold | publish | addLocation => exact .inl (.of_contexts rfl)

theorem Write.sameTree (hw : Write s t) : s.SameTree t := by
  cases hw with
  | record hc | clear hc | drain hc | pools hc => exact .setContext hc rfl
  | release => exact .of_contexts rfl
  | @install h u _ _ c =>
    refine .of_contexts ?_
    unfold System.install
    split
    · rfl
    · split <;> rfl

-- ================================================================ the tree in order

/-- Nothing is above the root, and above any other context are an older one and what is above that. -/
structure Tree (s : System) : Prop where
  root : (s.context .root).ancestors = []
  parent {c : ContextId} : s.Knows c → c ≠ .root →
    ∃ p, s.Knows p ∧ p.val < c.val ∧ (s.context c).ancestors = p :: (s.context p).ancestors

namespace Tree

theorem sameTree (hr : s.Tree) (ht : s.SameTree t) : t.Tree where
  root := (ht.ancestors .root).trans hr.root
  parent {c} hc hne := by
    obtain ⟨p, hp, hlt, hpath⟩ := hr.parent ((ht.knows c).1 hc) hne
    refine ⟨p, (ht.knows p).2 hp, hlt, ?_⟩
    rw [ht.ancestors, ht.ancestors]
    exact hpath

/-- A new context is a leaf: its number is above all that were given out. -/
theorem newContext {parent : ContextId} (hr : s.Tree) (hn : s.Numbered) (hp : s.Knows parent) :
    (s.newContext parent).2.Tree := by
  have hknown : ∀ {b : ContextId}, s.Knows b → b ≠ ⟨s.contexts.size⟩ := by
    rintro b hb rfl
    exact absurd ((hn.context_iff _).1 hb) (Nat.lt_irrefl _)
  have hold : ∀ {b : ContextId}, s.Knows b → (s.newContext parent).2.context b = s.context b :=
    fun hb => (context_setContext ..).trans (if_neg (hknown hb))
  refine ⟨?_, fun {c} hc hne => ?_⟩
  · rw [hold hn.root]
    exact hr.root
  · by_cases hnew : c = ⟨s.contexts.size⟩
    · subst hnew
      refine ⟨parent, Knows.setContext hp _, (hn.context_iff parent).1 hp, ?_⟩
      rw [hold hp]
      exact congrArg Context.ancestors ((context_setContext ..).trans (if_pos rfl))
    · have hk : s.Knows c := by
        simpa [Knows, System.newContext, System.setContext, hnew] using hc
      obtain ⟨p, hkp, hlt, hpath⟩ := hr.parent hk hne
      refine ⟨p, Knows.setContext hkp _, hlt, ?_⟩
      rw [hold hk, hold hkp]
      exact hpath

theorem moves (hr : s.Tree) (hs : s.Consistent) (hm : Moves s t) : t.Tree := by
  induction hm with
  | refl => exact hr
  | tail hrest hstep ih =>
    rcases hstep with hc | hw
    · have hcon := Moves.consistent hrest hs
      rcases hc.sameTree_or_leaf hcon with hsame | ⟨parent, hp, rfl⟩
      · exact ih.sameTree hsame
      · exact ih.newContext hcon.toNumbered hp
    · exact ih.sameTree hw.sameTree

/-- A path to the root leads from newer contexts to older ones. -/
theorem descending (hr : s.Tree) (hc : s.Knows c) :
    (c :: (s.context c).ancestors).Pairwise fun a b => b.val < a.val := by
  obtain ⟨n, hn⟩ : ∃ n, n = c.val := ⟨_, rfl⟩
  induction n using Nat.strongRecOn generalizing c with
  | ind n ih =>
    by_cases hroot : c = .root
    · rw [hroot, hr.root]
      exact List.pairwise_singleton ..
    · obtain ⟨p, hp, hlt, hpath⟩ := hr.parent hc hroot
      have habove := ih p.val (by omega) hp rfl
      rw [hpath]
      refine List.pairwise_cons.2 ⟨fun b hb => ?_, habove⟩
      rcases List.mem_cons.1 hb with rfl | hb
      · exact hlt
      · exact Nat.lt_trans ((List.pairwise_cons.1 habove).1 b hb) hlt

/-- A path to the root ends there. -/
theorem ends_at_root (hr : s.Tree) (hc : s.Knows c) :
    (c :: (s.context c).ancestors).getLast? = some .root := by
  obtain ⟨n, hn⟩ : ∃ n, n = c.val := ⟨_, rfl⟩
  induction n using Nat.strongRecOn generalizing c with
  | ind n ih =>
    by_cases hroot : c = .root
    · rw [hroot, hr.root]
      rfl
    · obtain ⟨p, hp, hlt, hpath⟩ := hr.parent hc hroot
      rw [hpath, List.getLast?_cons_cons]
      exact ih p.val (by omega) hp rfl

end Tree

-- ================================================================ every run

theorem tree_initial : System.initial.Tree where
  root := (context_initial .root "").1
  parent hc hne := absurd (knows_initial.1 hc) hne

end System

/-- In every state that a program can reach, the tree of contexts is in order. -/
theorem System.Reachable.tree (hr : s.Reachable permitted) : s.Tree := by
  obtain ⟨cmds, hr⟩ := hr
  induction hr with
  | start => exact System.tree_initial
  | step hrun _ hp ih =>
    have hcon := hrun.consistent .initial
    exact ih.moves hcon (System.perform_moves hcon hp)

end UnitLoading
