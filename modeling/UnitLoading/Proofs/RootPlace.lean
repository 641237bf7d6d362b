/-
Where the root stands in the chain of a scope, and what it hides.

A scope first searches its innermost override and what is above it (`front`), and that path ends at the root.
A context is searched at the first place at which it comes, so the root comes right there, before every outer
override that is not on this path. It comes last only if all overrides are on it; an outer override that is
not is hidden by the root for every name that the root has (`outer_override_hidden`).

So a name comes from the root exactly if the root has it and the contexts in front of the root have not; what
stands behind the root has no say (`root_searched_behind_front`).
-/
import UnitLoading.Proofs.ChainWalk

namespace UnitLoading

variable {s : System} {c a : ContextId} {name : String} {scope : ResolutionScope} {seen l : List ContextId}

namespace ResolutionScope

-- ================================================================ the beginning of a chain

/-- What comes later does not change the first items of what came before. -/
theorem firsts_prefix (seen l later : List ContextId) : firsts seen l <+: firsts seen (l ++ later) := by
  induction l generalizing seen with
  | nil => exact List.nil_prefix
  | cons d ds ih =>
    rw [List.cons_append, firsts, firsts]
    split
    · exact ih seen
    · exact List.cons_prefix_cons.2 ⟨rfl, ih (d :: seen)⟩

/-- Items that are new and all different are first items. -/
theorem firsts_of_nodup (hl : l.Nodup) (hnew : ∀ c ∈ l, c ∉ seen) : firsts seen l = l := by
  induction l generalizing seen with
  | nil => rfl
  | cons d ds ih =>
    obtain ⟨hd, hds⟩ := List.nodup_cons.1 hl
    rw [firsts, if_neg (hnew d List.mem_cons_self)]
    congr 1
    apply ih hds
    intro c hc hmem
    rcases List.mem_cons.1 hmem with rfl | hmem
    · exact hd hc
    · exact hnew c (List.mem_cons_of_mem _ hc) hmem

end ResolutionScope

namespace System

/-- The contexts that a scope searches first: its innermost override and what is above it. A scope without
overrides has the root alone. -/
def front (s : System) (scope : ResolutionScope) : List ContextId :=
  match scope.active? with
  | some c => c :: (s.context c).ancestors
  | none => [.root]

namespace Tree

/-- The paths of the contexts on a path are the ends of that path. -/
theorem path_suffix (ht : s.Tree) (hc : s.Knows c) (ha : a ∈ c :: (s.context c).ancestors) :
    (a :: (s.context a).ancestors) <:+ (c :: (s.context c).ancestors) := by
  obtain ⟨n, hn⟩ : ∃ n, n = c.val := ⟨_, rfl⟩
  induction n using Nat.strongRecOn generalizing c with
  | ind n ih =>
    rcases List.mem_cons.1 ha with rfl | habove
    · exact List.suffix_rfl
    · by_cases hroot : c = .root
      · rw [hroot, ht.root] at habove
        cases habove
      · obtain ⟨p, hp, hlt, hpath⟩ := ht.parent hc hroot
        rw [hpath] at habove ⊢
        exact (ih p.val (by omega) hp habove rfl).trans (List.suffix_cons _ _)

theorem front_getLast? (ht : s.Tree) (hscope : s.KnowsScope scope) :
    (s.front scope).getLast? = some .root := by
  unfold front ResolutionScope.active?
  cases hover : scope.overrides with
  | nil => rfl
  | cons c cs => exact ht.ends_at_root (hscope c (by rw [hover]; exact List.mem_cons_self))

/-- A chain begins with its front, and nothing of that comes again. -/
theorem exists_outer (ht : s.Tree) (hscope : s.KnowsScope scope) :
    ∃ outer, s.chain scope = s.front scope ++ outer ∧ ∀ a ∈ outer, a ∉ s.front scope := by
  have hprefix : s.front scope <+: s.chain scope := by
    rw [ht.chain_eq hscope, route, ResolutionScope.route, front, ResolutionScope.active?]
    cases hover : scope.overrides with
    | nil => exact List.prefix_rfl
    | cons c cs =>
      have hc : s.Knows c := hscope c (by rw [hover]; exact List.mem_cons_self)
      have hnodup : (c :: (s.context c).ancestors).Nodup :=
        (ht.descending hc).imp fun hlt he => absurd hlt (by rw [he]; exact Nat.lt_irrefl _)
      have hfirsts : ResolutionScope.firsts [] (c :: (s.context c).ancestors) = c :: (s.context c).ancestors :=
        ResolutionScope.firsts_of_nodup hnodup fun _ _ => List.not_mem_nil
      rw [if_neg (List.cons_ne_nil c cs), List.append_nil, List.flatMap_cons]
      show (c :: (s.context c).ancestors) <+: _
      conv => lhs; rw [← hfirsts]
      exact ResolutionScope.firsts_prefix [] _ _
  obtain ⟨outer, hchain⟩ := hprefix
  refine ⟨outer, hchain.symm, fun a ha hfront => ?_⟩
  have hnodup : (s.chain scope).Nodup := ResolutionScope.nodup_chain
  rw [← hchain] at hnodup
  exact List.disjoint_of_nodup_append hnodup hfront ha

/-- What is above an override in front is in front. -/
theorem front_closed (ht : s.Tree) (hscope : s.KnowsScope scope) {o : ContextId} (ho : o ∈ scope.overrides)
    (hfront : o ∈ s.front scope) (ha : a ∈ o :: (s.context o).ancestors) : a ∈ s.front scope := by
  unfold front at hfront ⊢
  cases hactive : scope.active? with
  | none =>
    have hnone : scope.overrides = [] := List.head?_eq_none_iff.1 hactive
    rw [hnone] at ho
    cases ho
  | some c =>
    rw [hactive] at hfront
    exact (ht.path_suffix (hscope c (List.mem_of_mem_head? hactive)) hfront).subset ha

/-- Where the root is the last context of a chain, the chain is its front. -/
theorem chain_eq_front (ht : s.Tree) (hscope : s.KnowsScope scope)
    (hend : (s.chain scope).getLast? = some .root) : s.chain scope = s.front scope := by
  obtain ⟨outer, hchain, hnew⟩ := ht.exists_outer hscope
  have houter : outer = [] := by
    by_contra hne
    -- the root would stand in front and behind it
    rw [hchain, List.getLast?_append_of_ne_nil _ hne] at hend
    exact hnew _ (List.mem_of_getLast? hend) (List.mem_of_getLast? (ht.front_getLast? hscope))
  rw [hchain, houter, List.append_nil]

/-- The root is the last context of a chain exactly if every override is in front. -/
theorem chain_getLast?_iff (ht : s.Tree) (hscope : s.KnowsScope scope) :
    (s.chain scope).getLast? = some .root ↔ ∀ o ∈ scope.overrides, o ∈ s.front scope := by
  have hlast := ht.front_getLast? hscope
  constructor
  · intro hend o ho
    rw [← ht.chain_eq_front hscope hend]
    exact mem_chain_iff.2 (.inr ⟨o, ho, .inl rfl⟩)
  · intro hall
    obtain ⟨outer, hchain, hnew⟩ := ht.exists_outer hscope
    have houter : outer = [] := by
      refine List.eq_nil_iff_forall_not_mem.2 fun a ha => hnew a ha ?_
      have hmem : a ∈ s.chain scope := by
        rw [hchain]
        exact List.mem_append_right _ ha
      rcases mem_chain_iff.1 hmem with rfl | ⟨o, ho, hao⟩
      · exact List.mem_of_getLast? hlast
      · exact ht.front_closed hscope ho (hall o ho) (List.mem_cons.2 hao)
    rw [hchain, houter, List.append_nil]
    exact hlast

end Tree

-- ================================================================ where a name comes from

/-- Whether a context is open and has a living unit of a name. -/
def offers (s : System) (name : String) (c : ContextId) : Bool :=
  !(s.context c).closed && (s.resident? c name).isSome

/-- The first of some contexts that offers a name. -/
def source? (s : System) (name : String) (cs : List ContextId) : Option ContextId := cs.find? (s.offers name)

/-- What is found along some contexts is what the first that offers the name has. -/
theorem along?_eq_source? (s : System) (name : String) (cs : List ContextId) :
    s.along? name cs = (s.source? name cs).bind fun c => s.resident? c name := by
  induction cs with
  | nil => rfl
  | cons c cs ih =>
    rw [along?_cons, ih, source?, source?, List.find?_cons, offers]
    cases hclosed : (s.context c).closed with
    | true => rfl
    | false =>
      cases hunit : s.resident? c name with
      | none => rfl
      | some u => exact hunit.symm

/-- A name comes from the root exactly if the root offers it and nothing else in front does. -/
theorem Tree.source?_eq_root_iff (ht : s.Tree) (hscope : s.KnowsScope scope) (name : String) :
    s.source? name (s.chain scope) = some .root ↔
      s.offers name .root = true ∧ ∀ a ∈ s.front scope, a ≠ .root → s.offers name a = false := by
  obtain ⟨outer, hchain, -⟩ := ht.exists_outer hscope
  obtain ⟨before, hfront⟩ := List.getLast?_eq_some_iff.1 (ht.front_getLast? hscope)
  have hnodup : (before ++ ([ContextId.root] ++ outer)).Nodup := by
    rw [← List.append_assoc, ← hfront, ← hchain]
    exact ResolutionScope.nodup_chain
  have hroot : ContextId.root ∉ before := fun hmem =>
    List.disjoint_of_nodup_append hnodup hmem (List.mem_append_left _ (List.mem_singleton.2 rfl))
  rw [source?, hchain, hfront, List.append_assoc, List.find?_append]
  constructor
  · intro hsource
    cases hfound : before.find? (s.offers name) with
    | some b =>
      rw [hfound] at hsource
      have hb : b = .root := Option.some.inj hsource
      rw [hb] at hfound
      exact absurd (List.mem_of_find?_eq_some hfound) hroot
    | none =>
      rw [hfound, Option.none_or] at hsource
      refine ⟨List.find?_some hsource, fun a ha hne => ?_⟩
      rcases List.mem_append.1 ha with ha | ha
      · exact Bool.eq_false_iff.2 (List.find?_eq_none.1 hfound a ha)
      · exact absurd (List.mem_singleton.1 ha) hne
  · rintro ⟨hoffers, hothers⟩
    have hnone : before.find? (s.offers name) = none := by
      refine List.find?_eq_none.2 fun a ha => ?_
      have hne : a ≠ .root := by
        rintro rfl
        exact hroot ha
      rw [hothers a (List.mem_append_left _ ha) hne]
      exact Bool.false_ne_true
    rw [hnone, Option.none_or, List.singleton_append, List.find?_cons, hoffers]

/-- A chain begins with the innermost override and what is above it, the last of which is the root; every other
context comes behind the root. So the root is the last context of the chain exactly if all overrides are in
front. A name comes from the root exactly if the root has it and no other open context in front has, whatever
stands behind the root; only where the root is the last context of the chain does that mean that no other
open context of the chain has it. -/
theorem root_searched_behind_front (hr : s.Reachable Command.Public) (hscope : s.KnowsScope scope) :
    (∃ outer, s.chain scope = s.front scope ++ outer ∧ .root ∉ outer) ∧
    (s.front scope).getLast? = some .root ∧
    ((s.chain scope).getLast? = some .root ↔ ∀ o ∈ scope.overrides, o ∈ s.front scope) ∧
    ∀ name,
      (s.perform (.resolveViaChain scope name)).1
        = .ofLookup ((s.source? name (s.chain scope)).bind fun c => s.resident? c name) ∧
      (s.source? name (s.chain scope) = some .root ↔
        s.offers name .root = true ∧ ∀ a ∈ s.front scope, a ≠ .root → s.offers name a = false) ∧
      ((s.chain scope).getLast? = some .root → s.source? name (s.chain scope) = some .root →
        ∀ a ∈ s.chain scope, a ≠ .root → s.offers name a = false) ∧
      -- by loaders alone, a unit of the root comes to be in no other cache
      (s.Reachable Command.LoaderLevel → ∀ u, s.resident? .root name = some u →
        (s.perform (.resolveViaChain scope name)).1 = .unit u →
        s.source? name (s.chain scope) = some .root) := by
  have ht := hr.tree
  have hlast := ht.front_getLast? hscope
  obtain ⟨outer, hchain, hnew⟩ := ht.exists_outer hscope
  refine ⟨⟨outer, hchain, fun hmem => hnew _ hmem (List.mem_of_getLast? hlast)⟩, hlast,
    ht.chain_getLast?_iff hscope, fun name => ?_⟩
  have hanswer : (s.perform (.resolveViaChain scope name)).1
      = .ofLookup ((s.source? name (s.chain scope)).bind fun c => s.resident? c name) := by
    rw [← along?_eq_source?]
    exact (resolveViaChain_outcome hr.consistent hscope name).of_lookup
  refine ⟨hanswer, ht.source?_eq_root_iff hscope name, fun hend hsource a ha hne => ?_, ?_⟩
  · rw [ht.chain_eq_front hscope hend] at ha
    exact ((ht.source?_eq_root_iff hscope name).1 hsource).2 a ha hne
  · intro hloader u hroot hu
    have hres := hloader.resident
    rw [hanswer] at hu
    obtain ⟨b, hsource, hb⟩ := Option.bind_eq_some_iff.1 (Answer.ofLookup_eq_unit.1 hu)
    have hdefined := hres.entry_defined (UnitCache.live?_eq_some_iff.1 hroot).1
    have hdefined' := hres.entry_defined (UnitCache.live?_eq_some_iff.1 hb).1
    rw [hsource, (hdefined'.unique hdefined).1]

-- ================================================================ a hidden override

/-- A program that makes two contexts under the root and defines a unit of one name in the root and in the
second of them. -/
def overriding : List Command :=
  [.newHost .none, .newContext .root, .newContext .root, .rootLoader ⟨0⟩, .loaderInContext none ⟨2⟩ [] ⟨0⟩,
    .define .first ⟨"a", [1], none⟩, .define ⟨⟨1⟩, ⟨2⟩, ⟨0⟩, []⟩ ⟨"a", [2], none⟩]

/-- The state that the program leads to. -/
def overridden : System := initial.after overriding

theorem run_overriding : Run Command.LoaderLevel .initial overriding overridden :=
  .cons id trivial (.cons id rfl (.cons id rfl (.cons id rfl (.cons id ⟨nofun, rfl, rfl⟩
    (.cons id ⟨_, List.mem_cons_of_mem _ List.mem_cons_self, List.suffix_rfl⟩
      (.cons id ⟨_, List.mem_cons_self, List.suffix_rfl⟩ .start))))))

/-- The scope with the second context as its outer override and the first as its inner one. -/
def siblings : ResolutionScope := ⟨[⟨1⟩, ⟨2⟩]⟩

theorem overridden_knows_siblings : overridden.KnowsScope siblings := by
  have hall : ∀ c ∈ [(⟨1⟩ : ContextId), ⟨2⟩], (overridden.contexts.get? c).isSome = true := by decide
  exact hall

/-- The root stands between the two overrides, and what it has is found from any inner override that has
nothing of the name; from the outer override alone, the outer override decides. -/
theorem root_searched_behind_front_siblings :
    overridden.front siblings = [⟨1⟩, .root] ∧
      (overridden.chain siblings).getLast? ≠ some .root ∧
      overridden.source? "a" (overridden.chain siblings) = some .root ∧
      (overridden.chain (.withActive ⟨2⟩)).getLast? = some .root ∧
      (overridden.perform (.resolveViaChain (.withActive ⟨2⟩) "a")).1 = .unit ⟨2⟩ := by
  have hreach : overridden.Reachable Command.LoaderLevel := ⟨_, run_overriding⟩
  have houter : overridden.KnowsScope (.withActive ⟨2⟩) := fun c hc =>
    overridden_knows_siblings c (List.mem_cons_of_mem _ hc)
  obtain ⟨-, -, hlast, hname⟩ := root_searched_behind_front hreach.public overridden_knows_siblings
  obtain ⟨-, -, hlast₂, hname₂⟩ := root_searched_behind_front hreach.public houter
  refine ⟨rfl, fun hend => ?_, (hname "a").2.1.2 ⟨by decide, by decide⟩, hlast₂.2 (by decide), ?_⟩
  · exact absurd (hlast.1 hend ⟨2⟩ (List.mem_cons_of_mem _ List.mem_cons_self)) (by decide)
  · rw [(hname₂ "a").1]
    rfl

/-- The root is not searched last: it gives its unit although the outer override is open and has a living
unit of the name. -/
theorem outer_override_hidden :
    overridden.Reachable Command.LoaderLevel ∧ overridden.KnowsScope siblings ∧
      (overridden.chain siblings).getLast? ≠ some .root ∧
      overridden.resident? .root "a" = some ⟨1⟩ ∧
      (overridden.perform (.resolveViaChain siblings "a")).1 = .unit ⟨1⟩ ∧
      (⟨2⟩ : ContextId) ∈ siblings.overrides ∧ (overridden.context ⟨2⟩).closed = false ∧
      overridden.resident? ⟨2⟩ "a" = some ⟨2⟩ :=
  ⟨⟨_, run_overriding⟩, overridden_knows_siblings, by decide, rfl, rfl, by decide, rfl, rfl⟩

end System

end UnitLoading
