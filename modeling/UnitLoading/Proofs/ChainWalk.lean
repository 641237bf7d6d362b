/-
The walk along the chain of a scope, compared with the plain walk.

The plain walk goes over every override and what is above it, innermost override first, without noticing
that it has been at a context before (`ResolutionScope.route`). The chain has the same contexts in the order
in which the plain walk first comes by them, each of them once, and whatever the plain walk finds, the walk
along the chain finds. That is so although looking into a cache changes it: a context at which a walk went
by has nothing of the name when the walk comes by again (`Barren`), and keeps having nothing while other
caches are looked into. So leaving out the repetitions spares work and changes neither answer nor state
(`firstCached_firsts`).
-/
import UnitLoading.Proofs.Children
import UnitLoading.Proofs.ContextTree
import UnitLoading.Proofs.Isolation

namespace UnitLoading

variable {s t : System} {c a b : ContextId} {name : String} {scope : ResolutionScope}
  {above : ContextId → List ContextId} {seen l : List ContextId}

namespace ResolutionScope

-- ================================================================ the order of the chain

/-- Every override followed by what is above it, innermost override first, with all repetitions; the root
alone if there is no override. -/
def route (above : ContextId → List ContextId) (scope : ResolutionScope) : List ContextId :=
  (scope.overrides.flatMap fun c => c :: above c) ++ if scope.overrides = [] then [.root] else []

/-- An item that came before adds nothing at the end. -/
theorem firsts_append_singleton (h : c ∈ l ∨ c ∈ seen) : firsts seen (l ++ [c]) = firsts seen l := by
  induction l generalizing seen with
  | nil =>
    have hseen : c ∈ seen := h.resolve_left List.not_mem_nil
    simp [firsts, hseen]
  | cons d ds ih =>
    rw [List.cons_append]
    by_cases hd : d ∈ seen
    · have hrest : c ∈ ds ∨ c ∈ seen := by
        rcases h with h | h
        · rcases List.mem_cons.1 h with rfl | h
          · exact .inr hd
          · exact .inl h
        · exact .inr h
      rw [firsts, firsts, if_pos hd, if_pos hd, ih hrest]
    · have hrest : c ∈ ds ∨ c ∈ d :: seen := by
        rcases h with h | h
        · rcases List.mem_cons.1 h with rfl | h
          · exact .inr List.mem_cons_self
          · exact .inl h
        · exact .inr (List.mem_cons_of_mem _ h)
      rw [firsts, firsts, if_neg hd, if_neg hd, ih hrest]

/-- Where every override is or is under the root, the chain is made of the first items of the route. -/
theorem chain_eq_firsts_route (hroot : ∀ c ∈ scope.overrides, .root ∈ c :: above c) :
    scope.chain above = firsts [] (scope.route above) := by
  unfold chain walk route
  cases hover : scope.overrides with
  | nil => rfl
  | cons c cs =>
    have hfirst : ContextId.root ∈ c :: above c := hroot c (by rw [hover]; exact List.mem_cons_self)
    have hmem : ContextId.root ∈ (c :: cs).flatMap fun c => c :: above c :=
      List.mem_flatMap.2 ⟨c, List.mem_cons_self, hfirst⟩
    rw [if_neg (List.cons_ne_nil c cs), List.append_nil, firsts_append_singleton (.inl hmem)]

/-- The first items of a list stand in the order in which they first come in it. -/
theorem firsts_pairwise (seen l : List ContextId) :
    (firsts seen l).Pairwise fun a b => l.idxOf a < l.idxOf b := by
  induction l generalizing seen with
  | nil => exact .nil
  | cons d ds ih =>
    have hlater : ∀ {a b : ContextId}, a ≠ d → b ≠ d → ds.idxOf a < ds.idxOf b →
        (d :: ds).idxOf a < (d :: ds).idxOf b := by
      intro a b ha hb hlt
      rw [List.idxOf_cons_ne _ ha.symm, List.idxOf_cons_ne _ hb.symm]
      exact Nat.succ_lt_succ hlt
    have hne : ∀ {seen : List ContextId} {a : ContextId}, d ∈ seen → a ∈ firsts seen ds → a ≠ d := by
      rintro seen a hd ha rfl
      exact (mem_firsts.1 ha).2 hd
    by_cases hd : d ∈ seen
    · rw [firsts, if_pos hd]
      exact (ih seen).imp_of_mem fun ha hb => hlater (hne hd ha) (hne hd hb)
    · have hself : d ∈ d :: seen := List.mem_cons_self
      rw [firsts, if_neg hd]
      refine List.pairwise_cons.2 ⟨fun b hb => ?_, ?_⟩
      · rw [List.idxOf_cons_self, List.idxOf_cons_ne _ (hne hself hb).symm]
        exact Nat.succ_pos _
      · exact (ih (d :: seen)).imp_of_mem fun ha hb => hlater (hne hself ha) (hne hself hb)

end ResolutionScope

namespace System

-- ================================================================ contexts that were passed

/-- Whether a walk passes a context by without touching it: the context is closed or its cache has no entry
for the name, not even a stale one. -/
def Barren (s : System) (name : String) (c : ContextId) : Prop :=
  (s.context c).closed = true ∨ s.entryAt? c name = none

/-- The next state of a look-up that finds nothing: contexts that were barren still are, and so is the one
that was looked into. -/
theorem barren_of_cached_none (hnone : s.cached c name = (none, t)) :
    (∀ a, s.Knows a → t.Knows a) ∧ (∀ a, s.Barren name a → t.Barren name a) ∧ t.Barren name c := by
  obtain ⟨hgone, hkept⟩ := cached_frame hnone
  obtain ⟨-, rfl⟩ := cached_none hnone
  refine ⟨fun a hk => hk.setContext c, fun a hbarren => ?_, .inr hgone⟩
  refine hbarren.imp (fun hclosed => ?_) (hkept a).2
  refine Eq.trans (context_setContext_congr (f := Context.closed) ?_ a) hclosed
  rfl

/-- A walk does nothing at a barren context. -/
theorem firstCached_barren (hc : s.Knows c) (hbarren : s.Barren name c) (cs : List ContextId) :
    firstCached name (c :: cs) s = firstCached name cs s := by
  rw [firstCached]
  split
  · rfl
  · next hopen =>
    have hu : (s.context c).cache.entries.get? name = none := hbarren.resolve_left hopen
    have hcached : s.cached c name = (none, s) := by
      simp only [cached, onCache, UnitCache.get, hu, handOut, setContext_context hc]
    rw [hcached]

/-- Leaving out repetitions changes neither what a walk finds nor what it does. -/
theorem firstCached_firsts (hcs : ∀ c ∈ l, s.Knows c) (hseen : ∀ c ∈ seen, s.Barren name c) :
    firstCached name (ResolutionScope.firsts seen l) s = firstCached name l s := by
  induction l generalizing seen s with
  | nil => rfl
  | cons c cs ih =>
    have hc : s.Knows c := hcs c List.mem_cons_self
    have hrest : ∀ a ∈ cs, s.Knows a := fun a ha => hcs a (List.mem_cons_of_mem _ ha)
    by_cases hmem : c ∈ seen
    · rw [ResolutionScope.firsts, if_pos hmem, firstCached_barren hc (hseen c hmem)]
      exact ih hrest hseen
    · rw [ResolutionScope.firsts, if_neg hmem, firstCached, firstCached]
      split
      · next hclosed =>
        refine ih hrest fun a ha => ?_
        rcases List.mem_cons.1 ha with rfl | ha
        · exact .inl hclosed
        · exact hseen a ha
      · obtain ⟨found, t, ht⟩ : ∃ found t, s.cached c name = (found, t) := ⟨_, _, rfl⟩
        rw [ht]
        cases found with
        | some u => rfl
        | none =>
          obtain ⟨hknows, hkeeps, hpassed⟩ := barren_of_cached_none ht
          refine ih (fun a ha => hknows a (hrest a ha)) fun a ha => ?_
          rcases List.mem_cons.1 ha with rfl | ha
          · exact hpassed
          · exact hkeeps a (hseen a ha)

-- ================================================================ chains of a state

/-- The live unit of a name in the first open context of a list that has one. -/
def along? (s : System) (name : String) (cs : List ContextId) : Option UnitId :=
  cs.findSome? fun c => if (s.context c).closed then none else s.resident? c name

theorem along?_cons (s : System) (name : String) (c : ContextId) (cs : List ContextId) :
    s.along? name (c :: cs)
      = (if (s.context c).closed then none else s.resident? c name).or (s.along? name cs) := by
  rw [along?, List.findSome?_cons]
  split
  · next hfound => rw [hfound, Option.some_or]
  · next hnone => rw [hnone, Option.none_or, along?]

/-- The route of a scope in a state. -/
def route (s : System) (scope : ResolutionScope) : List ContextId :=
  scope.route fun c => (s.context c).ancestors

/-- In a tree, the chain of a scope is made of the first items of its route. -/
theorem Tree.chain_eq (ht : s.Tree) (hscope : s.KnowsScope scope) :
    s.chain scope = ResolutionScope.firsts [] (s.route scope) := by
  apply ResolutionScope.chain_eq_firsts_route
  intro c hc
  exact List.mem_of_getLast? (ht.ends_at_root (hscope c hc))

theorem Tree.knows_of_mem_route (ht : s.Tree) (hs : s.Consistent) (hscope : s.KnowsScope scope)
    (hc : c ∈ s.route scope) : s.Knows c := by
  apply knows_of_mem_chain hs hscope
  rw [ht.chain_eq hscope, ResolutionScope.mem_firsts]
  exact ⟨hc, List.not_mem_nil⟩

/-- The walk along the chain is the plain walk. -/
theorem Tree.resolveViaChain_eq (ht : s.Tree) (hs : s.Consistent) (hscope : s.KnowsScope scope)
    (name : String) : s.resolveViaChain scope name = firstCached name (s.route scope) s := by
  rw [resolveViaChain, ht.chain_eq hscope]
  exact firstCached_firsts (fun _ hc => ht.knows_of_mem_route hs hscope hc) fun _ hc =>
    absurd hc List.not_mem_nil

/-- What is above a context other than the root is its parent and what is above that one, in the order of
decreasing numbers, all of them below its own, and the root comes last. The chain of a scope has no context
twice; it has the overrides, what is above them and the root, in the order in which they first come in the
plain concatenation. For every name it gives the unit that a plain walk over that concatenation gives, which
takes the first open context with a living unit of the name, and it leaves the same state. -/
theorem chain_walk_specified (hr : s.Reachable Command.Public) (hscope : s.KnowsScope scope) :
    (∀ c, s.Knows c → c ≠ .root →
      (∃ p, (s.context c).parent? = some p ∧ (s.context c).ancestors = p :: (s.context p).ancestors) ∧
      (s.context c).ancestors.Pairwise (fun a b => b.val < a.val) ∧
      (∀ a ∈ (s.context c).ancestors, a.val < c.val) ∧
      (s.context c).ancestors.getLast? = some .root) ∧
    (s.context .root).ancestors = [] ∧
    (s.chain scope).Nodup ∧
    (∀ a, a ∈ s.chain scope ↔ a = .root ∨ ∃ o ∈ scope.overrides, a = o ∨ a ∈ (s.context o).ancestors) ∧
    (s.chain scope).Pairwise (fun a b => (s.route scope).idxOf a < (s.route scope).idxOf b) ∧
    ∀ name, (s.perform (.resolveViaChain scope name)).1 = .ofLookup (s.along? name (s.route scope)) ∧
      s.perform (.resolveViaChain scope name)
        = answering .ofLookup (firstCached name (s.route scope) s) := by
  have hs := hr.consistent
  have ht := hr.tree
  refine ⟨?_, ht.root, ResolutionScope.nodup_chain, fun a => mem_chain_iff, ?_, ?_⟩
  · intro c hc hne
    obtain ⟨p, hp, hlt, hpath⟩ := ht.parent hc hne
    obtain ⟨hbelow, hdescending⟩ := List.pairwise_cons.1 (ht.descending hc)
    have hlast := ht.ends_at_root hc
    rw [hpath, List.getLast?_cons_cons, ← hpath] at hlast
    refine ⟨⟨p, ?_, hpath⟩, hdescending, hbelow, hlast⟩
    rw [Context.parent?, hpath]
    rfl
  · rw [ht.chain_eq hscope]
    exact ResolutionScope.firsts_pairwise [] _
  · intro name
    have hroute := ht.resolveViaChain_eq hs hscope name
    refine ⟨?_, congrArg (answering Answer.ofLookup) hroute⟩
    show Answer.ofLookup (s.resolveViaChain scope name).1 = _
    rw [hroute]
    exact (firstCached_outcome hs name _ fun _ hc => ht.knows_of_mem_route hs hscope hc).of_lookup

/-- A program that makes three contexts, one of them under another, and defines a unit in the third one. -/
def forking : List Command :=
  [.newHost .none, .newContext .root, .newContext ⟨1⟩, .newContext .root, .loaderInContext none ⟨3⟩ [] ⟨0⟩,
    .define ⟨⟨0⟩, ⟨3⟩, ⟨0⟩, []⟩ ⟨"b", [2], none⟩]

/-- The state that the program leads to. -/
def forked : System := initial.after forking

theorem run_forking : Run Command.Public .initial forking forked :=
  .cons trivial trivial (.cons trivial rfl (.cons trivial rfl (.cons trivial rfl
    (.cons trivial ⟨nofun, rfl, rfl⟩ (.cons trivial ⟨_, List.mem_cons_self, List.suffix_rfl⟩ .start)))))

/-- A scope with overrides that are given twice or above one another: the contexts come in the order of their
first places, and the unit is found behind the root. -/
theorem chain_walk_specified_forked :
    let tangled : ResolutionScope := ⟨[⟨2⟩, ⟨3⟩, ⟨1⟩, ⟨2⟩]⟩
    forked.route tangled = [⟨2⟩, ⟨1⟩, .root, ⟨3⟩, .root, ⟨1⟩, .root, ⟨2⟩, ⟨1⟩, .root] ∧
      forked.chain tangled = [⟨2⟩, ⟨1⟩, .root, ⟨3⟩] ∧ (forked.chain tangled).Nodup ∧
      (forked.context ⟨2⟩).ancestors.getLast? = some .root ∧
      (forked.perform (.resolveViaChain tangled "b")).1 = .unit ⟨1⟩ := by
  intro tangled
  have hscope : forked.KnowsScope tangled := by
    have hall : ∀ c ∈ [(⟨2⟩ : ContextId), ⟨3⟩, ⟨1⟩, ⟨2⟩], (forked.contexts.get? c).isSome = true := by decide
    exact hall
  obtain ⟨htree, -, hnodup, -, -, hwalk⟩ := chain_walk_specified ⟨_, run_forking⟩ hscope
  exact ⟨by decide, by decide, hnodup, (htree ⟨2⟩ rfl (by decide)).2.2.2, (hwalk "b").1⟩

end System

end UnitLoading
