/-
The frame of a close: what it changes, and that it changes nothing else.

A close that does something empties one context for good and takes the entries of that context out of the
table of one host (`ClosesOnly`). All other contexts, above, below and beside it, and all other hosts are the
very same records as before. The path of every context stays, so every scope has the same chain, and a walk
along it differs only in that it passes the closed context by: the others come in the same order and have
what they had (`ClosesOnly.along?`).
-/
import UnitLoading.Proofs.ChainWalk
import UnitLoading.Proofs.HostRegister

namespace UnitLoading

variable {s t : System} {c a : ContextId} {h k : HostId} {name : String} {u : UnitId} {l : Loader}
  {scope : ResolutionScope}

namespace System

-- ================================================================ one context and one host

/-- The context is closed and empty, the host has lost the entries of that context, and nothing else has
changed. -/
structure ClosesOnly (c : ContextId) (h : HostId) (s t : System) : Prop where
  emptied : t.context c = ⟨(s.context c).ancestors, .empty, .empty, true⟩
  slot (a : ContextId) (name : String) : t.slot? h a name = if a = c then none else s.slot? h a name
  otherContext {a : ContextId} : a ≠ c → t.context a = s.context a
  otherHost {k : HostId} : k ≠ h → t.host k = s.host k
  sameHost : t.host h = { s.host h with loaded := (t.host h).loaded }
  knows (a : ContextId) : t.Knows a ↔ s.Knows a
  hasHost (k : HostId) : t.HasHost k ↔ s.HasHost k
  elsewhere : t = { s with contexts := t.contexts, hosts := t.hosts }

theorem closesOnly_shut (hc : s.Knows c) (hh : s.HasHost h) : ClosesOnly c h s (s.shut c h) where
  emptied := (context_setContext ..).trans (if_pos rfl)
  slot a name := by
    have hhost : (s.shut c h).host h = (s.host h).release c := (host_setHost ..).trans (if_pos rfl)
    rw [slot?, hhost, get?_release, ite_not]
    rfl
  otherContext hne := (context_setContext ..).trans (if_neg hne)
  otherHost hne := host_setHost_of_ne hne.symm
  sameHost := by
    have hhost : (s.shut c h).host h = (s.host h).release c := (host_setHost ..).trans (if_pos rfl)
    rw [hhost]
    rfl
  knows _ := knows_setContext hc
  hasHost _ := hasHost_setHost hh
  elsewhere := rfl

/-- A close does something only to an open context that is not the root. -/
theorem close_of_guard (hguard : (s.context l.context).closed = true ∨ l.context = .root) :
    s.close l = s := by
  rw [close_eq, if_pos]
  rw [Bool.or_eq_true, ContextId.isRoot, decide_eq_true_eq]
  exact hguard.symm

theorem close_of_open (hopen : (s.context l.context).closed = false) (hroot : l.context ≠ .root) :
    s.close l = s.shut l.context l.host := by
  rw [close_eq, if_neg]
  rw [Bool.or_eq_true, ContextId.isRoot, decide_eq_true_eq, hopen]
  exact fun hguard => hguard.elim hroot Bool.noConfusion

namespace ClosesOnly

/-- The same units live: nobody takes or gives up a handle. -/
theorem alive (ht : ClosesOnly c h s t) (u : UnitId) : t.alive u = s.alive u := by
  rw [ht.elsewhere]
  rfl

theorem isLinked (ht : ClosesOnly c h s t) (u : UnitId) : t.isLinked u = s.isLinked u := by
  rw [ht.elsewhere]
  rfl

/-- Neither host has counted anything. -/
theorem counters (ht : ClosesOnly c h s t) (k : HostId) :
    (t.host k).installs = (s.host k).installs ∧ (t.host k).links = (s.host k).links := by
  by_cases hk : k = h
  · rw [hk, ht.sameHost]
    exact ⟨rfl, rfl⟩
  · rw [ht.otherHost hk]
    exact ⟨rfl, rfl⟩

theorem ancestors (ht : ClosesOnly c h s t) (a : ContextId) :
    (t.context a).ancestors = (s.context a).ancestors := by
  by_cases ha : a = c
  · rw [ha, ht.emptied]
  · rw [ht.otherContext ha]

-- ================================================================ chains

/-- No context is closed that was not, but this one. -/
theorem closed (ht : ClosesOnly c h s t) (a : ContextId) :
    (t.context a).closed = true ↔ a = c ∨ (s.context a).closed = true := by
  by_cases ha : a = c
  · rw [ha, ht.emptied]
    simp
  · rw [ht.otherContext ha, or_iff_right ha]

theorem chain (ht : ClosesOnly c h s t) (scope : ResolutionScope) : t.chain scope = s.chain scope := by
  rw [System.chain, System.chain, funext ht.ancestors]

theorem knowsScope (ht : ClosesOnly c h s t) (hscope : s.KnowsScope scope) : t.KnowsScope scope :=
  fun a ha => (ht.knows a).2 (hscope a ha)

/-- A walk finds what it found before if it passes the closed context by. -/
theorem along? (ht : ClosesOnly c h s t) (name : String) (cs : List ContextId) :
    t.along? name cs = s.along? name (cs.filter fun a => a ≠ c) := by
  induction cs with
  | nil => rfl
  | cons a cs ih =>
    rw [along?_cons, ih]
    by_cases ha : a = c
    · rw [ha, if_pos ((ht.closed c).2 (.inl rfl)), List.filter_cons_of_neg (by simp), Option.none_or]
    · have hresident : t.resident? a name = s.resident? a name := by
        rw [System.resident?, System.resident?, ht.otherContext ha, funext ht.alive]
      rw [ht.otherContext ha, hresident, List.filter_cons_of_pos (by simpa using ha), along?_cons]

end ClosesOnly

/-- Passing a context by makes a difference to a walk only where the walk found the unit in that context. -/
theorem along?_filter_ne (s : System) (c : ContextId) (name : String) (cs : List ContextId) :
    s.along? name (cs.filter fun a => a ≠ c) = s.along? name cs ∨
      ∃ u, s.along? name cs = some u ∧ s.resident? c name = some u := by
  induction cs with
  | nil => exact .inl rfl
  | cons a cs ih =>
    rw [along?_cons]
    by_cases ha : a = c
    · rw [ha, List.filter_cons_of_neg (by simp)]
      cases hhere : (if (s.context c).closed then none else s.resident? c name) with
      | none => exact ih
      | some u =>
        right
        refine ⟨u, rfl, ?_⟩
        split at hhere
        · cases hhere
        · exact hhere
    · rw [List.filter_cons_of_pos (by simpa using ha), along?_cons]
      cases (if (s.context a).closed then none else s.resident? a name) with
      | none => exact ih
      | some u => exact .inl rfl

theorem answer_of_along? (hs : s.Consistent) (hscope : s.KnowsScope scope) (name : String) :
    (s.perform (.resolveViaChain scope name)).1 = .ofLookup (s.along? name (s.chain scope)) :=
  (resolveViaChain_outcome hs hscope name).of_lookup

-- ================================================================ closing

/-- A close of an open context that is not the root empties that context and sets its flag, takes its entries
and no others from the host of the loader, and changes nothing else: no other context or host, no unit and no
counter. Every scope has the same chain, on which the closed context is passed by, so an answer along it
changes only if it was a unit found there. Any other close changes nothing at all. -/
theorem closing_confined (hr : s.Reachable Command.Public) (hl : s.Holds l.path) :
    ((s.context l.context).closed = true ∨ l.context = .root → (s.perform (.close l)).2 = s) ∧
    ((s.context l.context).closed = false → l.context ≠ .root →
      let t := (s.perform (.close l)).2
      ClosesOnly l.context l.host s t ∧
      (∀ u, t.alive u = s.alive u ∧ t.isLinked u = s.isLinked u) ∧
      (∀ k, (t.host k).installs = (s.host k).installs ∧ (t.host k).links = (s.host k).links) ∧
      ∀ scope, s.KnowsScope scope → t.chain scope = s.chain scope ∧ ∀ name,
        (s.perform (.resolveViaChain scope name)).1 = .ofLookup (s.along? name (s.chain scope)) ∧
        (t.perform (.resolveViaChain scope name)).1
          = .ofLookup (s.along? name ((s.chain scope).filter fun a => a ≠ l.context)) ∧
        ((t.perform (.resolveViaChain scope name)).1 ≠ (s.perform (.resolveViaChain scope name)).1 →
          ∃ u, (s.perform (.resolveViaChain scope name)).1 = .unit u ∧
            s.resident? l.context name = some u)) := by
  have hs := hr.consistent
  obtain ⟨hc, hh⟩ := Holds.stop hl hs
  refine ⟨close_of_guard, fun hopen hroot => ?_⟩
  have hclose : (s.perform (.close l)).2 = s.shut l.context l.host := close_of_open hopen hroot
  have hreach : (s.perform (.close l)).2.Reachable Command.Public := hr.step trivial hl
  have hcon := hreach.consistent
  have ht : ClosesOnly l.context l.host s (s.perform (.close l)).2 := by
    rw [hclose]
    exact closesOnly_shut hc hh
  refine ⟨ht, fun u => ⟨ht.alive u, ht.isLinked u⟩, ht.counters, fun scope hscope => ⟨ht.chain scope, ?_⟩⟩
  intro name
  have hbefore := answer_of_along? hs hscope name
  have hafter := answer_of_along? hcon (ht.knowsScope hscope) name
  rw [ht.chain, ht.along?] at hafter
  refine ⟨hbefore, hafter, fun hchanged => ?_⟩
  rcases along?_filter_ne s l.context name (s.chain scope) with hsame | ⟨u, hfound, hresident⟩
  · rw [hbefore, hafter, hsame] at hchanged
    exact absurd rfl hchanged
  · rw [hbefore, hfound]
    exact ⟨u, rfl, hresident⟩

/-- The nested loader is closed: its unit lives on but the chain through its context gives only what the root
has. Closing it again changes nothing, and neither does closing the loader over the root. -/
theorem closing_confined_branched :
    let closed := (branched.perform (.close .nested)).2
    let inner : ResolutionScope := .withActive ⟨1⟩
    (branched.perform (.resolveViaChain inner "b")).1 = .unit ⟨2⟩ ∧
      (closed.perform (.resolveViaChain inner "b")).1 = .absent ∧
      (closed.perform (.resolveViaChain inner "a")).1 = .unit ⟨1⟩ ∧
      closed.slot? ⟨0⟩ ⟨1⟩ "b" = none ∧ closed.slot? ⟨0⟩ .root "a" = some ⟨1⟩ ∧ closed.alive ⟨2⟩ = true ∧
      (closed.perform (.close .nested)).2 = closed ∧ (branched.perform (.close .first)).2 = branched := by
  intro closed inner
  have hreach := reachable_branched.public
  have hinner : branched.KnowsScope inner := knowsScope_withActive rfl
  have hlater : closed.Reachable Command.Public := hreach.step trivial branched_holds_nested
  obtain ⟨hclose, halive, -, hchain⟩ :=
    (closing_confined hreach branched_holds_nested).2 rfl (by decide)
  obtain ⟨-, hwalk⟩ := hchain inner hinner
  have hagain := (closing_confined (l := .nested) hlater branched_holds_nested).1 (.inl rfl)
  have hroot := (closing_confined hreach branched_holds_first).1 (.inr rfl)
  refine ⟨(hwalk "b").1, (hwalk "b").2.1, (hwalk "a").2.1, hclose.slot ⟨1⟩ "b", hclose.slot .root "a", ?_,
    hagain, hroot⟩
  exact (halive ⟨2⟩).1

end System

end UnitLoading
