/-
Defining: what a definition comes to, told by the handles that are held.

The code decides by what the caches and the host's table have. In a state that commands through the loaders
reach, those find a living unit of a name exactly if there is one (`Resident`), so the answer depends on
the living units only: neither entries that are left over from dead units, nor notices that nobody has
worked off, nor other loaders and hosts of the same context make a difference.
-/
import UnitLoading.Proofs.Residency

namespace UnitLoading

variable {s t : System} {c : ContextId} {h : HostId} {name : String} {u : UnitId} {d : Definition}
  {l : Loader}

namespace Host

/-- A host that takes everything has nothing against a unit with bytes whose name it does not have. -/
theorem refusal?_plain {alive : UnitId → Bool} {y : Host} (hplain : y.refusals = .none)
    (hnone : y.live? alive c d.name = none) :
    y.refusal? alive c d
      = if d.bytes = [] then some (.rejected d.name "unit has no bytes") else none := by
  have htaken : y.refusals.taken.get? d.name = none := by
    rw [hplain]
    rfl
  have hrejected : y.refusals.rejected.get? d.name = none := by
    rw [hplain]
    rfl
  rw [refusal?, htaken, hrejected, hnone]
  cases d.bytes <;> rfl

end Host

namespace System

-- ================================================================ new units

/-- From one state to the next, a loader's definition became a unit that was never there before. -/
structure Installs (s t : System) (l : Loader) (d : Definition) (u : UnitId) : Prop where
  new : ¬ s.Built u
  record : t.units.get? u = some ⟨u, d.name, some l.context, d.bytes, d.source, false⟩
  /-- The loader's host has the unit in its table and has counted it once. -/
  host : t.host l.host = (s.host l.host).withLoaded l.context d.name u
  /-- No other host has taken notice of it. -/
  hosts (h : HostId) : h ≠ l.host → t.host h = s.host h
  lives : t.Lives l.context d.name u
  /-- Every loader over the context finds the unit. -/
  found (k : Loader) : t.Holds k.path → k.context = l.context →
    (t.perform (.findResident k d.name)).1 = .unit u

theorem resident?_installed (s : System) (c : ContextId) (h : HostId) (d : Definition) :
    (s.installed c h d).resident? c d.name = some s.nextUnit := by
  have halive : (s.installed c h d).alive s.nextUnit = true := alive_of_mem_handles List.mem_cons_self
  refine UnitCache.live?_eq_some_iff.2 ⟨?_, halive⟩
  exact (entryAt?_installed ..).trans (if_pos ⟨rfl, rfl⟩)

theorem installs_installed (hs : s.Consistent) (ha : s.Admits l.context l.host d) :
    s.Installs (s.installed l.context l.host d) l d s.nextUnit where
  new := not_built_nextUnit hs.toNumbered
  record := (get?_withNew (some l.context) d).trans (if_pos rfl)
  host := (host_setHost ..).trans (if_pos rfl)
  hosts _ hk := (host_setHost ..).trans (if_neg hk)
  lives := (lives_withNew hs.toNumbered (some l.context) d).2 (.inl ⟨rfl, rfl, rfl⟩)
  found k hk hc := by
    have hcon := hs.installed ha
    have hfound := (findResident_outcome hcon (Holds.stop hk hcon).1 d.name).of_lookup
    rw [hc, resident?_installed] at hfound
    show Answer.ofLookup ((s.installed l.context l.host d).findResident k.context d.name).1 = _
    rw [hc]
    exact hfound

/-- Only the units and the hosts before a definition matter. -/
theorem Installs.of_same {r : System} (hi : r.Installs t l d u) (hu : r.units = s.units)
    (hh : r.hosts = s.hosts) : s.Installs t l d u where
  new := by
    rw [Built, ← hu]
    exact hi.new
  record := hi.record
  host := by
    rw [hi.host, System.host, System.host, hh]
  hosts k hk := by
    rw [hi.hosts k hk, System.host, System.host, hh]
  lives := hi.lives
  found := hi.found

-- ================================================================ definitions

/-- What a definition comes to at a host that takes everything. In a closed context it fails. Where a unit
of its name lives, it gives that unit or fails, as the bytes are the same or not, and where none lives, it
fails without bytes and otherwise installs a new unit. -/
theorem define_characterized (hr : s.Reachable Command.LoaderLevel) (hl : s.Holds l.path)
    (hplain : (s.host l.host).refusals = .none) (d : Definition) :
    ((s.context l.context).closed = true →
      (s.perform (.define l d)).1 = .failed (.error (.closed l.context))) ∧
    ((s.context l.context).closed = false → ∀ u x, s.Lives l.context d.name u →
      s.units.get? u = some x →
        (x.bytes = d.bytes → (s.perform (.define l d)).1 = .unit u) ∧
        (x.bytes ≠ d.bytes → (s.perform (.define l d)).1
          = .failed (.error (.duplicateDefinition d.name l.context))) ∧
        (s.perform (.define l d)).2.hosts = s.hosts) ∧
    ((s.context l.context).closed = false → (∀ u, ¬ s.Lives l.context d.name u) →
      (d.bytes = [] → (s.perform (.define l d)).1
        = .failed (.error (.host (.rejected d.name "unit has no bytes")))) ∧
      (d.bytes ≠ [] → ∃ u, (s.perform (.define l d)).1 = .unit u ∧
        s.Installs (s.perform (.define l d)).2 l d u)) := by
  have hs := hr.consistent
  have hres := hr.resident
  obtain ⟨hc, hh⟩ := Holds.stop hl hs
  have heq := defineIn_eq hs hc l.host d
  simp only [perform, answering, System.define, heq]
  refine ⟨fun hclosed => ?_, fun hopen u x hu hx => ?_, fun hopen hnone => ?_⟩
  · rw [if_pos hclosed]
    rfl
  · have hbytes : s.hasBytes u d.bytes = decide (x.bytes = d.bytes) := by
      rw [hasBytes, hx]
      rfl
    rw [(hres.resident?_iff hopen).2 hu]
    simp only [hopen, hbytes, Bool.false_eq_true, ↓reduceIte, decide_eq_true_eq]
    refine ⟨fun hsame => ?_, fun hother => ?_, ?_⟩
    · rw [if_pos hsame]
      rfl
    · rw [if_neg hother]
      rfl
    · split <;> rfl
  · have habsent := hres.resident?_none hnone
    have hrefusal := Host.refusal?_plain hplain (hres.loaded?_none hnone l.host)
    rw [habsent, hrefusal]
    simp only [hopen, Bool.false_eq_true, ↓reduceIte]
    refine ⟨fun hempty => ?_, fun hfull => ?_⟩
    · rw [if_pos hempty]
      rfl
    · rw [if_neg hfull] at hrefusal ⊢
      have hup : Upkeeps s (s.sweep l.context).2 := .single (.sweep hc)
      have hadmits : s.Admits l.context l.host d := ⟨hc, hh, hopen, habsent, hrefusal⟩
      have hinstalls := installs_installed (hup.consistent hs) (hadmits.of_sameLife (hup.sameLife hs))
      exact ⟨s.nextUnit, rfl, hinstalls.of_same rfl rfl⟩

/-- The same bytes give the unit that is there, other bytes fail, no bytes fail, and a name of which no
unit lives gets a new one. -/
theorem define_characterized_stocked :
    (System.stocked.perform (.define .first ⟨"a", [1], none⟩)).1 = .unit ⟨1⟩ ∧
      (System.stocked.perform (.define .first ⟨"a", [2], none⟩)).1
        = .failed (.error (.duplicateDefinition "a" .root)) ∧
      (System.stocked.perform (.define .first ⟨"b", [], none⟩)).1
        = .failed (.error (.host (.rejected "b" "unit has no bytes"))) ∧
      ∃ u, (System.stocked.perform (.define .first ⟨"b", [1], none⟩)).1 = .unit u := by
  have hdefine := define_characterized reachable_stocked stocked_holds_first rfl
  refine ⟨?_, ?_, ?_, ?_⟩
  · exact ((hdefine ⟨"a", [1], none⟩).2.1 rfl ⟨1⟩ _ lives_stocked rfl).1 rfl
  · exact ((hdefine ⟨"a", [2], none⟩).2.1 rfl ⟨1⟩ _ lives_stocked rfl).2.1 (by decide)
  · exact ((hdefine ⟨"b", [], none⟩).2.2 rfl not_lives_stocked).1 rfl
  · obtain ⟨u, hu, -⟩ := ((hdefine ⟨"b", [1], none⟩).2.2 rfl not_lives_stocked).2 (by decide)
    exact ⟨u, hu⟩

end System

end UnitLoading
