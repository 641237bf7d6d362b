/-
The unit cache of a context. It maps names to units without keeping them alive: which units are alive is
for the caller to say, through the predicate `alive`. An entry whose unit has died is stale; it stays until
a look-up meets it, a definition replaces it or a sweep takes it out.

A unit that dies posts a notice. A sweep works off the notices, and removes an entry only if it still
points at the very unit of the notice: a fresher definition under the same name survives.
-/
import UnitLoading.Ident
import UnitLoading.Table

namespace UnitLoading

/-- The news that a unit which was defined as `name` has lost its last handle. -/
structure Notice where
  name : String
  unit : UnitId
  deriving DecidableEq, Repr

/-- Names and their units, and the notices waiting for the next sweep, oldest first. -/
structure UnitCache where
  entries : Table String UnitId
  queue : List Notice
  deriving Inhabited

namespace UnitCache

def empty : UnitCache := ⟨.empty, []⟩

-- ================================================================ look-up

/-- The live unit under a name. -/
def live? (alive : UnitId → Bool) (c : UnitCache) (name : String) : Option UnitId :=
  (c.entries.get? name).filter alive

/-- The live unit under a name; a stale entry is taken out on the way. -/
def get (alive : UnitId → Bool) (c : UnitCache) (name : String) : Option UnitId × UnitCache :=
  match c.entries.get? name with
  | none => (none, c)
  | some u => if alive u then (some u, c) else (none, { c with entries := c.entries.erase name })

/-- The names of the live units in increasing order. -/
def liveNames (alive : UnitId → Bool) (c : UnitCache) : List String :=
  (c.entries.keys.filter fun name => (c.live? alive name).isSome).mergeSort

/-- How many entries there are, stale ones included. -/
def size (c : UnitCache) : Nat := c.entries.size

-- ================================================================ change

/-- Puts a unit under a name. -/
def record (c : UnitCache) (name : String) (u : UnitId) : UnitCache :=
  { c with entries := c.entries.insert name u }

/-- Shows `make` the live unit under the name and puts there the one that it gives back; where it fails,
nothing changes. -/
def insertWith (alive : UnitId → Bool) (c : UnitCache) (name : String)
    (make : Option UnitId → Except ε UnitId) : Except ε UnitId × UnitCache :=
  match make (c.live? alive name) with
  | .ok u => (.ok u, c.record name u)
  | .error e => (.error e, c)

/-- Adds a notice. -/
def post (c : UnitCache) (n : Notice) : UnitCache := { c with queue := c.queue ++ [n] }

/-- Takes out the entries that the notices name and counts them. -/
def purge : List Notice → Table String UnitId → Nat × Table String UnitId
  | [], entries => (0, entries)
  | n :: ns, entries =>
    if entries.get? n.name = some n.unit then
      let (count, rest) := purge ns (entries.erase n.name)
      (count + 1, rest)
    else purge ns entries

/-- Works off all notices; gives the number of entries that went. -/
def sweep (c : UnitCache) : Nat × UnitCache :=
  let (count, entries) := purge c.queue c.entries
  (count, ⟨entries, []⟩)

/-- Takes all notices without acting on them. -/
def drain (c : UnitCache) : List Notice × UnitCache := (c.queue, { c with queue := [] })

/-- The cache without entries and notices. -/
def clear (_ : UnitCache) : UnitCache := empty

-- ================================================================ the view

@[simp] theorem live?_empty (alive : UnitId → Bool) (name : String) :
    empty.live? alive name = none := rfl

theorem live?_eq_some_iff {alive : UnitId → Bool} {c : UnitCache} {name : String} {u : UnitId} :
    c.live? alive name = some u ↔ c.entries.get? name = some u ∧ alive u = true := by
  simp [live?]

theorem live?_record {alive : UnitId → Bool} {c : UnitCache} {name x : String} {u : UnitId}
    (h : alive u = true) :
    (c.record name u).live? alive x = if x = name then some u else c.live? alive x := by
  by_cases hx : x = name <;> simp [live?, record, hx, h]

@[simp] theorem live?_post (alive : UnitId → Bool) (c : UnitCache) (n : Notice) (x : String) :
    (c.post n).live? alive x = c.live? alive x := rfl

/-- A look-up gives the live unit under the name. -/
theorem fst_get (alive : UnitId → Bool) (c : UnitCache) (name : String) :
    (c.get alive name).1 = c.live? alive name := by
  unfold get live?
  cases h : c.entries.get? name with
  | none => rfl
  | some u => cases ha : alive u <;> simp [Option.filter, ha]

/-- A look-up leaves the live units of all names as they were. -/
theorem live?_snd_get (alive : UnitId → Bool) (c : UnitCache) (name x : String) :
    (c.get alive name).2.live? alive x = c.live? alive x := by
  unfold get
  cases h : c.entries.get? name with
  | none => rfl
  | some u =>
    by_cases ha : alive u <;> by_cases hx : x = name <;> simp_all [live?, Option.filter]

theorem queue_snd_get (alive : UnitId → Bool) (c : UnitCache) (name : String) :
    (c.get alive name).2.queue = c.queue := by
  unfold get
  split
  · rfl
  · split <;> rfl

-- ================================================================ sweeping

/-- An entry stays unless a notice names it with its unit. -/
theorem get?_purge {ns : List Notice} {t : Table String UnitId} {x : String} {u : UnitId} :
    (purge ns t).2.get? x = some u ↔ t.get? x = some u ∧ ⟨x, u⟩ ∉ ns := by
  induction ns generalizing t with
  | nil => simp [purge]
  | cons n ns ih =>
    obtain ⟨name, v⟩ := n
    by_cases h : t.get? name = some v
    · by_cases hx : x = name
      · subst hx
        simp only [purge, h, ↓reduceIte, ih, Table.get?_erase, List.mem_cons, Notice.mk.injEq,
          true_and, Option.some.injEq]
        grind
      · simp [purge, h, ih, hx]
    · by_cases hx : x = name
      · subst hx
        simp only [purge, h, ↓reduceIte, ih, List.mem_cons, Notice.mk.injEq, true_and]
        grind
      · simp [purge, h, ih, hx]

/-- Notices of dead units take no live one away. -/
theorem live?_sweep {alive : UnitId → Bool} {c : UnitCache}
    (dead : ∀ n ∈ c.queue, alive n.unit = false) (x : String) :
    c.sweep.2.live? alive x = c.live? alive x := by
  apply Option.ext
  intro u
  rw [live?_eq_some_iff, live?_eq_some_iff]
  show (purge c.queue c.entries).2.get? x = some u ∧ _ ↔ _
  rw [get?_purge]
  constructor
  · rintro ⟨⟨h, -⟩, ha⟩
    exact ⟨h, ha⟩
  · rintro ⟨h, ha⟩
    refine ⟨⟨h, fun hm => ?_⟩, ha⟩
    have := dead _ hm
    simp_all

/-- Every entry that goes is counted. -/
theorem size_purge (ns : List Notice) (t : Table String UnitId) :
    (purge ns t).1 + (purge ns t).2.size = t.size := by
  induction ns generalizing t with
  | nil => exact Nat.zero_add _
  | cons n ns ih =>
    by_cases hn : t.get? n.name = some n.unit
    · have hone := Table.size_erase hn
      have hrest := ih (t.erase n.name)
      rw [purge, if_pos hn]
      dsimp only
      omega
    · rw [purge, if_neg hn]
      exact ih t

@[simp] theorem queue_sweep (c : UnitCache) : c.sweep.2.queue = [] := rfl

end UnitCache

end UnitLoading
