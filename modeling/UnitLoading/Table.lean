/-
Finite maps with few keys: pairs with distinct keys, kept in the order in which the keys first came. The
view of a table is its look-up function `get?`; each operation has one equation that says what it does to
the view, and proofs elsewhere use only those.
-/
namespace UnitLoading

/-- A finite map from `κ` to `α`. -/
structure Table (κ : Type u) (α : Type v) where
  entries : List (κ × α)
  distinct : (entries.map Prod.fst).Nodup

namespace Table

variable {κ : Type u} {α : Type v} [DecidableEq κ]

-- ================================================================ look-up

/-- The map without keys. -/
def empty : Table κ α := ⟨[], .nil⟩

instance : Inhabited (Table κ α) := ⟨empty⟩

/-- The value of the first pair with the key `k`. -/
def find? (k : κ) : List (κ × α) → Option α
  | [] => none
  | (k', a) :: r => if k' = k then some a else find? k r

/-- The value at a key. -/
def get? (t : Table κ α) (k : κ) : Option α := find? k t.entries

/-- Whether a key has a value. -/
def contains (t : Table κ α) (k : κ) : Bool := (t.get? k).isSome

/-- How many keys have a value. -/
def size (t : Table κ α) : Nat := t.entries.length

/-- The keys, in the order in which they first came. -/
def keys (t : Table κ α) : List κ := t.entries.map Prod.fst

/-- The values, in the order of their keys. -/
def values (t : Table κ α) : List α := t.entries.map Prod.snd

-- ================================================================ update

/-- The pairs after `k` was given the value `a`: in its old place, or at the end. -/
def upsert (k : κ) (a : α) : List (κ × α) → List (κ × α)
  | [] => [(k, a)]
  | (k', a') :: r => if k' = k then (k, a) :: r else (k', a') :: upsert k a r

theorem mem_keys_upsert {k x : κ} {a : α} {l : List (κ × α)} :
    x ∈ (upsert k a l).map Prod.fst ↔ x = k ∨ x ∈ l.map Prod.fst := by
  induction l with
  | nil => simp [upsert]
  | cons p r ih =>
    obtain ⟨k', a'⟩ := p
    by_cases h : k' = k
    · subst h; simp [upsert]
    · simp only [upsert, h, ↓reduceIte, List.map_cons, List.mem_cons, ih]
      constructor
      · rintro (h | h | h) <;> simp [h]
      · rintro (h | h | h) <;> simp [h]

theorem nodup_keys_upsert {k : κ} {a : α} {l : List (κ × α)} (h : (l.map Prod.fst).Nodup) :
    ((upsert k a l).map Prod.fst).Nodup := by
  induction l with
  | nil => simp [upsert]
  | cons p r ih =>
    obtain ⟨k', a'⟩ := p
    rw [List.map_cons, List.nodup_cons] at h
    by_cases hk : k' = k
    · subst hk; simpa [upsert] using h
    · simp only [upsert, hk, ↓reduceIte, List.map_cons, List.nodup_cons]
      refine ⟨fun hm => ?_, ih h.2⟩
      rcases mem_keys_upsert.1 hm with hm | hm
      · exact hk hm
      · exact h.1 hm

/-- Gives `k` the value `a`. -/
def insert (t : Table κ α) (k : κ) (a : α) : Table κ α :=
  ⟨upsert k a t.entries, nodup_keys_upsert t.distinct⟩

/-- Keeps the pairs that pass a test. -/
def filter (t : Table κ α) (p : κ → α → Bool) : Table κ α :=
  ⟨t.entries.filter fun e => p e.1 e.2,
    t.distinct.sublist (List.filter_sublist.map Prod.fst)⟩

/-- Takes a key out. -/
def erase (t : Table κ α) (k : κ) : Table κ α := t.filter fun k' _ => k' ≠ k

/-- The table of a list of pairs; of two values for one key the later one counts. -/
def ofList (l : List (κ × α)) : Table κ α := l.foldl (fun t e => t.insert e.1 e.2) empty

-- ================================================================ the view

@[simp] theorem get?_empty (k : κ) : (empty : Table κ α).get? k = none := rfl

omit [DecidableEq κ] in
@[simp] theorem size_empty : (empty : Table κ α).size = 0 := rfl

theorem find?_upsert {k x : κ} {a : α} {l : List (κ × α)} :
    find? x (upsert k a l) = if x = k then some a else find? x l := by
  induction l with
  | nil => grind [upsert, find?]
  | cons p r ih => grind [upsert, find?]

@[simp] theorem get?_insert (t : Table κ α) (k x : κ) (a : α) :
    (t.insert k a).get? x = if x = k then some a else t.get? x := find?_upsert

theorem find?_filter_key {q : κ → Bool} {l : List (κ × α)} {x : κ} :
    find? x (l.filter fun e => q e.1) = if q x then find? x l else none := by
  induction l with
  | nil => simp [find?]
  | cons p r ih => grind [find?]

@[simp] theorem get?_erase (t : Table κ α) (k x : κ) :
    (t.erase k).get? x = if x = k then none else t.get? x := by
  have h := find?_filter_key (q := fun k' => decide (k' ≠ k)) (l := t.entries) (x := x)
  by_cases hx : x = k <;> simpa [erase, filter, get?, hx] using h

theorem mem_of_find? {k : κ} {a : α} {l : List (κ × α)} (h : find? k l = some a) :
    (k, a) ∈ l := by
  induction l with
  | nil => simp [find?] at h
  | cons p r ih => grind [find?]

theorem mem_entries_of_get? {t : Table κ α} {k : κ} {a : α} (h : t.get? k = some a) :
    (k, a) ∈ t.entries := mem_of_find? h

theorem find?_of_mem {k : κ} {a : α} {l : List (κ × α)} (hd : (l.map Prod.fst).Nodup)
    (h : (k, a) ∈ l) : find? k l = some a := by
  induction l with
  | nil => simp at h
  | cons p r ih =>
    obtain ⟨k', a'⟩ := p
    rw [List.map_cons, List.nodup_cons] at hd
    rcases List.mem_cons.1 h with h | h
    · cases h; simp [find?]
    · have : k' ≠ k := fun e => hd.1 (List.mem_map.2 ⟨(k, a), h, e.symm⟩)
      simp [find?, this, ih hd.2 h]

theorem get?_of_mem_entries {t : Table κ α} {k : κ} {a : α} (h : (k, a) ∈ t.entries) :
    t.get? k = some a := find?_of_mem t.distinct h

/-- The keys are those that have a value. -/
theorem mem_keys {t : Table κ α} {k : κ} : k ∈ t.keys ↔ (t.get? k).isSome = true := by
  constructor
  · intro hk
    obtain ⟨⟨key, a⟩, he, rfl⟩ := List.mem_map.1 hk
    rw [get?_of_mem_entries he]
    rfl
  · intro hk
    obtain ⟨a, ha⟩ := Option.isSome_iff_exists.1 hk
    exact List.mem_map.2 ⟨(k, a), mem_entries_of_get? ha, rfl⟩

/-- A table in which no key has a value is empty. -/
theorem size_eq_zero {t : Table κ α} (h : ∀ k, t.get? k = none) : t.size = 0 := by
  rw [size, List.length_eq_zero_iff, List.eq_nil_iff_forall_not_mem]
  intro e he
  have hfound : t.get? e.1 = some e.2 := get?_of_mem_entries he
  rw [h] at hfound
  cases hfound

theorem get?_filter_key (t : Table κ α) (q : κ → Bool) (x : κ) :
    (t.filter fun k _ => q k).get? x = if q x then t.get? x else none := find?_filter_key

-- ================================================================ writing what is there

theorem upsert_of_find? {k : κ} {a : α} {l : List (κ × α)} (h : find? k l = some a) :
    upsert k a l = l := by
  induction l with
  | nil => simp [find?] at h
  | cons p r ih =>
    obtain ⟨k', a'⟩ := p
    by_cases hk : k' = k
    · subst hk
      rw [find?, if_pos rfl, Option.some.injEq] at h
      rw [upsert, if_pos rfl, h]
    · rw [find?, if_neg hk] at h
      rw [upsert, if_neg hk, ih h]

/-- Giving a key the value that it has changes nothing. -/
theorem insert_of_get? {t : Table κ α} {k : κ} {a : α} (h : t.get? k = some a) :
    t.insert k a = t := by
  obtain ⟨l, hl⟩ := t
  simp only [insert, mk.injEq]
  exact upsert_of_find? h

theorem length_upsert (k : κ) (a : α) (l : List (κ × α)) :
    (upsert k a l).length = if (find? k l).isSome then l.length else l.length + 1 := by
  induction l with
  | nil => rfl
  | cons p r ih => grind [upsert, find?]

theorem count_upsert [DecidableEq α] (k : κ) (a x : α) (l : List (κ × α)) :
    ((upsert k a l).map Prod.snd).count x + (find? k l).toList.count x
      = (l.map Prod.snd).count x + [a].count x := by
  induction l with
  | nil => simp [upsert, find?]
  | cons p r ih =>
    obtain ⟨k', b⟩ := p
    by_cases hk : k' = k
    · simp only [upsert, find?, hk, ↓reduceIte, List.map_cons, Option.toList_some, List.count_cons,
        List.count_nil]
      omega
    · simp only [upsert, find?, hk, ↓reduceIte, List.map_cons, List.count_cons] at ih ⊢
      omega

/-- Of the values, the new one comes and the one that the key had goes. -/
theorem count_values_insert [DecidableEq α] (t : Table κ α) (k : κ) (a x : α) :
    (t.insert k a).values.count x + (t.get? k).toList.count x = t.values.count x + [a].count x :=
  count_upsert k a x t.entries

theorem mem_values_of_get? {t : Table κ α} {k : κ} {a : α} (h : t.get? k = some a) : a ∈ t.values :=
  List.mem_map.2 ⟨(k, a), mem_entries_of_get? h, rfl⟩

/-- Only a new key makes a table larger. -/
theorem size_insert (t : Table κ α) (k : κ) (a : α) :
    (t.insert k a).size = if (t.get? k).isSome then t.size else t.size + 1 :=
  length_upsert k a t.entries

theorem length_filter_key {k : κ} {a : α} {l : List (κ × α)} (hd : (l.map Prod.fst).Nodup)
    (h : find? k l = some a) : (l.filter fun e => decide (e.1 ≠ k)).length + 1 = l.length := by
  induction l with
  | nil => simp [find?] at h
  | cons p r ih =>
    obtain ⟨k', b⟩ := p
    rw [List.map_cons, List.nodup_cons] at hd
    by_cases hk : k' = k
    · subst hk
      have hrest : (r.filter fun e => decide (e.1 ≠ k')) = r := by
        refine List.filter_eq_self.2 fun e he => ?_
        simpa using fun e' => hd.1 (List.mem_map.2 ⟨e, he, e'⟩)
      rw [List.filter_cons_of_neg (by simp), hrest]
      rfl
    · rw [find?, if_neg hk] at h
      simpa [hk] using ih hd.2 h

/-- A key that is taken out makes a table smaller by one. -/
theorem size_erase {t : Table κ α} {k : κ} {a : α} (h : t.get? k = some a) : (t.erase k).size + 1 = t.size :=
  length_filter_key t.distinct h

end Table

end UnitLoading
