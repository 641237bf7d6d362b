/-
Which documents are configurations, and what is reported of those that are not.

The four keys of a configuration are treated alike: a `Field` has a name, values of a type, and a way to read
them from a document. What is said of one value (`Field.read_cases`) is that it is read exactly if it is one of
the field, and that a refusal names what is wrong with it (`Field.Refuses`). From there one entry is either
taken, and sets its field, or refused, whatever came before it (`readEntry_cases`).

A pass over the entries therefore stops at the first one that is refused, and if there is none every field has
what its entry says, since no key comes twice. The order of the entries is that of the document, except for a
table that headers of inner tables imply before its own header comes; `reopened` shows that a later line can be
reported before an earlier one that way.
-/
import UnitLoading.Config.File
import UnitLoading.Proofs.DocumentOrder
import UnitLoading.Proofs.WrittenValues

namespace UnitLoading

open Toml (Node Span Key Entries Mismatch)

-- ================================================================ the first of a list

section

variable {α : Type} {P : α → Prop} {l : List α} {x y : α}

/-- Whether an item is the first of a list that lacks a property. -/
def FirstWithout (P : α → Prop) (l : List α) (x : α) : Prop :=
  ∃ before after, l = before ++ x :: after ∧ (∀ b ∈ before, P b) ∧ ¬P x

theorem FirstWithout.head (hx : ¬P x) : FirstWithout P (x :: l) x :=
  ⟨[], l, rfl, fun _ hb => absurd hb List.not_mem_nil, hx⟩

theorem FirstWithout.cons (hy : P y) (hx : FirstWithout P l x) : FirstWithout P (y :: l) x := by
  obtain ⟨before, after, rfl, hbefore, hx⟩ := hx
  exact ⟨y :: before, after, rfl, List.forall_mem_cons.2 ⟨hy, hbefore⟩, hx⟩

theorem FirstWithout.mem (hx : FirstWithout P l x) : x ∈ l := by
  obtain ⟨before, after, rfl, -⟩ := hx
  exact List.mem_append_right _ List.mem_cons_self

theorem FirstWithout.not (hx : FirstWithout P l x) : ¬P x := by
  obtain ⟨-, -, -, -, hx⟩ := hx
  exact hx

end

variable {es : Entries} {e : Key × Node} {k : Key} {n : Node} {key : Span} {t : String}

-- ================================================================ parts of documents

namespace Toml

theorem Entries.get?_cons : Entries.get? (e :: es) t = if e.1.text = t then some e.2 else es.get? t := by
  rw [Entries.get?, List.find?_cons]
  by_cases ht : e.1.text = t <;> simp [ht, Entries.get?]

def Node.IsString (n : Node) : Prop := ∃ s, n.Holds (.string s)

theorem isString_of_forall₂ {items : List Node} {ss : List String}
    (h : List.Forall₂ (fun n s => n.Holds (.string s)) items ss) : ∀ n ∈ items, n.IsString :=
  ((List.forall₂_and_left _ _).1 (h.imp fun _ s hs => ⟨⟨s, hs⟩, hs⟩)).1

/-- The items of an array, also of one of tables. -/
def Node.items? : Node → Option (List Node)
  | .array _ items | .tables items => some items
  | _ => none

end Toml

namespace LoaderConfig

-- ================================================================ fields

/-- The keys that a configuration has. -/
inductive Field where
  | searchLocations
  | cacheCapacity
  | constantsCapacity
  | isolate

namespace Field

/-- The key as a document writes it. -/
def name : Field → String
  | searchLocations => "search_locations"
  | cacheCapacity => "cache_capacity"
  | constantsCapacity => "constants_capacity"
  | isolate => "isolate"

/-- What a configuration has under the key. -/
def Value : Field → Type
  | searchLocations => List String
  | cacheCapacity | constantsCapacity => UInt64
  | isolate => Bool

def get (c : LoaderConfig) : (f : Field) → f.Value
  | searchLocations => c.searchLocations
  | cacheCapacity => c.cacheCapacity
  | constantsCapacity => c.constantsCapacity
  | isolate => c.isolate

def set (c : LoaderConfig) : (f : Field) → f.Value → LoaderConfig
  | searchLocations, v => { c with searchLocations := v }
  | cacheCapacity, v => { c with cacheCapacity := v }
  | constantsCapacity, v => { c with constantsCapacity := v }
  | isolate, v => { c with isolate := v }

def read (key : Span) (n : Node) : (f : Field) → Except Mismatch f.Value
  | searchLocations => readStrings key n
  | cacheCapacity | constantsCapacity => readSize key n
  | isolate => readBool key n

variable {c : LoaderConfig} {f g : Field}

@[simp]
theorem get_set_self (v : f.Value) : f.get (f.set c v) = v := by
  cases f <;> rfl

theorem name_injective (hname : f.name = g.name) : f = g := by
  cases f <;> cases g <;> first | rfl | exact absurd hname (by decide)

theorem get_set_of_ne (hne : g.name ≠ f.name) (v : f.Value) : g.get (f.set c v) = g.get c := by
  cases f <;> cases g <;> first | rfl | exact absurd rfl hne

-- ================================================================ values

/-- Whether a value in a document is one that the field can have. -/
def Allows (n : Node) : Field → Prop
  | searchLocations => ∃ ss, n.HoldsStrings ss
  | cacheCapacity | constantsCapacity => ∃ i, n.Holds (.integer i) ∧ 0 ≤ i.toInt
  | isolate => ∃ b, n.Holds (.boolean b)

/-- Whether a value in a document writes a value of the field. -/
def Writes (n : Node) : (f : Field) → f.Value → Prop
  | searchLocations, ss => n.HoldsStrings ss
  | cacheCapacity, w | constantsCapacity, w => ∃ i, n.Holds (.integer i) ∧ i.toInt = UInt64.toNat w
  | isolate, b => n.Holds (.boolean b)

/-- What is wrong with a value that the field cannot have, and the mismatch that says so. In an array it is the
first item that is no string. -/
def Refuses (key : Span) (n : Node) (m : Mismatch) : Field → Prop
  | searchLocations =>
    (n.items? = none ∧ m = wrongType key n "a sequence") ∨
      ∃ items x, n.items? = some items ∧ FirstWithout Node.IsString items x ∧ m = wrongType key x "a string"
  | cacheCapacity | constantsCapacity =>
    ((∀ i, ¬n.Holds (.integer i)) ∧ m = wrongType key n "usize") ∨
      ∃ span i, n = .scalar span (.integer i) ∧ i.toInt < 0 ∧
        m = ⟨span, s!"invalid value: integer `{i.toInt}`, expected usize"⟩
  | isolate => (∀ b, ¬n.Holds (.boolean b)) ∧ m = wrongType key n "a boolean"

end Field

theorem readString_cases (key : Span) (n : Node) :
    (∃ s, n.Holds (.string s) ∧ readString key n = .ok s) ∨
      (¬n.IsString ∧ readString key n = .error (wrongType key n "a string")) := by
  unfold readString
  split
  next span s => exact .inl ⟨s, ⟨span, rfl⟩, rfl⟩
  next hnone =>
    refine .inr ⟨?_, rfl⟩
    rintro ⟨s, span, rfl⟩
    exact hnone span s rfl

/-- Items are read one after the other up to the first that is no string. -/
theorem mapM_readString_cases (key : Span) (items : List Node) :
    (∃ ss, List.Forall₂ (fun n s => n.Holds (.string s)) items ss ∧ items.mapM (readString key) = .ok ss) ∨
      ∃ x, FirstWithout Node.IsString items x ∧
        items.mapM (readString key) = .error (wrongType key x "a string") := by
  induction items with
  | nil => exact .inl ⟨[], .nil, rfl⟩
  | cons n items ih =>
    rw [List.mapM_cons]
    obtain ⟨s, hs, hread⟩ | ⟨hno, hread⟩ := readString_cases key n
    · rw [hread]
      obtain ⟨ss, hss, hlater⟩ | ⟨x, hx, hlater⟩ := ih
      · exact .inl ⟨s :: ss, .cons hs hss, by rw [hlater]; rfl⟩
      · exact .inr ⟨x, hx.cons ⟨s, hs⟩, by rw [hlater]; rfl⟩
    · exact .inr ⟨n, .head hno, by rw [hread]; rfl⟩

theorem readStrings_cases (hn : n.IsFilled) (key : Span) :
    (∃ ss, n.HoldsStrings ss ∧ readStrings key n = .ok ss) ∨
      ∃ m, Field.Refuses key n m .searchLocations ∧ readStrings key n = .error m := by
  unfold readStrings
  split
  next span items =>
    obtain ⟨ss, hss, hread⟩ | ⟨x, hx, hread⟩ := mapM_readString_cases key items
    · exact .inl ⟨ss, ⟨span, items, rfl, hss⟩, hread⟩
    · exact .inr ⟨_, .inr ⟨items, x, rfl, hx, rfl⟩, hread⟩
  next items =>
    obtain ⟨ss, hss, -⟩ | ⟨x, hx, hread⟩ := mapM_readString_cases key items
    · -- an array of tables has a table, which is no string
      obtain ⟨t, ht, htable⟩ := hn
      obtain ⟨s, span, rfl⟩ := Toml.isString_of_forall₂ hss t ht
      exact absurd htable id
    · exact .inr ⟨_, .inr ⟨items, x, rfl, hx, rfl⟩, hread⟩
  next harray htables =>
    refine .inr ⟨_, .inl ⟨?_, rfl⟩, rfl⟩
    cases n with
    | scalar | table => rfl
    | array span items => exact absurd rfl (harray span items)
    | tables items => exact absurd rfl (htables items)

theorem readSize_cases (key : Span) (n : Node) :
    (∃ w, Field.Writes n .cacheCapacity w ∧ readSize key n = .ok w) ∨
      ∃ m, Field.Refuses key n m .cacheCapacity ∧ readSize key n = .error m := by
  unfold readSize
  split
  next span i =>
    by_cases hi : i.toInt < 0
    · rw [if_pos hi]
      exact .inr ⟨_, .inr ⟨span, i, rfl, hi, rfl⟩, rfl⟩
    · rw [if_neg hi]
      have hsmall := i.toInt_lt
      refine .inl ⟨_, ⟨i, ⟨span, rfl⟩, ?_⟩, rfl⟩
      rw [UInt64.toNat_ofNat']
      omega
  next hnone =>
    refine .inr ⟨_, .inl ⟨?_, rfl⟩, rfl⟩
    rintro i ⟨span, rfl⟩
    exact hnone span i rfl

theorem readBool_cases (key : Span) (n : Node) :
    (∃ b, n.Holds (.boolean b) ∧ readBool key n = .ok b) ∨
      ∃ m, Field.Refuses key n m .isolate ∧ readBool key n = .error m := by
  unfold readBool
  split
  next span b => exact .inl ⟨b, ⟨span, rfl⟩, rfl⟩
  next hnone =>
    refine .inr ⟨_, ⟨?_, rfl⟩, rfl⟩
    rintro b ⟨span, rfl⟩
    exact hnone span b rfl

namespace Field

variable {f : Field}

/-- A value is read as what it writes, or refused for what is wrong with it. -/
theorem read_cases (f : Field) (hn : n.IsFilled) (key : Span) :
    (∃ v, f.Writes n v ∧ f.read key n = .ok v) ∨ ∃ m, f.Refuses key n m ∧ f.read key n = .error m := by
  cases f with
  | searchLocations => exact readStrings_cases hn key
  | cacheCapacity => exact readSize_cases key n
  | constantsCapacity => exact readSize_cases key n
  | isolate => exact readBool_cases key n

theorem allows_of_writes {v : f.Value} (h : f.Writes n v) : f.Allows n := by
  cases f with
  | searchLocations => exact ⟨v, h⟩
  | cacheCapacity | constantsCapacity =>
    obtain ⟨i, hi, heq⟩ := h
    exact ⟨i, hi, by omega⟩
  | isolate => exact ⟨v, h⟩

theorem not_allows_of_refuses {m : Mismatch} (h : f.Refuses key n m) : ¬f.Allows n := by
  cases f with
  | searchLocations =>
    rintro ⟨ss, span, items, rfl, hss⟩
    obtain ⟨hnone, -⟩ | ⟨items', x, hitems, hx, -⟩ := h
    · cases hnone
    · obtain rfl := Option.some.inj hitems
      exact hx.not (Toml.isString_of_forall₂ hss x hx.mem)
  | cacheCapacity | constantsCapacity =>
    rintro ⟨i, hi, hnonneg⟩
    obtain ⟨hnone, -⟩ | ⟨span, j, rfl, hneg, -⟩ := h
    · exact hnone i hi
    · obtain ⟨_, heq⟩ := hi
      cases heq
      omega
  | isolate =>
    rintro ⟨b, hb⟩
    exact h.1 b hb

end Field

-- ================================================================ entries

variable {c c' : LoaderConfig} {f : Field} {m : Mismatch}

/-- Whether an entry is one of a configuration. -/
def Admitted (e : Key × Node) : Prop := ∃ f : Field, f.name = e.1.text ∧ f.Allows e.2

/-- What is wrong with an entry that is none, and the mismatch that says so. -/
def Refused (e : Key × Node) (m : Mismatch) : Prop :=
  ((∀ f : Field, f.name ≠ e.1.text) ∧ m = unknownKey e.1) ∨
    ∃ f : Field, f.name = e.1.text ∧ f.Refuses e.1.span e.2 m

theorem readEntry_field (hf : f.name = k.text) :
    readEntry c (k, n) = (f.read k.span n).map (f.set c) := by
  rw [readEntry, ← hf]
  cases f <;> rfl

theorem readEntry_unknown (hk : ∀ f : Field, f.name ≠ k.text) : readEntry c (k, n) = .error (unknownKey k) := by
  rw [readEntry]
  split
  next h => exact absurd h.symm (hk .searchLocations)
  next h => exact absurd h.symm (hk .cacheCapacity)
  next h => exact absurd h.symm (hk .constantsCapacity)
  next h => exact absurd h.symm (hk .isolate)
  next => rfl

/-- An entry sets its field, or is refused whatever came before it. -/
theorem readEntry_cases (hn : e.2.IsFilled) (c : LoaderConfig) :
    (∃ f : Field, ∃ v, f.name = e.1.text ∧ f.Writes e.2 v ∧ readEntry c e = .ok (f.set c v)) ∨
      ∃ m, Refused e m ∧ readEntry c e = .error m := by
  obtain ⟨k, n⟩ := e
  by_cases hk : ∃ f : Field, f.name = k.text
  · obtain ⟨f, hf⟩ := hk
    rw [readEntry_field hf]
    obtain ⟨v, hv, hread⟩ | ⟨m, hm, hread⟩ := f.read_cases hn k.span
    · exact .inl ⟨f, v, hf, hv, by rw [hread]; rfl⟩
    · exact .inr ⟨m, .inr ⟨f, hf, hm⟩, by rw [hread]; rfl⟩
  · have hunknown : ∀ f : Field, f.name ≠ k.text := fun f hf => hk ⟨f, hf⟩
    exact .inr ⟨unknownKey k, .inl ⟨hunknown, rfl⟩, readEntry_unknown hunknown⟩

theorem not_admitted_of_refused (h : Refused e m) : ¬Admitted e := by
  rintro ⟨f, hf, hallows⟩
  obtain ⟨hunknown, -⟩ | ⟨g, hg, hrefuses⟩ := h
  · exact hunknown f hf
  · obtain rfl := Field.name_injective (hf.trans hg.symm)
    exact Field.not_allows_of_refuses hrefuses hallows

-- ================================================================ documents

/-- Whether a configuration has what the entries write, and what another one has where there is no entry. -/
def Written (c : LoaderConfig) (es : Entries) (c' : LoaderConfig) : Prop :=
  ∀ f : Field, match es.get? f.name with
    | some n => f.Writes n (f.get c')
    | none => f.get c' = f.get c

/-- The entry that sets a field is the only one of its key. -/
theorem Written.cons {v : f.Value} (hf : f.name = e.1.text) (hv : f.Writes e.2 v)
    (hnew : es.get? e.1.text = none) (h : Written (f.set c v) es c') : Written c (e :: es) c' := by
  intro g
  have hg := h g
  rw [Entries.get?_cons]
  by_cases hgf : g = f
  · -- no later entry has the key, so what this one set is still there at the end
    subst hgf
    rw [if_pos hf.symm]
    rw [hf, hnew] at hg
    dsimp only at hg ⊢
    rwa [hg, Field.get_set_self]
  · have hname : g.name ≠ f.name := fun heq => hgf (Field.name_injective heq)
    rw [if_neg fun heq => hname (heq.symm.trans hf.symm)]
    rwa [Field.get_set_of_ne hname] at hg

/-- A pass over the entries takes all of them or stops at the first that is none of a configuration. -/
theorem readEntries_cases (hfilled : ∀ e ∈ es, e.2.IsFilled) (hnodup : (es.map (·.1.text)).Nodup)
    (c : LoaderConfig) :
    (∃ c', (∀ e ∈ es, Admitted e) ∧ Written c es c' ∧ es.foldlM readEntry c = .ok c') ∨
      ∃ e m, FirstWithout Admitted es e ∧ Refused e m ∧ es.foldlM readEntry c = .error m := by
  induction es generalizing c with
  | nil => exact .inl ⟨c, fun e he => absurd he List.not_mem_nil, fun f => rfl, rfl⟩
  | cons e es ih =>
    rw [List.forall_mem_cons] at hfilled
    rw [List.map_cons, List.nodup_cons] at hnodup
    rw [List.foldlM_cons]
    obtain ⟨f, v, hf, hv, hread⟩ | ⟨m, hm, hread⟩ := readEntry_cases hfilled.1 c
    · have hadmitted : Admitted e := ⟨f, hf, Field.allows_of_writes hv⟩
      have hnew : Entries.get? es e.1.text = none :=
        Entries.get?_eq_none_iff.2 fun e' he' heq => hnodup.1 (List.mem_map.2 ⟨e', he', heq⟩)
      rw [hread]
      obtain ⟨c', hall, hwritten, hlater⟩ | ⟨e', m, hfirst, hm, hlater⟩ := ih hfilled.2 hnodup.2 (f.set c v)
      · exact .inl ⟨c', List.forall_mem_cons.2 ⟨hadmitted, hall⟩, hwritten.cons hf hv hnew, hlater⟩
      · exact .inr ⟨e', m, hfirst.cons hadmitted, hm, hlater⟩
    · exact .inr ⟨e, m, .head (not_admitted_of_refused hm), hm, by rw [hread]; rfl⟩

theorem parse_of_ofText? {text : String} (hes : Toml.ofText? text = some es) :
    parse text = match ofEntries es with
      | .ok c => .ok c
      | .error m => .error (.parse "<inline>" (.mismatch (m.report text))) := by
  rw [parse, parseAt, ofToml, hes]
  rcases hread : ofEntries es with m | c <;> simp only [hread]

/-- A document is accepted if every entry is one of a configuration, and then every field has what its entry
writes, or what is standard. Otherwise the first entry that is none is reported. The entries are in the order
of the lines, each at the header of its own table or, where it has none, at the first mention of its key. -/
theorem parse_document {text : String} {es : Entries} (hes : Toml.ofText? text = some es) :
    (∃ ss, Toml.statements? text = some ss ∧ es.map Prod.fst = Toml.places [] (Toml.mentions false ss)) ∧
    (es.map (·.1.text)).Nodup ∧
    ((∃ c, parse text = .ok c) ↔ ∀ e ∈ es, Admitted e) ∧
    (∀ c, parse text = .ok c → Written standard es c) ∧
    ((∃ e ∈ es, ¬Admitted e) → ∃ e m, FirstWithout Admitted es e ∧ Refused e m ∧
      parse text = .error (.parse "<inline>" (.mismatch (m.report text)))) := by
  obtain ⟨ss, hss, houtline⟩ := Toml.keys_ofText? hes
  have hnodup := Toml.nodup_ofText? hes
  have hparse := parse_of_ofText? hes
  refine ⟨⟨ss, hss, houtline.keys⟩, hnodup, ?_⟩
  obtain ⟨c, hall, hwritten, hread⟩ | ⟨e, m, hfirst, hm, hread⟩ :=
    readEntries_cases houtline.filled hnodup standard
  · rw [ofEntries, hread] at hparse
    refine ⟨⟨fun _ => hall, fun _ => ⟨c, hparse⟩⟩, fun c' hc' => ?_, fun ⟨e, he, hnot⟩ => absurd (hall e he) hnot⟩
    obtain rfl := Except.ok.inj (hparse.symm.trans hc')
    exact hwritten
  · rw [ofEntries, hread] at hparse
    have hno : ∀ c, parse text ≠ .ok c := fun c hc => by cases hparse.symm.trans hc
    refine ⟨⟨fun ⟨c, hc⟩ => absurd hc (hno c), fun hall => ?_⟩, fun c hc => absurd hc (hno c), fun _ => ?_⟩
    · exact absurd (hall e hfirst.mem) hfirst.not
    · exact ⟨e, m, hfirst, hm, hparse⟩

/-- Two of the keys, not in the usual order. -/
def shuffled : String := "isolate = true\nsearch_locations = [\x27a\x27]\n"

/-- A table that is implied on the first line and has its header on the last. -/
def reopened : String := "[a.b]\n[x]\n[a]\n"

theorem parse_document_either_way :
    (∃ es c, Toml.ofText? shuffled = some es ∧ parse shuffled = .ok c ∧ Written standard es c) ∧
    ∃ es e m, Toml.ofText? reopened = some es ∧ FirstWithout Admitted es e ∧ Refused e m ∧
      parse reopened = .error (.parse "<inline>" (.mismatch (m.report reopened))) := by
  constructor
  · have hok : parse shuffled = .ok { searchLocations := ["a"], isolate := true } := rfl
    exact ⟨_, _, rfl, hok, (parse_document rfl).2.2.2.1 _ hok⟩
  · have hunknown : ∀ f : Field, f.name ≠ "x" := by intro f; cases f <;> decide
    have hes : ∃ n n', Toml.ofText? reopened = some [(⟨"x", 7, 6⟩, n), (⟨"a", 3, 2⟩, n')] := ⟨_, _, rfl⟩
    obtain ⟨n, n', hes⟩ := hes
    have hx : ¬Admitted (⟨"x", 7, 6⟩, n) := not_admitted_of_refused (.inl ⟨hunknown, rfl⟩)
    obtain ⟨e, m, hfirst, hm, hreport⟩ := (parse_document hes).2.2.2.2 ⟨_, List.mem_cons_self, hx⟩
    exact ⟨_, e, m, hes, hfirst, hm, hreport⟩

/-- The report is of the second line, although the key on the first one is none of a configuration either. -/
theorem reopened_reports_later : ∃ a x later,
    (Toml.statements? reopened).map (Toml.mentions false) = some (a :: x :: later) ∧
    (∀ n, ¬Admitted (a.key, n)) ∧
    parse reopened = .error (.parse "<inline>" (.mismatch ((unknownKey x.key).report reopened))) ∧
    ∀ n m, Refused (a.key, n) m → m.report reopened ≠ (unknownKey x.key).report reopened := by
  have hunknown : ∀ f : Field, f.name ≠ "a" := by intro f; cases f <;> decide
  have hother : (unknownKey ⟨"a", 13, 12⟩).report reopened ≠ (unknownKey ⟨"x", 7, 6⟩).report reopened := by
    decide +kernel
  refine ⟨⟨⟨"a", 13, 12⟩, false⟩, ⟨⟨"x", 7, 6⟩, true⟩, [⟨⟨"a", 3, 2⟩, true⟩], rfl, ?_, rfl, ?_⟩
  · rintro n ⟨f, hf, -⟩
    exact hunknown f hf
  · rintro n m (⟨-, rfl⟩ | ⟨f, hf, -⟩)
    · exact hother
    · exact absurd hf (hunknown f)

end LoaderConfig

end UnitLoading
