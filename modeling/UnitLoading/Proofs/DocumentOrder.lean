/-
The order of a document's entries.

A document is read line by line into a draft, and what a line does to the draft depends on every line before
it. Two steps part the text from the tables: the lines of a text are its `statements`, and the document is what
a draft makes of them one after the other (`ofText?_eq`). From there on the order of the lines is the order of
a list.

At the top level a statement does no more than mention a key: a header the first key of its path, a value
before the first header likewise, and a value below a header nothing. The main statement says which mention
gives the key its place (`IsPlace`): that of the header that opens the very table of this key, and where there
is none the first one. The two differ only for a table that headers of inner tables imply before its own
header comes; it moves down to its own header then. The keys of the document are the places among the mentions
of its lines, in the order of the lines (`keys_ofText?`).

The invariant is stated for what the document becomes when the open table is put into it (`Draft.Lists`), since
between the opening of a table and its closing the draft is no document.
-/
import Mathlib.Data.List.Induction
import UnitLoading.Toml.Reader

namespace UnitLoading.Toml

open Text (Reads)

variable {fuel : Nat} {cs rest : List Char} {k : Key} {ks : List Key} {n : Node} {es es' : Entries}
  {t : String} {d d' : Draft} {h : Header}

-- ================================================================ statements

/-- What a line of a document says. -/
inductive Statement where
  | header (h : Header)
  | entry (path : List Key) (k : Key) (n : Node)

/-- One line: what it says, if it is neither empty nor a comment. -/
def statement : Reads (Option Statement)
  | [] => none
  | '[' :: cs => do
    let (h, rest) ← header ('[' :: cs)
    return (some (.header h), ← lineRest rest)
  | c :: cs =>
    if c = '#' || c = '\n' || c = '\r' then do return (none, ← lineRest (c :: cs))
    else do
      let ((path, k, n), rest) ← keyValue (value limit) (c :: cs)
      return (some (.entry path k n), ← lineRest rest)

/-- What the lines of a text say, in their order. -/
def statements : Nat → List Char → Option (List Statement)
  | 0, _ => none
  | fuel + 1, cs =>
    if skipBlanks cs = [] then some []
    else do
      let (s, rest) ← statement (skipBlanks cs)
      return s.toList ++ (← statements fuel rest)

/-- What the lines of a whole text say. -/
def statements? (text : String) : Option (List Statement) :=
  statements ((skipMark text.toList).length + 1) (skipMark text.toList)

/-- The draft after one more statement. -/
def Draft.take (d : Draft) : Statement → Option Draft
  | .header h => d.open h
  | .entry path k n => d.add path k n

/-- A line does to a draft what its statement does. -/
theorem lines_succ (fuel : Nat) (d : Draft) (cs : List Char) :
    lines (fuel + 1) d cs =
      if skipBlanks cs = [] then some d
      else (statement (skipBlanks cs)).bind fun r =>
        (r.1.toList.foldlM Draft.take d).bind fun d => lines fuel d r.2 := by
  rw [lines]
  generalize skipBlanks cs = cs
  split
  next => rfl
  next cs =>
    rw [statement, if_neg (List.cons_ne_nil _ _)]
    rcases header ('[' :: cs) with _ | ⟨h, rest⟩
    · rfl
    · rcases hrest : lineRest rest with _ | rest <;> simp [hrest, Draft.take]
  next c cs hc =>
    rw [statement, if_neg (List.cons_ne_nil _ _)]
    · split
      next => rcases lineRest (c :: cs) with _ | rest <;> simp
      next =>
        rcases keyValue (value limit) (c :: cs) with _ | ⟨⟨path, k, n⟩, rest⟩
        · rfl
        · rcases hrest : lineRest rest with _ | rest <;> simp [hrest, Draft.take]
    · exact hc

/-- The lines of a text do to a draft what its statements do. -/
theorem lines_eq (fuel : Nat) (d : Draft) (cs : List Char) :
    lines fuel d cs = (statements fuel cs).bind fun ss => ss.foldlM Draft.take d := by
  induction fuel generalizing d cs with
  | zero => rfl
  | succ fuel ih =>
    rw [lines_succ, statements]
    split
    next => rfl
    next =>
      rcases statement (skipBlanks cs) with _ | ⟨s, rest⟩
      · rfl
      · rcases hlater : statements fuel rest with _ | later <;> simp [ih, hlater, List.foldlM_append]

/-- A document is what its statements make of an empty draft. -/
theorem ofText?_eq (text : String) : ofText? text =
    (statements? text).bind fun ss => (ss.foldlM Draft.take .empty).bind Draft.finish := by
  rw [statements?, ← Option.bind_assoc, ← lines_eq]
  rfl

-- ================================================================ mentions and places

/-- A key of the document where a line mentions it. -/
structure Mention where
  key : Key
  /-- Whether the line is the header of the very table that the key names. -/
  isOwn : Bool

/-- What a header mentions. -/
def Header.mention (h : Header) : Mention := ⟨h.path.headD h.key, h.path.isEmpty && !h.isArray⟩

/-- The keys of the document that statements mention. Below a header only headers do. -/
def mentions (below : Bool) : List Statement → List Mention
  | [] => []
  | .header h :: ss => h.mention :: mentions true ss
  | .entry path k _ :: ss =>
    if below then mentions below ss else ⟨path.headD k, false⟩ :: mentions below ss

/-- Whether a mention gives its key its place, with the mentions before and after it: the header of the key's
own table does, and where there is none the first mention. -/
def IsPlace (before : List Mention) (m : Mention) (after : List Mention) : Prop :=
  (m.isOwn = true ∨ ∀ b ∈ before, b.key.text ≠ m.key.text) ∧
    ∀ a ∈ after, a.isOwn = true → a.key.text ≠ m.key.text

instance (before : List Mention) (m : Mention) (after : List Mention) : Decidable (IsPlace before m after) :=
  inferInstanceAs (Decidable (_ ∧ _))

/-- The keys at their places among mentions that follow others, in the order of the lines. -/
def places (before : List Mention) : List Mention → List Key
  | [] => []
  | m :: after =>
    if IsPlace before m after then m.key :: places (before ++ [m]) after else places (before ++ [m]) after

/-- The places after one more mention. -/
def place (ks : List Key) (m : Mention) : List Key :=
  if m.isOwn then ks.filter (fun k => k.text ≠ m.key.text) ++ [m.key]
  else if m.key.text ∈ ks.map Key.text then ks else ks ++ [m.key]

theorem mem_texts_place {ks : List Key} {m : Mention} :
    t ∈ (place ks m).map Key.text ↔ t ∈ ks.map Key.text ∨ t = m.key.text := by
  unfold place
  split
  next =>
    rw [List.map_append, List.mem_append, List.map_singleton, List.mem_singleton]
    by_cases ht : t = m.key.text
    · simp [ht]
    · -- a key of another text is not filtered out
      have hother : ∀ k : Key, k.text = t → k.text ≠ m.key.text := fun k hk => hk ▸ ht
      simp only [ht, or_false, List.mem_map, List.mem_filter, decide_eq_true_eq]
      exact ⟨fun ⟨k, hk, heq⟩ => ⟨k, hk.1, heq⟩, fun ⟨k, hk, heq⟩ => ⟨k, ⟨hk, hother k heq⟩, heq⟩⟩
  next =>
    split
    next hmem => exact ⟨Or.inl, fun ht => ht.elim id fun heq => heq ▸ hmem⟩
    next => rw [List.map_append, List.mem_append, List.map_singleton, List.mem_singleton]

theorem nodup_place {ks : List Key} {m : Mention} (hks : (ks.map Key.text).Nodup) :
    ((place ks m).map Key.text).Nodup := by
  have happend : ∀ ks : List Key, (ks.map Key.text).Nodup → m.key.text ∉ ks.map Key.text →
      ((ks ++ [m.key]).map Key.text).Nodup := by
    intro ks hks hnew
    rw [List.map_append, List.map_singleton, List.nodup_append]
    refine ⟨hks, by simp, fun t ht u hu => ?_⟩
    rw [List.mem_singleton.1 hu]
    exact fun heq => hnew (heq ▸ ht)
  unfold place
  split
  next => exact happend _ (hks.sublist (List.filter_sublist.map _)) (by simp)
  next =>
    split
    next => exact hks
    next hnew => exact happend ks hks hnew

theorem mem_texts_places {ms : List Mention} {ks : List Key} :
    t ∈ (ms.foldl place ks).map Key.text ↔ t ∈ ks.map Key.text ∨ ∃ m ∈ ms, m.key.text = t := by
  induction ms generalizing ks with
  | nil => simp
  | cons m ms ih =>
    rw [List.foldl_cons, ih, mem_texts_place, or_assoc, eq_comm (a := t)]
    simp

theorem nodup_places {ms : List Mention} {ks : List Key} (hks : (ks.map Key.text).Nodup) :
    ((ms.foldl place ks).map Key.text).Nodup := by
  induction ms generalizing ks with
  | nil => exact hks
  | cons m ms ih => exact ih (nodup_place hks)

theorem isPlace_concat {before after : List Mention} {x m : Mention} :
    IsPlace before x (after ++ [m]) ↔ IsPlace before x after ∧ (m.isOwn = true → m.key.text ≠ x.key.text) := by
  simp only [IsPlace, List.forall_mem_append, List.forall_mem_singleton, and_assoc]

/-- One more mention at the end takes the place of its key if it is the key's own header, and is the place of
a key that was not mentioned yet. -/
theorem places_concat (before ms : List Mention) (m : Mention) :
    places before (ms ++ [m]) =
      if m.isOwn then (places before ms).filter (fun k => k.text ≠ m.key.text) ++ [m.key]
      else if ∃ b ∈ before ++ ms, b.key.text = m.key.text then places before ms
      else places before ms ++ [m.key] := by
  induction ms generalizing before with
  | nil =>
    rw [List.nil_append, List.append_nil]
    by_cases hown : m.isOwn = true
    · simp [places, IsPlace, hown]
    · by_cases hold : ∃ b ∈ before, b.key.text = m.key.text
      · have hnot : ¬IsPlace before m [] := by
          obtain ⟨b, hb, heq⟩ := hold
          exact fun hplace => hplace.1.elim hown fun hnew => hnew b hb heq
        simp [places, hown, hold, hnot]
      · have hplace : IsPlace before m [] :=
          ⟨.inr fun b hb heq => hold ⟨b, hb, heq⟩, fun a ha => absurd ha List.not_mem_nil⟩
        simp [places, hown, hold, hplace]
  | cons x ms ih =>
    have hsplit : before ++ x :: ms = before ++ [x] ++ ms := by simp
    rw [List.cons_append, places, ih, places, hsplit]
    by_cases hown : m.isOwn = true
    · -- `x` loses its place if `m` is the header of the same key's table
      by_cases hx : IsPlace before x ms
      · by_cases htext : m.key.text = x.key.text
        · simp [isPlace_concat, hx, hown, htext]
        · simp [isPlace_concat, hx, hown, htext, Ne.symm htext]
      · simp [isPlace_concat, hx, hown]
    · have hx : IsPlace before x (ms ++ [m]) ↔ IsPlace before x ms := by simp [isPlace_concat, hown]
      simp only [hx, hown, if_false, Bool.false_eq_true]
      split <;> split <;> rfl

/-- The places can be found mention by mention. -/
theorem places_eq (ms : List Mention) : places [] ms = ms.foldl place [] := by
  induction ms using List.reverseRecOn with
  | nil => rfl
  | append_singleton ms m ih =>
    have hmentioned : (∃ b ∈ [] ++ ms, b.key.text = m.key.text) ↔
        m.key.text ∈ (ms.foldl place []).map Key.text := by
      rw [mem_texts_places, List.nil_append]
      simp
    rw [places_concat, ih, List.foldl_append, List.foldl_cons, List.foldl_nil, place]
    simp only [hmentioned]

-- ================================================================ the tables of a draft

def Node.IsTable : Node → Prop
  | .table .. => True
  | _ => False

/-- Whether a node is no array of tables that has none. -/
def Node.IsFilled : Node → Prop
  | .tables items => ∃ n ∈ items, n.IsTable
  | _ => True

theorem Entries.get?_eq_none_iff : es.get? t = none ↔ ∀ e ∈ es, e.1.text ≠ t := by
  simp [Entries.get?]

/-- The keys of a document in their order, none of them over an array of tables that has none. -/
structure Outline (es : Entries) (ks : List Key) : Prop where
  keys : es.map Prod.fst = ks
  filled : ∀ e ∈ es, e.2.IsFilled

theorem Outline.get?_eq_none_iff (ho : Outline es ks) : es.get? t = none ↔ t ∉ ks.map Key.text := by
  rw [Entries.get?_eq_none_iff, ← ho.keys]
  simp

theorem Outline.append (ho : Outline es ks) (hn : n.IsFilled) : Outline (es ++ [(k, n)]) (ks ++ [k]) where
  keys := by rw [List.map_append, ho.keys]; rfl
  filled := by
    rw [List.forall_mem_append, List.forall_mem_singleton]
    exact ⟨ho.filled, hn⟩

theorem Outline.remove (ho : Outline es ks) : Outline (es.remove t) (ks.filter fun k => k.text ≠ t) where
  keys := by rw [← ho.keys, List.filter_map]; rfl
  filled e he := ho.filled e (List.mem_filter.1 he).1

theorem keys_replace (es : Entries) (t : String) (n : Node) : (es.replace t n).map Prod.fst = es.map Prod.fst := by
  rw [Entries.replace, List.map_map]
  refine List.map_congr_left fun e _ => ?_
  simp only [Function.comp_apply]
  split <;> rfl

/-- It is enough that the other entries are filled. -/
theorem outline_replace (hkeys : es.map Prod.fst = ks) (hfilled : ∀ e ∈ es, e.1.text ≠ t → e.2.IsFilled)
    (hn : n.IsFilled) : Outline (es.replace t n) ks where
  keys := (keys_replace es t n).trans hkeys
  filled e he := by
    obtain ⟨old, hold, rfl⟩ := List.mem_map.1 he
    split
    next => exact hn
    next hne => exact hfilled old hold hne

theorem Outline.replace (ho : Outline es ks) (hn : n.IsFilled) : Outline (es.replace t n) ks :=
  outline_replace ho.keys (fun e he _ => ho.filled e he) hn

/-- A change below a key touches no other entry: a new key comes last, and the value of an old one is
replaced. -/
theorem descend_cons {α : Type} {dotted : Bool} {change : Change α} {origin : Origin} {a : α}
    (hd : descend dotted change (k :: ks) origin es = some (a, es')) :
    ∃ n, n.IsFilled ∧
      ((es.get? k.text = none ∧ es' = es ++ [(k, n)]) ∨ (es.get? k.text ≠ none ∧ es' = es.replace k.text n)) := by
  rw [descend] at hd
  split at hd
  next hnone =>
    obtain ⟨⟨_, inner⟩, -, heq⟩ := Option.bind_eq_some_iff.1 hd
    obtain ⟨rfl, rfl⟩ := Prod.mk.inj (Option.some.inj heq)
    exact ⟨.table _ none inner, trivial, .inl ⟨hnone, rfl⟩⟩
  next origin span inner hsome =>
    split at hd
    next => cases hd
    next =>
      obtain ⟨⟨_, inner⟩, -, heq⟩ := Option.bind_eq_some_iff.1 hd
      obtain ⟨rfl, rfl⟩ := Prod.mk.inj (Option.some.inj heq)
      exact ⟨.table origin span inner, trivial, .inr ⟨by simp [hsome], rfl⟩⟩
  next items hsome =>
    split at hd
    next origin span inner hlast =>
      obtain ⟨⟨_, inner⟩, -, heq⟩ := Option.bind_eq_some_iff.1 hd
      obtain ⟨rfl, rfl⟩ := Prod.mk.inj (Option.some.inj heq)
      exact ⟨.tables (items.dropLast ++ [.table origin span inner]),
        ⟨.table origin span inner, by simp, trivial⟩, .inr ⟨by simp [hsome], rfl⟩⟩
    next => cases hd
  next => cases hd

-- ================================================================ drafts

/-- The change that makes room for the table of a header. -/
def Header.opening (h : Header) : Change Entries := if h.isArray then openItem h.key else openTable h.key

/-- The change that puts the table of a header where there is room for it. -/
def Header.closing (h : Header) (n : Node) : Change Unit :=
  if h.isArray then closeItem h.key n else closeTable h.key n

/-- What the document's keys are once the open table is put into it, whatever will stand in the table. -/
def Draft.Lists (d : Draft) (ks : List Key) : Prop :=
  match d.header with
  | none => Outline d.entries ks
  | some h => ∀ n es, n.IsTable →
    descend false (h.closing n) h.path .header d.root = some ((), es) → Outline es ks

theorem Draft.Lists.finish (hd : d.Lists ks) (hf : d.finish = some es) : Outline es ks := by
  rw [Draft.Lists] at hd
  rw [Draft.finish] at hf
  rcases hheader : d.header with _ | h <;> rw [hheader] at hd hf
  · exact Option.some.inj hf ▸ hd
  · obtain ⟨⟨_, es⟩, hclosed, rfl⟩ := Option.map_eq_some_iff.1 hf
    exact hd (.table .header (some h.span) d.entries) es trivial hclosed

/-- A key that is new comes last, and one that is there keeps its place. -/
theorem Outline.placed (ho : Outline es ks) (hn : n.IsFilled)
    (hes : (es.get? k.text = none ∧ es' = es ++ [(k, n)]) ∨ (es.get? k.text ≠ none ∧ es' = es.replace k.text n)) :
    Outline es' (place ks ⟨k, false⟩) := by
  rw [place, if_neg Bool.false_ne_true]
  rcases hes with ⟨hnone, rfl⟩ | ⟨hsome, rfl⟩
  · rw [if_neg (ho.get?_eq_none_iff.1 hnone)]
    exact ho.append hn
  · rw [if_pos (not_not.1 (mt ho.get?_eq_none_iff.2 hsome))]
    exact ho.replace hn

/-- A table of the document with a header of its own comes last, wherever it was implied before. -/
theorem outline_own {entries root : Entries} (ho : Outline es ks)
    (hopen : openTable k .header es = some (entries, root)) (hn : n.IsFilled) :
    Outline (root ++ [(k, n)]) (place ks ⟨k, true⟩) := by
  rw [place, if_pos rfl]
  refine Outline.append ?_ hn
  unfold openTable at hopen
  split at hopen
  next hnone =>
    obtain ⟨-, rfl⟩ := Prod.mk.inj (Option.some.inj hopen)
    have hnew := ho.get?_eq_none_iff.1 hnone
    rwa [List.filter_eq_self.2]
    intro k' hk'
    simp only [decide_eq_true_eq]
    exact fun heq => hnew (heq ▸ List.mem_map_of_mem hk')
  next =>
    obtain ⟨-, rfl⟩ := Prod.mk.inj (Option.some.inj hopen)
    exact ho.remove
  next => cases hopen

/-- An array of tables is where its first table made room for it. -/
theorem outline_item {entries root : Entries} (ho : Outline es ks)
    (hopen : openItem k .header es = some (entries, root)) (hn : n.IsTable)
    (hclose : closeItem k n .header root = some ((), es')) : Outline es' (place ks ⟨k, false⟩) := by
  unfold closeItem at hclose
  split at hclose
  next items _ =>
    obtain ⟨-, rfl⟩ := Prod.mk.inj (Option.some.inj hclose)
    have hfilled : (Node.tables (items ++ [n])).IsFilled := ⟨n, by simp, hn⟩
    unfold openItem at hopen
    split at hopen
    next hnone =>
      obtain ⟨-, rfl⟩ := Prod.mk.inj (Option.some.inj hopen)
      refine outline_replace ?_ ?_ hfilled
      · rw [List.map_append, ho.keys, place, if_neg Bool.false_ne_true, if_neg (ho.get?_eq_none_iff.1 hnone)]
        rfl
      · rw [List.forall_mem_append, List.forall_mem_singleton]
        exact ⟨fun e he _ => ho.filled e he, fun hne => absurd rfl hne⟩
    next hsome =>
      obtain ⟨-, rfl⟩ := Prod.mk.inj (Option.some.inj hopen)
      exact ho.placed hfilled (.inr ⟨by simp [hsome], rfl⟩)
    next => cases hopen
  next => cases hclose

/-- Opening a table and closing it again puts its key in its place. -/
theorem outline_opened_closed {entries root : Entries} (ho : Outline es ks)
    (hopen : descend false h.opening h.path .header es = some (entries, root)) (hn : n.IsTable)
    (hclose : descend false (h.closing n) h.path .header root = some ((), es')) :
    Outline es' (place ks h.mention) := by
  obtain ⟨path, k, isArray, span⟩ := h
  cases path with
  | cons p ps =>
    obtain ⟨n₁, hn₁, hroot⟩ := descend_cons hopen
    obtain ⟨n₂, hn₂, hes⟩ := descend_cons hclose
    -- the opening leaves a table under the first key, so the closing finds it and adds no second one
    have hopened : Outline root (place ks ⟨p, false⟩) := ho.placed hn₁ hroot
    have hthere : root.get? p.text ≠ none :=
      mt hopened.get?_eq_none_iff.1 (not_not.2 (mem_texts_place.2 (.inr rfl)))
    rcases hes with ⟨hnone, -⟩ | ⟨-, rfl⟩
    · exact absurd hnone hthere
    · exact hopened.replace hn₂
  | nil =>
    cases isArray with
    | true => exact outline_item ho hopen hn hclose
    | false =>
      have hfilled : n.IsFilled := by
        cases n with
        | table => trivial
        | _ => cases hn
      obtain ⟨-, rfl⟩ := Prod.mk.inj (Option.some.inj hclose)
      exact outline_own ho hopen hfilled

theorem Draft.Lists.open (hd : d.Lists ks) (hopen : d.open h = some d') : d'.Lists (place ks h.mention) := by
  rw [Draft.open] at hopen
  obtain ⟨root, hfinish, hopen⟩ := Option.bind_eq_some_iff.1 hopen
  obtain ⟨⟨entries, opened⟩, hroom, heq⟩ := Option.bind_eq_some_iff.1 hopen
  obtain rfl := Option.some.inj heq
  exact fun n es hn hclose => outline_opened_closed (hd.finish hfinish) hroom hn hclose

/-- A value below a header changes no more than the table that is open. -/
theorem Draft.Lists.add_below (hd : d.Lists ks) {path : List Key} (hheader : d.header = some h)
    (hadd : d.add path k n = some d') : d'.Lists ks := by
  rw [Draft.Lists, hheader] at hd
  rw [Draft.add, hheader] at hadd
  obtain ⟨entries, -, heq⟩ := Option.bind_eq_some_iff.1 hadd
  obtain rfl := Option.some.inj heq
  exact hd

theorem addEntry_eq_some {isDotted : Bool} {origin : Origin} {u : Unit}
    (hadd : addEntry isDotted k n origin es = some (u, es')) :
    es.get? k.text = none ∧ es' = es ++ [(k, n)] := by
  unfold addEntry at hadd
  split at hadd
  next => cases hadd
  next =>
    split at hadd
    next => cases hadd
    next hnew =>
      obtain ⟨-, rfl⟩ := Prod.mk.inj (Option.some.inj hadd)
      exact ⟨Option.not_isSome_iff_eq_none.1 hnew, rfl⟩

/-- Before the first header a value is put into the document itself. -/
theorem Draft.Lists.add_first (hd : d.Lists ks) {path : List Key} (hheader : d.header = none)
    (hn : n.IsFilled) (hadd : d.add path k n = some d') : d'.Lists (place ks ⟨path.headD k, false⟩) := by
  rw [Draft.Lists, hheader] at hd
  rw [Draft.add, hheader] at hadd
  obtain ⟨entries, hset, heq⟩ := Option.bind_eq_some_iff.1 hadd
  obtain rfl := Option.some.inj heq
  obtain ⟨⟨_, entries⟩, hchanged, rfl⟩ := Option.map_eq_some_iff.1 hset
  change Outline entries _
  cases path with
  | nil =>
    obtain ⟨hnew, rfl⟩ := addEntry_eq_some hchanged
    exact hd.placed hn (.inl ⟨hnew, rfl⟩)
  | cons p ps =>
    obtain ⟨n', hn', hes⟩ := descend_cons hchanged
    exact hd.placed hn' hes

theorem Draft.header_add {path : List Key} (hadd : d.add path k n = some d') :
    d'.header.isSome = d.header.isSome := by
  obtain ⟨entries, -, heq⟩ := Option.bind_eq_some_iff.1 hadd
  obtain rfl := Option.some.inj heq
  exact Option.isSome_map

theorem Draft.header_open (hopen : d.open h = some d') : d'.header.isSome = true := by
  obtain ⟨root, -, hopen⟩ := Option.bind_eq_some_iff.1 hopen
  obtain ⟨⟨entries, opened⟩, -, heq⟩ := Option.bind_eq_some_iff.1 hopen
  obtain rfl := Option.some.inj heq
  rfl

-- ================================================================ runs

/-- Whether the value of a statement is filled; it is where the statement was read from a text. -/
def Statement.IsFilled : Statement → Prop
  | .header _ => True
  | .entry _ _ n => n.IsFilled

/-- Only headers write arrays of tables. -/
theorem isFilled_of_value {depth : Nat} (hv : value depth cs = some (n, rest)) : n.IsFilled := by
  unfold value at hv
  split at hv
  next =>
    split at hv
    next => cases hv
    next =>
      obtain ⟨⟨items, rest⟩, -, heq⟩ := Option.bind_eq_some_iff.1 hv
      obtain ⟨rfl, rfl⟩ := Prod.mk.inj (Option.some.inj heq)
      trivial
  next =>
    split at hv
    next => cases hv
    next =>
      dsimp only at hv
      split at hv <;>
      · obtain ⟨⟨pairs, rest⟩, -, hmade⟩ := Option.bind_eq_some_iff.1 hv
        obtain ⟨es, -, heq⟩ := Option.bind_eq_some_iff.1 hmade
        obtain ⟨rfl, rfl⟩ := Prod.mk.inj (Option.some.inj heq)
        trivial
  next =>
    obtain ⟨⟨v, rest⟩, -, heq⟩ := Option.bind_eq_some_iff.1 hv
    obtain ⟨rfl, rfl⟩ := Prod.mk.inj (Option.some.inj heq)
    trivial

theorem isFilled_of_keyValue {path : List Key} {depth : Nat}
    (hp : keyValue (value depth) cs = some ((path, k, n), rest)) : n.IsFilled := by
  obtain ⟨⟨⟨path, k⟩, rest⟩, -, hp⟩ := Option.bind_eq_some_iff.1 hp
  dsimp only at hp
  split at hp
  next =>
    obtain ⟨⟨n, rest⟩, hv, heq⟩ := Option.bind_eq_some_iff.1 hp
    simp only [Option.pure_def, Option.some.injEq, Prod.mk.injEq] at heq
    obtain ⟨⟨-, -, rfl⟩, -⟩ := heq
    exact isFilled_of_value hv
  next => cases hp

theorem isFilled_of_statement {o : Option Statement} (hs : statement cs = some (o, rest)) :
    ∀ s ∈ o, s.IsFilled := by
  unfold statement at hs
  split at hs
  next => cases hs
  next =>
    obtain ⟨⟨h, rest⟩, -, hs⟩ := Option.bind_eq_some_iff.1 hs
    obtain ⟨_, -, heq⟩ := Option.bind_eq_some_iff.1 hs
    obtain ⟨rfl, rfl⟩ := Prod.mk.inj (Option.some.inj heq)
    rintro s ⟨⟩
    trivial
  next =>
    split at hs
    next =>
      obtain ⟨_, -, heq⟩ := Option.bind_eq_some_iff.1 hs
      obtain ⟨rfl, rfl⟩ := Prod.mk.inj (Option.some.inj heq)
      rintro s ⟨⟩
    next =>
      obtain ⟨⟨⟨path, k, n⟩, rest⟩, hpair, hs⟩ := Option.bind_eq_some_iff.1 hs
      obtain ⟨_, -, heq⟩ := Option.bind_eq_some_iff.1 hs
      obtain ⟨rfl, rfl⟩ := Prod.mk.inj (Option.some.inj heq)
      rintro s ⟨⟩
      exact isFilled_of_keyValue hpair

theorem isFilled_of_statements {ss : List Statement} (hss : statements fuel cs = some ss) :
    ∀ s ∈ ss, s.IsFilled := by
  induction fuel generalizing cs ss with
  | zero => cases hss
  | succ fuel ih =>
    rw [statements] at hss
    split at hss
    next =>
      obtain rfl := Option.some.inj hss
      exact fun s hs => absurd hs List.not_mem_nil
    next =>
      obtain ⟨⟨s, rest⟩, hfirst, hss⟩ := Option.bind_eq_some_iff.1 hss
      obtain ⟨later, hlater, heq⟩ := Option.bind_eq_some_iff.1 hss
      obtain rfl := Option.some.inj heq
      rw [List.forall_mem_append]
      exact ⟨fun s hs => isFilled_of_statement hfirst s (Option.mem_toList.1 hs), ih hlater⟩

/-- A run over statements lists the keys at the places of what they mention. -/
theorem Draft.Lists.run {ss : List Statement} (hd : d.Lists ks) (hss : ∀ s ∈ ss, s.IsFilled)
    (hrun : ss.foldlM Draft.take d = some d') : d'.Lists ((mentions d.header.isSome ss).foldl place ks) := by
  induction ss generalizing d ks with
  | nil => exact Option.some.inj hrun ▸ hd
  | cons s ss ih =>
    rw [List.foldlM_cons] at hrun
    obtain ⟨d₁, htake, hlater⟩ := Option.bind_eq_some_iff.1 hrun
    rw [List.forall_mem_cons] at hss
    cases s with
    | header h =>
      have hnext := ih (hd.open htake) hss.2 hlater
      rwa [Draft.header_open htake] at hnext
    | entry path k n =>
      -- a value is put into the document itself only as long as no header has come
      rcases hheader : d.header with _ | h
      · have hnext := ih (hd.add_first hheader hss.1 htake) hss.2 hlater
        rwa [Draft.header_add htake, hheader] at hnext
      · have hnext := ih (hd.add_below hheader htake) hss.2 hlater
        rwa [Draft.header_add htake, hheader] at hnext

/-- The keys of a document are the places among what its lines mention, in the order of the lines. -/
theorem keys_ofText? {text : String} (hes : ofText? text = some es) :
    ∃ ss, statements? text = some ss ∧ Outline es (places [] (mentions false ss)) := by
  rw [ofText?_eq] at hes
  obtain ⟨ss, hss, hes⟩ := Option.bind_eq_some_iff.1 hes
  obtain ⟨d, hrun, hfinish⟩ := Option.bind_eq_some_iff.1 hes
  have hempty : Draft.Lists .empty [] := ⟨rfl, fun e he => absurd he List.not_mem_nil⟩
  refine ⟨ss, hss, ?_⟩
  rw [places_eq]
  exact (hempty.run (isFilled_of_statements hss) hrun).finish hfinish

/-- No two entries of a document have the same key. -/
theorem nodup_ofText? {text : String} (hes : ofText? text = some es) : (es.map (·.1.text)).Nodup := by
  obtain ⟨ss, -, ho⟩ := keys_ofText? hes
  have hnodup : (((mentions false ss).foldl place []).map Key.text).Nodup := nodup_places List.nodup_nil
  rwa [← places_eq, ← ho.keys, List.map_map] at hnodup

end UnitLoading.Toml
