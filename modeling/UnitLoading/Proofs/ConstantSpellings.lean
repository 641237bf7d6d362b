/-
Constants in JSON are read back.

A constant may be spelled in more ways than the one that is written: the kind and the content may come in
either order, members of other names may stand between them, and the two may be a pair in an array instead.
`Spelling` leaves the choice open at every level anew. All spellings read alike (`ofJson?_spelling`): as the
constant itself if every double in it is finite, and not at all otherwise, since a double that is not finite
is written as null and null is no number.

The reading follows the spelling. What makes it one argument and not one for each order of the members is
that the readers of members see only the two names they know (`ofMembers?_filter`), and that a content which
was kept until its kind came is read like one in its place. A reader of text has a limit on nesting; the
hypothesis is only that the value stays within it (`Origin.mayKeep`), and every value does for some limit
(`exists_fits`).
-/
import UnitLoading.Constant.Json

namespace UnitLoading

open Json (Value fitAll fitMembers)

-- ================================================================ the limit on nesting

namespace Json

mutual

/-- Whether a value has no part without a value, so that it is a JSON tree proper. -/
def Value.isUsable : Value → Bool
  | .array items => areUsable items
  | .object members => areMembersUsable members
  | .unusable => false
  | _ => true

def areUsable : List Value → Bool
  | [] => true
  | v :: vs => v.isUsable && areUsable vs

def areMembersUsable : List (String × Value) → Bool
  | [] => true
  | (_, v) :: ms => v.isUsable && areMembersUsable ms

end

theorem fitAll_iff {depth : Nat} {vs : List Value} : fitAll depth vs = true ↔ ∀ v ∈ vs, v.fits depth = true := by
  induction vs with
  | nil => simp [fitAll]
  | cons v vs ih => simp [fitAll, ih]

theorem fitMembers_iff {depth : Nat} {ms : List (String × Value)} :
    fitMembers depth ms = true ↔ ∀ m ∈ ms, m.2.fits depth = true := by
  induction ms with
  | nil => simp [fitMembers]
  | cons m ms ih =>
    obtain ⟨key, v⟩ := m
    simp [fitMembers, ih]

mutual

/-- A tree is nested less deep than some limit. -/
theorem exists_fits : (v : Value) → v.isUsable = true → ∃ limit, ∀ depth, limit ≤ depth → v.fits depth = true
  | .null, _ | .bool _, _ | .number _, _ | .string _, _ => ⟨0, fun _ _ => rfl⟩
  | .unusable, h => by cases h
  | .array items, h => by
    rw [Value.isUsable] at h
    obtain ⟨limit, hfits⟩ := exists_fitAll items h
    refine ⟨limit + 2, fun depth hdepth => ?_⟩
    rw [Value.fits, hfits (depth - 1) (by omega), Bool.and_true, decide_eq_true_eq]
    omega
  | .object members, h => by
    rw [Value.isUsable] at h
    obtain ⟨limit, hfits⟩ := exists_fitMembers members h
    refine ⟨limit + 2, fun depth hdepth => ?_⟩
    rw [Value.fits, hfits (depth - 1) (by omega), Bool.and_true, decide_eq_true_eq]
    omega

theorem exists_fitAll : (vs : List Value) → areUsable vs = true →
    ∃ limit, ∀ depth, limit ≤ depth → fitAll depth vs = true
  | [], _ => ⟨0, fun _ _ => rfl⟩
  | v :: vs, h => by
    rw [areUsable, Bool.and_eq_true] at h
    obtain ⟨limit, hv⟩ := exists_fits v h.1
    obtain ⟨limit', hvs⟩ := exists_fitAll vs h.2
    refine ⟨max limit limit', fun depth hdepth => ?_⟩
    rw [fitAll, hv depth (by omega), hvs depth (by omega)]
    rfl

theorem exists_fitMembers : (ms : List (String × Value)) → areMembersUsable ms = true →
    ∃ limit, ∀ depth, limit ≤ depth → fitMembers depth ms = true
  | [], _ => ⟨0, fun _ _ => rfl⟩
  | (_, v) :: ms, h => by
    rw [areMembersUsable, Bool.and_eq_true] at h
    obtain ⟨limit, hv⟩ := exists_fits v h.1
    obtain ⟨limit', hms⟩ := exists_fitMembers ms h.2
    refine ⟨max limit limit', fun depth hdepth => ?_⟩
    rw [fitMembers, hv depth (by omega), hms depth (by omega)]
    rfl

end

end Json

namespace Constant

variable {c : Constant} {cs : List Constant} {k : Kind} {v : Value} {vs : List Value} {o : Origin}
  {members : List (String × Value)}

/-- Where an array may be kept, there is an origin for its items, and each may be kept there. -/
theorem Origin.inner?_of_array (h : o.mayKeep (.array vs) = true) :
    ∃ i, o.inner? = some i ∧ ∀ v ∈ vs, i.mayKeep v = true := by
  cases o with
  | kept => exact ⟨.kept, rfl, fun _ _ => rfl⟩
  | text depth =>
    rw [Origin.mayKeep, Value.fits, Bool.and_eq_true, decide_eq_true_eq, Json.fitAll_iff] at h
    exact ⟨.text (depth - 1), if_pos h.1, h.2⟩

/-- Where an object may be kept, there is an origin for its members, and each may be kept there. -/
theorem Origin.inner?_of_object (h : o.mayKeep (.object members) = true) :
    ∃ i, o.inner? = some i ∧ ∀ m ∈ members, i.mayKeep m.2 = true := by
  cases o with
  | kept => exact ⟨.kept, rfl, fun _ _ => rfl⟩
  | text depth =>
    rw [Origin.mayKeep, Value.fits, Bool.and_eq_true, decide_eq_true_eq, Json.fitMembers_iff] at h
    exact ⟨.text (depth - 1), if_pos h.1, h.2⟩

-- ================================================================ spellings

/-- The kind of a constant. -/
def kind : Constant → Kind
  | .nil => .nil
  | .bool _ => .bool
  | .int _ => .int
  | .float _ => .float
  | .str _ => .str
  | .symbol _ => .symbol
  | .keyword _ => .keyword
  | .bytes _ => .bytes
  | .list _ => .list

mutual

/-- Whether no double in a constant, at any depth, is a NaN or infinite. -/
def isFinite : Constant → Bool
  | .float x => !x.isNaN && !x.isInfinite
  | .list items => areFinite items
  | _ => true

def areFinite : List Constant → Bool
  | [] => true
  | c :: cs => c.isFinite && areFinite cs

end

/-- Whether a member is one of the two that a constant has. -/
def isNamed (m : String × Value) : Bool := m.1 = "type" || m.1 = "value"

mutual

/-- What may stand as the content of a constant. -/
inductive Content : Constant → Value → Prop where
  | nil : Content .nil .null
  | bool (b : Bool) : Content (.bool b) (.bool b)
  | int (n : Int64) : Content (.int n) (.number (.int n.toInt))
  | float (x : Binary64) : Content (.float x) (floatJson x)
  | str (s : String) : Content (.str s) (.string s)
  | symbol (s : String) : Content (.symbol s) (.string s)
  | keyword (s : String) : Content (.keyword s) (.string s)
  | bytes (bs : List UInt8) : Content (.bytes bs) (.array (bs.map fun b => .number (.int b.toNat)))
  | list {items : List Constant} {vs : List Value} (h : Spellings items vs) : Content (.list items) (.array vs)

/-- What a constant may be spelled as. Members of other names may stand anywhere among the two. -/
inductive Spelling : Constant → Value → Prop where
  | object {c : Constant} {v : Value} {members : List (String × Value)} (h : Content c v)
    (named : members.filter isNamed = [("type", .string c.kind.name), ("value", v)]) :
    Spelling c (.object members)
  | swapped {c : Constant} {v : Value} {members : List (String × Value)} (h : Content c v)
    (named : members.filter isNamed = [("value", v), ("type", .string c.kind.name)]) :
    Spelling c (.object members)
  /-- Nil needs no content. -/
  | bare {members : List (String × Value)}
    (named : members.filter isNamed = [("type", .string Kind.nil.name)]) :
    Spelling .nil (.object members)
  | pair {c : Constant} {v : Value} (h : Content c v) : Spelling c (.array [.string c.kind.name, v])

/-- Item by item, a spelling for each constant. -/
inductive Spellings : List Constant → List Value → Prop where
  | nil : Spellings [] []
  | cons {c : Constant} {cs : List Constant} {v : Value} {vs : List Value} (h : Spelling c v)
    (hs : Spellings cs vs) : Spellings (c :: cs) (v :: vs)

end

mutual

/-- What is written is a spelling. -/
theorem spelling_toJson : (c : Constant) → Spelling c c.toJson
  | .nil => .bare rfl
  | .bool b => .object (.bool b) rfl
  | .int n => .object (.int n) rfl
  | .float x => .object (.float x) rfl
  | .str s => .object (.str s) rfl
  | .symbol s => .object (.symbol s) rfl
  | .keyword s => .object (.keyword s) rfl
  | .bytes bs => .object (.bytes bs) rfl
  | .list items => .object (.list (spellings_toJsons items)) rfl

theorem spellings_toJsons : (cs : List Constant) → Spellings cs (toJsons cs)
  | [] => .nil
  | c :: cs => .cons (spelling_toJson c) (spellings_toJsons cs)

end

-- ================================================================ the members of an object

theorem ofName?_name (k : Kind) : Kind.ofName? k.name = some k := by
  cases k <;> decide

theorem any_filter_isNamed (ms : List (String × Value)) :
    ((ms.filter isNamed).any fun m => m.1 = "type" || m.1 = "value") =
      ms.any fun m => m.1 = "type" || m.1 = "value" := by
  rw [List.any_filter]
  congr 1
  funext m
  exact Bool.and_self _

/-- A member of another name is neither a kind nor a content. -/
theorem ne_of_not_isNamed {key : String} (h : ¬isNamed (key, v) = true) : key ≠ "type" ∧ key ≠ "value" := by
  simpa [isNamed] using h

theorem ofMembersOf?_filter (o : Origin) (k : Kind) (ms : List (String × Value)) :
    ofMembersOf? o k (ms.filter isNamed) = ofMembersOf? o k ms := by
  induction ms with
  | nil => rfl
  | cons m ms ih =>
    obtain ⟨key, v⟩ := m
    by_cases hm : isNamed (key, v) = true
    · rw [List.filter_cons_of_pos hm, ofMembersOf?, ofMembersOf?, any_filter_isNamed, ih]
    · obtain ⟨htype, hvalue⟩ := ne_of_not_isNamed hm
      rw [List.filter_cons_of_neg hm, ih, ofMembersOf?, if_neg htype, if_neg hvalue]

theorem soleKind?_filter (ms : List (String × Value)) : soleKind? (ms.filter isNamed) = soleKind? ms := by
  induction ms with
  | nil => rfl
  | cons m ms ih =>
    obtain ⟨key, v⟩ := m
    by_cases hm : isNamed (key, v) = true
    · rw [List.filter_cons_of_pos hm, soleKind?, soleKind?, any_filter_isNamed, ih]
    · obtain ⟨htype, hvalue⟩ := ne_of_not_isNamed hm
      rw [List.filter_cons_of_neg hm, ih, soleKind?, if_neg htype, if_neg hvalue]

/-- The readers of members pass over every member of another name. -/
theorem ofMembers?_filter (o : Origin) (ms : List (String × Value)) :
    ofMembers? o (ms.filter isNamed) = ofMembers? o ms := by
  induction ms with
  | nil => rfl
  | cons m ms ih =>
    obtain ⟨key, v⟩ := m
    by_cases hm : isNamed (key, v) = true
    · have hkind : ∀ k, ofMembersOf? o k (ms.filter isNamed) = ofMembersOf? o k ms :=
        fun k => ofMembersOf?_filter o k ms
      rw [List.filter_cons_of_pos hm, ofMembers?, ofMembers?, soleKind?_filter, ih]
      simp only [hkind]
    · obtain ⟨htype, hvalue⟩ := ne_of_not_isNamed hm
      rw [List.filter_cons_of_neg hm, ih, ofMembers?, if_neg htype, if_neg hvalue]

/-- In an object a content is read where its kind stands before it. -/
theorem ofMembers?_named (h : members.filter isNamed = [("type", .string k.name), ("value", v)]) :
    ofMembers? o members = ofContent? o k v := by
  rw [← ofMembers?_filter, h]
  simp [ofMembers?, ofMembersOf?, memberKind?, ofName?_name]

/-- A content that stands before its kind is kept until then. -/
theorem ofMembers?_swapped (h : members.filter isNamed = [("value", v), ("type", .string k.name)])
    (hv : o.mayKeep v = true) : ofMembers? o members = ofContent? .kept k v := by
  rw [← ofMembers?_filter, h]
  simp [ofMembers?, soleKind?, memberKind?, ofName?_name, hv]

theorem ofMembers?_bare (h : members.filter isNamed = [("type", .string Kind.nil.name)]) :
    ofMembers? o members = some .nil := by
  rw [← ofMembers?_filter, h]
  simp [ofMembers?, ofMembersOf?, memberKind?, ofName?_name]

-- ================================================================ reading a spelling

/-- A double that is not finite is a NaN or infinite. -/
theorem isFinite_eq (x : Binary64) : x.isFinite = (!x.isNaN && !x.isInfinite) := by
  unfold Binary64.isFinite Binary64.isNaN Binary64.isInfinite
  by_cases hexponent : x.exponentField = 2047 <;> by_cases hfraction : x.fraction = 0 <;>
    simp [hexponent, hfraction]

/-- What reading gives: the constant, if it has no double that is not finite. -/
def readBack (c : Constant) : Option Constant := if c.isFinite then some c else none

def readBackAll (cs : List Constant) : Option (List Constant) := if areFinite cs then some cs else none

theorem int64?_toInt (n : Int64) : (Value.number (.int n.toInt)).int64? = some n := by
  have hrange : Int64.minValue.toInt ≤ n.toInt ∧ n.toInt ≤ Int64.maxValue.toInt :=
    ⟨Int64.minValue_le_toInt n, Int64.toInt_le n⟩
  rw [Value.int64?, Value.int?, if_pos hrange, Option.map_some, Int64.ofInt_toInt]

theorem uint8?_toNat (b : UInt8) : (Value.number (.int b.toNat)).uint8? = some b := by
  have hb : (b.toNat : Int) ≤ 255 := by
    have := b.toNat_lt
    omega
  simp [Value.uint8?, Value.int?, hb]

theorem mapM_uint8? (bs : List UInt8) :
    (bs.map fun b : UInt8 => Value.number (.int b.toNat)).mapM Value.uint8? = some bs := by
  induction bs with
  | nil => rfl
  | cons b bs ih => rw [List.map_cons, List.mapM_cons, uint8?_toNat, ih]; rfl

/-- A double's content is read back exactly if it is a number. -/
theorem ofContent?_floatJson (o : Origin) (x : Binary64) :
    ofContent? o .float (floatJson x) = (Constant.float x).readBack := by
  rw [floatJson, readBack, isFinite, ← isFinite_eq]
  cases x.isFinite <;> rfl

mutual

theorem ofContent?_content {c : Constant} {v : Value} (h : Content c v) (o : Origin)
    (ho : o.mayKeep v = true) : ofContent? o c.kind v = c.readBack := by
  cases h with
  | nil => rw [kind, ofContent?]; rfl
  | bool b => simp [kind, ofContent?, readBack, isFinite]
  | int n => simp [kind, ofContent?, readBack, isFinite, int64?_toInt]
  | float x => exact ofContent?_floatJson o x
  | str s => simp [kind, ofContent?, readBack, isFinite]
  | symbol s => simp [kind, ofContent?, readBack, isFinite]
  | keyword s => simp [kind, ofContent?, readBack, isFinite]
  | bytes bs =>
    obtain ⟨i, hi, -⟩ := Origin.inner?_of_array ho
    rw [kind, ofContent?, hi]
    exact congrArg (Option.map Constant.bytes) (mapM_uint8? bs)
  | @list items vs hs =>
    obtain ⟨i, hi, hkeep⟩ := Origin.inner?_of_array ho
    have hitems := ofItems?_spellings hs i hkeep
    rw [kind, ofContent?, hi]
    change (ofItems? i vs).map Constant.list = _
    rw [hitems, readBackAll, readBack, isFinite]
    cases areFinite items <;> rfl

theorem ofJson?_spelling {c : Constant} {v : Value} (h : Spelling c v) (o : Origin)
    (ho : o.mayKeep v = true) : ofJson? o v = c.readBack := by
  cases h with
  | @object _ v members h named =>
    obtain ⟨i, hi, hkeep⟩ := Origin.inner?_of_object ho
    have hmem : ("value", v) ∈ members.filter isNamed := by simp [named]
    have hcontent := ofContent?_content h i (hkeep _ (List.mem_filter.1 hmem).1)
    rw [ofJson?, hi, ← hcontent]
    exact ofMembers?_named named
  | @swapped _ v members h named =>
    obtain ⟨i, hi, hkeep⟩ := Origin.inner?_of_object ho
    have hmem : ("value", v) ∈ members.filter isNamed := by simp [named]
    have hcontent := ofContent?_content h .kept rfl
    rw [ofJson?, hi, ← hcontent]
    exact ofMembers?_swapped named (hkeep _ (List.mem_filter.1 hmem).1)
  | bare named =>
    obtain ⟨i, hi, -⟩ := Origin.inner?_of_object ho
    rw [ofJson?, hi]
    exact ofMembers?_bare named
  | pair h =>
    obtain ⟨i, hi, hkeep⟩ := Origin.inner?_of_array ho
    have hcontent := ofContent?_content h i (hkeep _ (by simp))
    simp [ofJson?, hi, pairKind?, ofName?_name, hcontent]

theorem ofItems?_spellings {cs : List Constant} {vs : List Value} (h : Spellings cs vs) (o : Origin)
    (ho : ∀ v ∈ vs, o.mayKeep v = true) : ofItems? o vs = readBackAll cs := by
  cases h with
  | nil => rfl
  | @cons c cs v vs h hs =>
    rw [List.forall_mem_cons] at ho
    have hfirst := ofJson?_spelling h o ho.1
    have hrest := ofItems?_spellings hs o ho.2
    rw [ofItems?, hfirst, hrest, readBack, readBackAll, readBackAll, areFinite]
    cases c.isFinite <;> cases areFinite cs <;> rfl

end

-- ================================================================ every spelling

theorem areUsable_map {α : Type} (f : α → Value) (hf : ∀ a, (f a).isUsable = true) (as : List α) :
    Json.areUsable (as.map f) = true := by
  induction as with
  | nil => rfl
  | cons a as ih => rw [List.map_cons, Json.areUsable, hf, ih]; rfl

theorem isUsable_tagged (k : Kind) (hv : v.isUsable = true) : (tagged k v).isUsable = true := by
  simp [tagged, Value.isUsable, Json.areMembersUsable, hv]

mutual

/-- What is written is a tree proper. -/
theorem isUsable_toJson : (c : Constant) → c.toJson.isUsable = true
  | .nil => rfl
  | .bool _ | .int _ | .str _ | .symbol _ | .keyword _ => rfl
  | .float x => isUsable_tagged .float (by unfold floatJson; split <;> rfl)
  | .bytes bs => isUsable_tagged .bytes (areUsable_map _ (fun _ => rfl) bs)
  | .list items => isUsable_tagged .list (areUsable_toJsons items)

theorem areUsable_toJsons : (cs : List Constant) → Json.areUsable (toJsons cs) = true
  | [] => rfl
  | c :: cs => by rw [toJsons, Json.areUsable, isUsable_toJson c, areUsable_toJsons cs]; rfl

end

/-- However a constant is spelled, from a text or from what was kept, it is read back exactly if no double in
it is a NaN or infinite, and there is nothing to read otherwise. What is written is one of the spellings, and
no tree is nested too deep for every limit. -/
theorem reads_back_iff_finite (c : Constant) :
    Spelling c c.toJson ∧ c.toJson.isUsable = true ∧
    ∀ v, Spelling c v →
      (∀ o : Origin, o.mayKeep v = true →
        (ofJson? o v = some c ↔ c.isFinite = true) ∧ (c.isFinite = false → ofJson? o v = none)) ∧
      Origin.kept.mayKeep v = true ∧
      (v.isUsable = true → ∃ limit, ∀ depth, limit ≤ depth → (Origin.text depth).mayKeep v = true) := by
  refine ⟨spelling_toJson c, isUsable_toJson c, fun v hv => ⟨fun o ho => ?_, rfl, Json.exists_fits v⟩⟩
  rw [ofJson?_spelling hv o ho, readBack]
  cases c.isFinite with
  | true => simp
  | false => simp

/-- A list with a negative zero, a nil, a list of its own and bytes. -/
def mixed : Constant :=
  .list [.float ⟨0x8000000000000000⟩, .nil, .list [.str "a", .symbol "a", .keyword "a"], .bytes [1, 255]]

/-- The list with another spelling at each place. -/
def mixedSpelling : Value :=
  .array [.string "list", .array [
    .object [("value", .number (.real ⟨0x8000000000000000⟩)), ("note", .array []), ("type", .string "float")],
    .array [.string "nil", .null],
    .object [("note", .null), ("type", .string "list"), ("note", .null), ("value", .array [
      .array [.string "str", .string "a"],
      .object [("value", .string "a"), ("type", .string "symbol")],
      .object [("type", .string "keyword"), ("value", .string "a")]])],
    .object [("value", .array [.number (.int 1), .number (.int 255)]), ("type", .string "bytes")]]]

theorem spelling_mixed : Spelling mixed mixedSpelling :=
  .pair (.list
    (.cons (.swapped (.float _) rfl)
    (.cons (.pair .nil)
    (.cons (.object (.list (.cons (.pair (.str _)) (.cons (.swapped (.symbol _) rfl)
      (.cons (.object (.keyword _) rfl) .nil)))) rfl)
    (.cons (.swapped (.bytes [1, 255]) rfl) .nil)))))

theorem reads_back_iff_finite_mixed :
    Spelling mixed mixedSpelling ∧ (Origin.text 128).mayKeep mixedSpelling = true ∧
      ofJson? (.text 128) mixedSpelling = some mixed ∧
      ofJson? .kept (Constant.list [.nil, .float (.infinity true)]).toJson = none := by
  have hlist := (reads_back_iff_finite mixed).2.2 mixedSpelling spelling_mixed
  have hinfinite := reads_back_iff_finite (.list [.nil, .float (.infinity true)])
  exact ⟨spelling_mixed, by decide, (hlist.1 (.text 128) (by decide)).1.2 (by decide),
    ((hinfinite.2.2 _ hinfinite.1).1 .kept rfl).2 (by decide)⟩

end Constant

end UnitLoading
