/-
Configurations that were written in TOML are read back.

The text of a configuration is four lines, each with a key of its own, and the reader takes one line at a
time. `Adds` says which entries a text adds to a document; it is stated for every document that has none of
the keys yet, so that a line can be put in front of a text that is known already (`Adds.line`), and the text
of a configuration is built from its last line backwards.

What cannot be read back is a capacity that is no signed number of 64 bits. The writer has no text for it and
falls back to the empty one, and that is a document too: it says nothing, and so it reads as the standard
configuration (`parse_toToml_iff`).
-/
import UnitLoading.Config.File
import UnitLoading.Proofs.WrittenValues

namespace UnitLoading

open Toml (Node Key Span Entries Draft)

namespace Toml

variable {k : String} {v rest : List Char} {n : Node} {es : Entries} {fuel : Nat}

-- ================================================================ lines

/-- The line of a key and its value. -/
def line (k : String) (v : List Char) : List Char := k.toList ++ ' ' :: '=' :: ' ' :: (v ++ ['\n'])

/-- A key that needs no quotes. -/
def isBareKey (k : String) : Bool := k.toList ≠ [] && k.toList.all isBareKeyChar

theorem skipBlanks_cons {c : Char} {cs : List Char} (hc : isBlank c = false) :
    skipBlanks (c :: cs) = c :: cs := by
  rw [skipBlanks, List.dropWhile_cons_of_neg (by simp [hc])]

theorem lineString_bare {c : Char} {cs : List Char} (hc : isBareKeyChar c = true) :
    lineString (c :: cs) = none := by
  rw [lineString]
  · exact fun t heq => absurd (List.cons.inj heq).1 (ne_of_class hc (by decide))
  · exact fun t heq => absurd (List.cons.inj heq).1 (ne_of_class hc (by decide))

theorem exists_head_of_isBareKey (hk : isBareKey k = true) :
    ∃ c cs, k.toList = c :: cs ∧ isBareKeyChar c = true := by
  simp only [isBareKey, Bool.and_eq_true, decide_eq_true_eq, List.all_eq_true] at hk
  obtain ⟨c, cs, hcs⟩ := List.exists_cons_of_ne_nil hk.1
  exact ⟨c, cs, hcs, hk.2 c (hcs ▸ List.mem_cons_self)⟩

theorem isBlank_bare {c : Char} (hc : isBareKeyChar c = true) : isBlank c = false := by
  simp [isBlank, ne_of_class hc (d := ' ') (by decide), ne_of_class hc (d := '\t') (by decide)]

theorem skipBlanks_bare (hk : isBareKey k = true) (cs : List Char) :
    skipBlanks (k.toList ++ cs) = k.toList ++ cs := by
  obtain ⟨c, k', hcs, hc⟩ := exists_head_of_isBareKey hk
  rw [hcs, List.cons_append, skipBlanks_cons (isBlank_bare hc)]

theorem keyText_bare (hk : isBareKey k = true) :
    keyText (k.toList ++ ' ' :: rest) = some (k, ' ' :: rest) := by
  obtain ⟨c, cs, hcs, hc⟩ := exists_head_of_isBareKey hk
  have hall : ∀ c ∈ k.toList, isBareKeyChar c = true := by
    simp only [isBareKey, Bool.and_eq_true, List.all_eq_true] at hk
    exact hk.2
  have htake : (k.toList ++ ' ' :: rest).takeWhile isBareKeyChar = k.toList := by
    rw [List.takeWhile_append_of_pos hall, List.takeWhile_cons_of_neg (by decide), List.append_nil]
  have hdrop : (k.toList ++ ' ' :: rest).dropWhile isBareKeyChar = ' ' :: rest := by
    rw [List.dropWhile_append_of_pos hall, List.dropWhile_cons_of_neg (by decide)]
  have hline : lineString (k.toList ++ ' ' :: rest) = none := by
    rw [hcs]
    exact lineString_bare hc
  rw [keyText, hline, htake, hdrop, hcs]
  simp [← hcs]

theorem key_bare (hk : isBareKey k = true) (rest : List Char) :
    ∃ span, key (k.toList ++ ' ' :: '=' :: rest) = some (([], ⟨k, span⟩), '=' :: rest) := by
  rw [key, limit, keyParts, keyPart, skipBlanks_bare hk, keyText_bare hk]
  exact ⟨_, rfl⟩

/-- Before the first header the document itself is the open table. -/
theorem add_first {k : Key} (hnew : es.get? k.text = none) :
    Draft.add ⟨[], none, es⟩ [] k n = some ⟨[], none, es ++ [(k, n)]⟩ := by
  simp [Draft.add, setKey, descend, addEntry, hnew]

/-- No value starts with a blank. -/
theorem skipBlanks_of_value {depth : Nat} {cs rest : List Char} (h : value depth cs = some (n, rest)) :
    skipBlanks cs = cs := by
  cases cs with
  | nil => rfl
  | cons c cs =>
    refine skipBlanks_cons (Bool.eq_false_iff.2 fun hblank => ?_)
    have hnone : value depth (c :: cs) = none := by
      simp only [isBlank, Bool.or_eq_true, decide_eq_true_eq] at hblank
      rcases hblank with rfl | rfl <;> simp [value, scalar, namedFloat, sign, Text.word]
    rw [hnone] at h
    cases h

theorem keyValue_line (hk : isBareKey k = true) (hv : value limit (v ++ '\n' :: rest) = some (n, '\n' :: rest)) :
    ∃ span, keyValue (value limit) (line k v ++ rest) = some (([], ⟨k, span⟩, n), '\n' :: rest) := by
  have htext : line k v ++ rest = k.toList ++ ' ' :: '=' :: ' ' :: (v ++ '\n' :: rest) := by
    simp [line]
  have hskip : skipBlanks (' ' :: (v ++ '\n' :: rest)) = v ++ '\n' :: rest := skipBlanks_of_value hv
  obtain ⟨span, hkey⟩ := key_bare hk (' ' :: (v ++ '\n' :: rest))
  refine ⟨span, ?_⟩
  rw [htext, keyValue, hkey]
  simp only [Option.bind_eq_bind, Option.bind_some]
  rw [hskip, hv]
  rfl

/-- A line that begins with a bare key is neither blank nor a comment nor a header. -/
theorem lines_bare {c : Char} {cs : List Char} {key : Key} (hc : isBareKeyChar c = true)
    (hread : keyValue (value limit) (c :: cs) = some (([], key, n), '\n' :: rest))
    (hnew : es.get? key.text = none) :
    lines (fuel + 1) ⟨[], none, es⟩ (c :: cs) = lines fuel ⟨[], none, es ++ [(key, n)]⟩ rest := by
  have hmark : ¬(c = '#' || c = '\n' || c = '\r') = true := by
    simp [ne_of_class hc (d := '#') (by decide), ne_of_class hc (d := '\n') (by decide),
      ne_of_class hc (d := '\r') (by decide)]
  have hend : lineRest ('\n' :: rest) = some rest := rfl
  rw [lines, skipBlanks_cons (isBlank_bare hc)]
  split
  next heq => cases heq
  next heq => exact absurd (List.cons.inj heq).1 (ne_of_class hc (by decide))
  next heq =>
    obtain ⟨rfl, rfl⟩ := List.cons.inj heq
    rw [if_neg hmark, hread]
    simp [hend, add_first hnew]

/-- The text adds these entries to a document that has no header and none of their keys so far. -/
def Adds (text : List Char) (es : Entries) : Prop :=
  ∀ fuel before, text.length < fuel → (∀ e ∈ es, Entries.get? before e.1.text = none) →
    lines fuel ⟨[], none, before⟩ text = some ⟨[], none, before ++ es⟩

theorem Adds.nil : Adds [] []
  | fuel + 1, before, _, _ => by simp [lines, skipBlanks]

theorem Adds.line {P : Node → Prop} (hk : isBareKey k = true) (hnew : ∀ e ∈ es, k ≠ e.1.text)
    (hv : ∃ n, P n ∧ value limit (v ++ '\n' :: rest) = some (n, '\n' :: rest)) (h : Adds rest es) :
    ∃ span n, P n ∧ Adds (line k v ++ rest) ((⟨k, span⟩, n) :: es) := by
  obtain ⟨n, hn, hv⟩ := hv
  obtain ⟨span, hline⟩ := keyValue_line hk hv
  obtain ⟨c, cs, hcs, hc⟩ := exists_head_of_isBareKey hk
  refine ⟨span, n, hn, ?_⟩
  intro fuel before hfuel hbefore
  cases fuel with
  | zero => exact absurd hfuel (Nat.not_lt_zero _)
  | succ fuel =>
    rw [List.forall_mem_cons] at hbefore
    have hlength : rest.length < fuel := by
      simp only [Toml.line, List.length_append, List.length_cons] at hfuel
      omega
    -- the key of this line is none of those that follow
    have hfresh : ∀ e ∈ es, Entries.get? (before ++ [(⟨k, span⟩, n)]) e.1.text = none := by
      intro e he
      have hold := hbefore.2 e he
      simp only [Entries.get?, Option.map_eq_none_iff, List.find?_append, Option.or_eq_none_iff] at hold ⊢
      exact ⟨hold, by simp [hnew e he]⟩
    rw [Toml.line, hcs, List.cons_append, List.cons_append] at hline ⊢
    rw [lines_bare hc hline hbefore.1, h fuel _ hlength hfresh, List.append_assoc]
    rfl

/-- What a text adds to the empty document is the document that it writes; no byte order mark is in front. -/
theorem ofText?_of_adds {text : String} (h : Adds text.toList es) (hmark : skipMark text.toList = text.toList) :
    ofText? text = some es := by
  have hread := h (text.toList.length + 1) [] (Nat.lt_succ_self _) fun _ _ => rfl
  rw [ofText?, hmark]
  simp only [Draft.empty, hread]
  rfl

end Toml

namespace LoaderConfig

variable {c : LoaderConfig}

-- ================================================================ the values of a configuration

theorem readStrings_holdsStrings {n : Node} {ss : List String} (h : n.HoldsStrings ss) (key : Span) :
    readStrings key n = .ok ss := by
  obtain ⟨span, ns, rfl, hns⟩ := h
  rw [readStrings]
  induction hns with
  | nil => rfl
  | cons hn _ ih =>
    obtain ⟨place, rfl⟩ := hn
    rw [List.mapM_cons, ih]
    rfl

theorem readSize_holds {n : Node} {w : UInt64} (h : n.Holds (.integer (.ofInt w.toNat)))
    (hw : w.toNat ≤ 2 ^ 63 - 1) (key : Span) : readSize key n = .ok w := by
  obtain ⟨span, rfl⟩ := h
  have hvalue : (Int64.ofInt w.toNat).toInt = w.toNat := Int64.toInt_ofInt_of_le (by omega) (by omega)
  rw [readSize, hvalue, if_neg (by omega)]
  simp

theorem readBool_holds {n : Node} {b : Bool} (h : n.Holds (.boolean b)) (key : Span) :
    readBool key n = .ok b := by
  obtain ⟨span, rfl⟩ := h
  rfl

-- ================================================================ the text of a configuration

theorem isWritable_iff : c.isWritable = true ↔
    c.cacheCapacity.toNat ≤ 2 ^ 63 - 1 ∧ c.constantsCapacity.toNat ≤ 2 ^ 63 - 1 := by
  have hgreatest : Int64.maxValue.toInt = 2 ^ 63 - 1 := by decide
  simp only [isWritable, Bool.and_eq_true, decide_eq_true_eq]
  omega

theorem toList_toToml (h : c.isWritable = true) :
    c.toToml.toList = Toml.line "search_locations" (Toml.writeStrings c.searchLocations) ++
      (Toml.line "cache_capacity" (toString c.cacheCapacity.toNat).toList ++
      (Toml.line "constants_capacity" (toString c.constantsCapacity.toNat).toList ++
      (Toml.line "isolate" (toString c.isolate).toList ++ []))) := by
  have htext : ∀ s : String, toString s = s := fun _ => rfl
  simp [toToml, h, Toml.line, htext]

theorem ofToml_toToml (h : c.isWritable = true) : ofToml c.toToml = .ok c := by
  obtain ⟨hcache, hconstants⟩ := isWritable_iff.1 h
  obtain ⟨s₄, n₄, hn₄, h₄⟩ := Toml.Adds.line (k := "isolate") (by decide) (by simp)
    (Toml.value_boolean c.isolate) .nil
  obtain ⟨s₃, n₃, hn₃, h₃⟩ := Toml.Adds.line (k := "constants_capacity") (by decide) (by simp)
    (Toml.value_natural hconstants) h₄
  obtain ⟨s₂, n₂, hn₂, h₂⟩ := Toml.Adds.line (k := "cache_capacity") (by decide) (by simp)
    (Toml.value_natural hcache) h₃
  obtain ⟨s₁, n₁, hn₁, h₁⟩ := Toml.Adds.line (k := "search_locations") (by decide) (by simp)
    (Toml.value_writeStrings c.searchLocations) h₂
  rw [← toList_toToml h] at h₁
  have htext := Toml.ofText?_of_adds h₁ (by rw [toList_toToml h]; rfl)
  have hentries : ofEntries [(⟨"search_locations", s₁⟩, n₁), (⟨"cache_capacity", s₂⟩, n₂),
      (⟨"constants_capacity", s₃⟩, n₃), (⟨"isolate", s₄⟩, n₄)] = .ok c := by
    simp only [ofEntries, List.foldlM_cons, List.foldlM_nil, readEntry, readStrings_holdsStrings hn₁,
      readSize_holds hn₂ hcache, readSize_holds hn₃ hconstants, readBool_holds hn₄]
    rfl
  rw [ofToml, htext]
  simp only [hentries]

theorem parse_toToml (h : c.isWritable = true) : parse c.toToml = .ok c := by
  rw [parse, parseAt, ofToml_toToml h]

/-- Where a number cannot be written, the empty text takes the place of all four lines. -/
theorem toToml_of_not_isWritable (h : c.isWritable = false) : c.toToml = "" := by
  rw [toToml, h]
  rfl

theorem parse_empty : parse "" = .ok standard :=
  rfl

/-- A configuration is read back from its text exactly if both capacities fit into a signed number; where
one does not, the text is empty, which reads as the standard configuration. -/
theorem parse_toToml_iff (c : LoaderConfig) :
    (parse c.toToml = .ok c ↔
      c.cacheCapacity.toNat ≤ 2 ^ 63 - 1 ∧ c.constantsCapacity.toNat ≤ 2 ^ 63 - 1) ∧
    (2 ^ 63 - 1 < c.cacheCapacity.toNat ∨ 2 ^ 63 - 1 < c.constantsCapacity.toNat →
      c.toToml = "" ∧ parse c.toToml = .ok standard ∧ c ≠ standard) := by
  have hlost : c.isWritable = false → c.toToml = "" ∧ parse c.toToml = .ok standard ∧ c ≠ standard := by
    intro h
    have hempty := toToml_of_not_isWritable h
    refine ⟨hempty, by rw [hempty, parse_empty], ?_⟩
    rintro rfl
    exact absurd h (by decide)
  refine ⟨⟨fun hback => ?_, fun hfits => parse_toToml (isWritable_iff.2 hfits)⟩, fun hlarge => ?_⟩
  · by_cases h : c.isWritable = true
    · exact isWritable_iff.1 h
    · obtain ⟨-, hstandard, hne⟩ := hlost (Bool.eq_false_iff.2 h)
      rw [hback] at hstandard
      exact absurd (Except.ok.inj hstandard) hne
  · refine hlost (Bool.eq_false_iff.2 fun h => ?_)
    have := isWritable_iff.1 h
    omega

/-- Quotes of both kinds, three in a row, with a backslash, controls and line ends of both kinds, and the
largest capacity that is read back. -/
def awkward : LoaderConfig where
  searchLocations := ["", "\x22\x22\x22\x27\x27\x27\\\r\n\t\x00\x7f", "\n\x22\x22", "\x27\x27\\\n", "file:///a"]
  cacheCapacity := 9223372036854775807
  isolate := true

/-- The smallest capacity that is not. -/
def oversized : LoaderConfig := { awkward with constantsCapacity := 9223372036854775808 }

theorem parse_toToml_iff_at_the_bound :
    parse awkward.toToml = .ok awkward ∧ 2 ^ 63 - 1 < oversized.constantsCapacity.toNat ∧
      oversized.toToml = "" ∧ parse oversized.toToml = .ok standard ∧ oversized ≠ standard :=
  ⟨(parse_toToml_iff awkward).1.2 (by decide), by decide, (parse_toToml_iff oversized).2 (by decide)⟩

end LoaderConfig

end UnitLoading
