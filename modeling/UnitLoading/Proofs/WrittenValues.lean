/-
Values that were written in TOML are read back: numbers, truth values, strings and arrays of strings.

A value that starts with a digit might be a date, a time, a float or an integer, and the reader tries them in
this order. It is enough to follow the digits up to the end of the line: whatever takes some of them stands
before another digit or the line feed then, and there is neither a hyphen, a colon nor a point
(`fixedDigits_digits`, `float_digits`).
-/
import Mathlib.Algebra.Ring.Int.Defs
import Mathlib.Algebra.Ring.Nat
import Mathlib.Data.List.Forall2
import UnitLoading.Proofs.WrittenStrings
import UnitLoading.Toml.Reader

namespace UnitLoading.Toml

open Text (Reads)

variable {ds rest : List Char} {depth : Nat}

-- ================================================================ digits of a number

/-- Digits as a decimal integer has them: there is one, and none is a needless zero. -/
structure Decimal (ds : List Char) : Prop where
  digits : ∀ d ∈ ds, d.isDigit = true
  nonempty : ds ≠ []
  zero : ds.head? = some '0' → ds = ['0']

theorem eq_zero_of_head_toDigits (n : Nat) (h : (Nat.toDigits 10 n).head? = some '0') : n = 0 := by
  induction n using Nat.strongRecOn with
  | _ n ih =>
    by_cases hn : n < 10
    · rw [Nat.toDigits_of_lt_base hn] at h
      have hdigit : ∀ k < 10, Nat.digitChar k = '0' → k = 0 := by decide
      exact hdigit n hn (by simpa using h)
    · rw [Nat.toDigits_of_base_le (by decide) (by omega), List.head?_append,
        Option.or_of_isSome (List.isSome_head?.2 Nat.toDigits_ne_nil)] at h
      have := ih (n / 10) (by omega) h
      omega

theorem decimal_toDigits (n : Nat) : Decimal (Nat.toDigits 10 n) where
  digits _ hd := Nat.isDigit_of_mem_toDigits (by decide) (by decide) hd
  nonempty := Nat.toDigits_ne_nil
  zero h := by
    rw [eq_zero_of_head_toDigits n h]
    rfl

theorem ofDigits_toDigits (n : Nat) : Text.ofDigits 10 ((Nat.toDigits 10 n).map Text.digitValue) = n := by
  calc Text.ofDigits 10 ((Nat.toDigits 10 n).map Text.digitValue)
      = Nat.ofDigitChars 10 (Nat.toDigits 10 n) 0 := by
        rw [Text.ofDigits, List.foldl_map, Nat.ofDigitChars_eq_foldl]
        simp only [Nat.mul_comm]
        rfl
    _ = n := Nat.ofDigitChars_ten_toDigits

-- ================================================================ readers of digits

theorem moreDigits_digits (hds : ∀ d ∈ ds, d.isDigit = true) :
    moreDigits Char.isDigit (ds ++ '\n' :: rest) = some (ds, '\n' :: rest) := by
  induction ds with
  | nil => rfl
  | cons d ds ih =>
    rw [List.forall_mem_cons] at hds
    rw [List.cons_append, moreDigits, if_pos hds.1, ih hds.2]
    · rfl
    · exact ne_of_class hds.1 (by decide)

theorem wholeDigits_digits (h : Decimal ds) :
    wholeDigits (ds ++ '\n' :: rest) = some (ds, '\n' :: rest) := by
  obtain ⟨d, ds', rfl⟩ := List.exists_cons_of_ne_nil h.nonempty
  by_cases hd : d = '0'
  · obtain ⟨rfl, rfl⟩ := List.cons.inj (h.zero (by simp [hd]))
    rfl
  · have hds := List.forall_mem_cons.1 h.digits
    rw [wholeDigits, List.cons_append, someDigits, if_pos hds.1, moreDigits_digits hds.2]
    · rfl
    · simpa using hd

/-- Digits that end a line start with a digit or the line feed. -/
theorem digits_ne {c : Char} (hds : ∀ d ∈ ds, d.isDigit = true) (hc : c.isDigit = false) (hn : c ≠ '\n')
    (cs : List Char) : ds ++ '\n' :: rest ≠ c :: cs := by
  cases ds with
  | nil => exact fun h => hn (List.cons.inj h).1.symm
  | cons d ds => exact fun h => ne_of_class (hds d List.mem_cons_self) hc (List.cons.inj h).1

theorem word_digits {w : String} {c : Char} {cs : List Char} (hds : ∀ d ∈ ds, d.isDigit = true)
    (hw : w.toList = c :: cs) (hc : c.isDigit = false) (hn : c ≠ '\n') :
    Text.word w (ds ++ '\n' :: rest) = none := by
  rw [Text.word, hw, if_neg]
  intro hprefix
  obtain ⟨t, ht⟩ := List.isPrefixOf_iff_prefix.1 hprefix
  exact digits_ne hds hc hn _ ht.symm

/-- A reader of a fixed number of digits stays within the digits. -/
theorem fixedDigits_digits {count lo hi n : Nat} {t : List Char} (hds : ∀ d ∈ ds, d.isDigit = true)
    (h : fixedDigits count lo hi (ds ++ '\n' :: rest) = some (n, t)) :
    ∃ ds', t = ds' ++ '\n' :: rest ∧ ∀ d ∈ ds', d.isDigit = true := by
  rw [fixedDigits] at h
  split at h
  next hall =>
    simp only [Bool.and_eq_true, decide_eq_true_eq, List.all_eq_true] at hall
    have hcount : count ≤ ds.length := by
      refine Nat.le_of_not_lt fun hmore => ?_
      obtain ⟨k, hk⟩ : ∃ k, count - ds.length = k + 1 := ⟨count - ds.length - 1, by omega⟩
      have hfeed : '\n' ∈ (ds ++ '\n' :: rest).take count := by simp [List.take_append, hk]
      exact absurd (hall.1.1.2 '\n' hfeed) (by decide)
    refine ⟨ds.drop count, ?_, fun d hd => hds d (List.mem_of_mem_drop hd)⟩
    rw [← (Prod.mk.inj (Option.some.inj h)).2, List.drop_append_of_le_length hcount]
  next => cases h

theorem date_digits (hds : ∀ d ∈ ds, d.isDigit = true) : date (ds ++ '\n' :: rest) = none := by
  rcases h : fixedDigits 4 0 9999 (ds ++ '\n' :: rest) with _ | ⟨year, t⟩
  · simp [date, h]
  · obtain ⟨ds', rfl, hds'⟩ := fixedDigits_digits hds h
    simp [date, h, word_digits (w := "-") hds' rfl (by decide) (by decide)]

theorem time_digits (hds : ∀ d ∈ ds, d.isDigit = true) : time (ds ++ '\n' :: rest) = none := by
  rcases h : fixedDigits 2 0 23 (ds ++ '\n' :: rest) with _ | ⟨hour, t⟩
  · simp [time, h]
  · obtain ⟨ds', rfl, hds'⟩ := fixedDigits_digits hds h
    simp [time, h, word_digits (w := ":") hds' rfl (by decide) (by decide)]

theorem sign_digits (hds : ∀ d ∈ ds, d.isDigit = true) :
    sign (ds ++ '\n' :: rest) = (false, ds ++ '\n' :: rest) := by
  rw [sign]
  · exact digits_ne hds (by decide) (by decide)
  · exact digits_ne hds (by decide) (by decide)

theorem float_digits (h : Decimal ds) : float (ds ++ '\n' :: rest) = none := by
  have hdecimal : decimalFloat (ds ++ '\n' :: rest) = none := by
    simp [decimalFloat, sign_digits h.digits, wholeDigits_digits h, Text.optional, fraction, exponent]
  have hnamed : namedFloat (ds ++ '\n' :: rest) = none := by
    simp [namedFloat, sign_digits h.digits, word_digits (w := "inf") h.digits rfl (by decide) (by decide),
      word_digits (w := "nan") h.digits rfl (by decide) (by decide)]
  rw [float, hdecimal, hnamed]
  rfl

theorem integer_digits (h : Decimal ds) :
    integer (ds ++ '\n' :: rest) =
      (int64? (Text.ofDigits 10 (ds.map Text.digitValue))).map (·, '\n' :: rest) := by
  -- A zero at the front is the whole number, so it does not announce another base.
  have hbase : ∀ (c : Char) cs, c ≠ '\n' → ds ++ '\n' :: rest ≠ '0' :: c :: cs := by
    intro c cs hc heq
    obtain ⟨d, ds', rfl⟩ := List.exists_cons_of_ne_nil h.nonempty
    obtain ⟨rfl, htail⟩ := List.cons.inj heq
    obtain ⟨-, rfl⟩ := List.cons.inj (h.zero rfl)
    exact hc (List.cons.inj htail).1.symm
  rw [integer, sign_digits h.digits]
  · simp only [wholeDigits_digits h, Option.bind_eq_bind, Option.bind_some, Bool.false_eq_true, if_false]
    rw [Option.map_eq_bind]
    rfl
  · exact fun cs => hbase 'x' cs (by decide)
  · exact fun cs => hbase 'o' cs (by decide)
  · exact fun cs => hbase 'b' cs (by decide)

theorem numeral_toDigits {n : Nat} (hn : n ≤ 2 ^ 63 - 1) :
    numeral (Nat.toDigits 10 n ++ '\n' :: rest) = some (.integer (.ofInt n), '\n' :: rest) := by
  have h := decimal_toDigits n
  have hleast : Int64.minValue.toInt = -2 ^ 63 := by decide
  have hgreatest : Int64.maxValue.toInt = 2 ^ 63 - 1 := by decide
  have hfits : int64? n = some (.ofInt n) := if_pos (by omega)
  have hdate : dateTime (Nat.toDigits 10 n ++ '\n' :: rest) = none := by
    rw [dateTime, date_digits h.digits, time_digits h.digits]
  rw [numeral, hdate, float_digits h, integer_digits h, ofDigits_toDigits, hfits]
  rfl

-- ================================================================ scalars

/-- The node is a scalar, wherever it was written. -/
def Node.Holds (n : Node) (v : Scalar) : Prop := ∃ span, n = .scalar span v

/-- The node is an array of strings. -/
def Node.HoldsStrings (n : Node) (ss : List String) : Prop :=
  ∃ span ns, n = .array span ns ∧ List.Forall₂ (fun n s => n.Holds (.string s)) ns ss

/-- A value that is neither an array nor in braces. -/
theorem value_scalar {c : Char} {cs : List Char} {v : Scalar} (hc : c ≠ '[') (hb : c ≠ '\x7b')
    (h : scalar (c :: cs) = some (v, rest)) :
    ∃ n, n.Holds v ∧ value depth (c :: cs) = some (n, rest) := by
  refine ⟨_, ⟨⟨(c :: cs).length, rest.length⟩, rfl⟩, ?_⟩
  rw [value]
  · simp [h]
  · simpa using hc
  · simpa using hb

theorem value_natural {k : Nat} (hk : k ≤ 2 ^ 63 - 1) :
    ∃ n, n.Holds (.integer (.ofInt k)) ∧
      value depth ((toString k).toList ++ '\n' :: rest) = some (n, '\n' :: rest) := by
  rw [Nat.toString_eq_ofList_toDigits, String.toList_ofList]
  have h := decimal_toDigits k
  have hread : numeral (Nat.toDigits 10 k ++ '\n' :: rest) = some (.integer (.ofInt k), '\n' :: rest) :=
    numeral_toDigits hk
  obtain ⟨d, ds, hds⟩ := List.exists_cons_of_ne_nil h.nonempty
  have hd : d.isDigit = true := h.digits d (hds ▸ List.mem_cons_self)
  rw [hds, List.cons_append] at hread ⊢
  have hquotes : ¬(d = '\x22' || d = '\x27') = true := by
    simp [ne_of_class hd (d := '\x22') (by decide), ne_of_class hd (d := '\x27') (by decide)]
  refine value_scalar (ne_of_class hd (by decide)) (ne_of_class hd (by decide)) ?_
  rw [scalar, if_neg hquotes, if_pos (by simp [hd]), hread]

theorem value_boolean (b : Bool) :
    ∃ n, n.Holds (.boolean b) ∧
      value depth ((toString b).toList ++ '\n' :: rest) = some (n, '\n' :: rest) := by
  cases b with
  | true => exact value_scalar (by decide) (by decide) rfl
  | false => exact value_scalar (by decide) (by decide) rfl

theorem value_string (depth : Nat) (s : String) (hr : ∀ q e, Quote q e → rest.head? ≠ some q) :
    ∃ n, n.Holds (.string s) ∧ value depth (writeString s ++ rest) = some (n, rest) := by
  have hread := string_writeString s hr
  obtain ⟨q, e, cs, hq, hs⟩ := writeString_head s
  rw [hs, List.cons_append] at hread ⊢
  refine value_scalar (by cases hq <;> decide) (by cases hq <;> decide) ?_
  rw [scalar, if_pos (by cases hq <;> decide), hread]
  rfl

-- ================================================================ arrays of strings

theorem skipTrivia_eq {c : Char} {cs t : List Char} (h : skipBlankLines cs = c :: t) (hc : c ≠ '#') :
    skipTrivia cs.length cs = c :: t := by
  cases cs with
  | nil => cases h
  | cons x xs =>
    rw [List.length_cons, skipTrivia, h]
    simp [hc]

section Items

variable {item : Reads Node} {n : Node} {ns : List Node} {c : Char} {cs t next after : List Char} {fuel : Nat}

theorem arrayItems_comma (hskip : skipTrivia cs.length cs = c :: t) (hc : c ≠ ']')
    (hitem : item (c :: t) = some (n, next)) (hnext : skipTrivia next.length next = ',' :: after)
    (hread : arrayItems item fuel after = some (ns, rest)) :
    arrayItems item (fuel + 1) cs = some (n :: ns, rest) := by
  simp [arrayItems, hskip, hc, hitem, hnext, hread]

theorem arrayItems_last (hskip : skipTrivia cs.length cs = c :: t) (hc : c ≠ ']')
    (hitem : item (c :: t) = some (n, next)) (hnext : skipTrivia next.length next = ']' :: rest) :
    arrayItems item (fuel + 1) cs = some ([n], rest) := by
  simp [arrayItems, hskip, hc, hitem, hnext]

end Items

/-- A string as an item, with nothing but blanks and line ends before it. -/
theorem item_string (depth : Nat) (blanks : List Char) (s : String)
    (hblanks : ∀ q e t, Quote q e → skipBlankLines (blanks ++ q :: t) = q :: t)
    (hr : ∀ q e, Quote q e → rest.head? ≠ some q) :
    ∃ n c t, n.Holds (.string s) ∧ c ≠ ']' ∧ value depth (c :: t) = some (n, rest) ∧
      skipTrivia (blanks ++ (writeString s ++ rest)).length (blanks ++ (writeString s ++ rest)) = c :: t := by
  obtain ⟨n, hn, hitem⟩ := value_string depth s hr
  obtain ⟨q, e, t, hq, hs⟩ := writeString_head s
  rw [hs, List.cons_append] at hitem ⊢
  exact ⟨n, q, t ++ rest, hn, by cases hq <;> decide, hitem,
    skipTrivia_eq (hblanks q e _ hq) (by cases hq <;> decide)⟩

/-- Strings on a line each, with a comma behind. -/
def itemLines (ss : List String) : List Char :=
  ss.flatMap fun s => [' ', ' ', ' ', ' '] ++ writeString s ++ [',', '\n']

theorem itemLines_cons (s : String) (ss : List String) (cs : List Char) :
    '\n' :: (itemLines (s :: ss) ++ cs) =
      ['\n', ' ', ' ', ' ', ' '] ++ (writeString s ++ ',' :: '\n' :: (itemLines ss ++ cs)) := by
  simp [itemLines]

theorem length_le_itemLines (ss : List String) : ss.length ≤ (itemLines ss).length := by
  induction ss with
  | nil => exact Nat.zero_le _
  | cons s ss ih =>
    simp only [itemLines, List.flatMap_cons, List.length_append, List.length_cons] at ih ⊢
    omega

/-- What stands behind the opening bracket of an array on several lines. -/
theorem arrayItems_lines (depth : Nat) (rest : List Char) (ss : List String) {fuel : Nat}
    (hf : ss.length < fuel) :
    ∃ ns, List.Forall₂ (fun n s => n.Holds (.string s)) ns ss ∧
      arrayItems (value depth) fuel ('\n' :: (itemLines ss ++ ']' :: rest)) = some (ns, rest) := by
  induction ss generalizing fuel with
  | nil =>
    obtain ⟨fuel, rfl⟩ := Nat.exists_eq_add_one_of_ne_zero (Nat.ne_of_gt hf)
    refine ⟨[], .nil, ?_⟩
    rw [arrayItems, skipTrivia_eq (t := rest) rfl (by decide)]
    rfl
  | cons s ss ih =>
    obtain ⟨fuel, rfl⟩ := Nat.exists_eq_add_one_of_ne_zero (Nat.ne_of_gt (Nat.zero_lt_of_lt hf))
    obtain ⟨ns, hns, hread⟩ := ih (Nat.lt_of_succ_lt_succ hf)
    obtain ⟨n, c, t, hn, hc, hitem, hskip⟩ := @item_string (',' :: '\n' :: (itemLines ss ++ ']' :: rest))
      depth ['\n', ' ', ' ', ' ', ' '] s
      (fun q e t hq => by cases hq <;> rfl) (fun q e hq => by cases hq <;> simp)
    refine ⟨n :: ns, .cons hn hns, ?_⟩
    rw [itemLines_cons]
    exact arrayItems_comma hskip hc hitem (skipTrivia_eq rfl (by decide)) hread

theorem value_writeStrings (ss : List String) :
    ∃ n, n.HoldsStrings ss ∧ value (depth + 1) (writeStrings ss ++ rest) = some (n, rest) := by
  suffices h : ∃ cs ns, writeStrings ss ++ rest = '[' :: cs ∧
      List.Forall₂ (fun n s => n.Holds (.string s)) ns ss ∧
      arrayItems (value depth) (cs.length + 1) cs = some (ns, rest) by
    obtain ⟨cs, ns, hcs, hns, hread⟩ := h
    refine ⟨_, ⟨⟨cs.length + 1, rest.length⟩, ns, rfl, hns⟩, ?_⟩
    rw [hcs, value, hread]
    rfl
  match ss with
  | [] => exact ⟨_, [], rfl, .nil, rfl⟩
  | [s] =>
    obtain ⟨n, c, t, hn, hc, hitem, hskip⟩ := @item_string (']' :: rest) depth [] s
      (fun q e t hq => by cases hq <;> rfl) (fun q e hq => by cases hq <;> simp)
    exact ⟨writeString s ++ ']' :: rest, [n], by simp [writeStrings], .cons hn .nil,
      arrayItems_last hskip hc hitem (skipTrivia_eq rfl (by decide))⟩
  | s :: s' :: ss =>
    have hlength := length_le_itemLines (s :: s' :: ss)
    have hfuel : (s :: s' :: ss).length < ('\n' :: (itemLines (s :: s' :: ss) ++ ']' :: rest)).length + 1 := by
      simp only [List.length_cons, List.length_append] at hlength ⊢
      omega
    obtain ⟨ns, hns, hread⟩ := arrayItems_lines depth rest (s :: s' :: ss) hfuel
    exact ⟨_, ns, by simp [writeStrings, itemLines], hns, hread⟩

end UnitLoading.Toml
