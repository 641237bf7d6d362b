/-
Strings that were written in TOML are read back.

The writer picks one of four forms by what is in the string, and the reader tells the form by the quotes it
finds. `LineIs` and `LinesAre` say what a reader makes of a text with any fuel that is enough, and for each
thing that may stand in a body there is a lemma that puts it in front of a text that is known already. A body
is then built from its closing quotes backwards.

Between the quotes of several lines one quote does not say by itself whether the body ends there: the reader
takes all quotes in a row at once. So the induction on the string carries the quotes that stand right before it
(`linesAre_escapedBody`, `linesAre_literal`); the writer sees to it that there are never more than two.
-/
import Mathlib.Tactic.SplitIfs
import UnitLoading.Toml.Strings
import UnitLoading.Toml.Writer

namespace UnitLoading.Toml

variable {q c : Char} {escapes : Bool} {text body rest : List Char} {run : Nat}

-- ================================================================ what a reader makes of a text

/-- The two quotes, with whether a backslash has a meaning between them. -/
inductive Quote : Char → Bool → Prop
  | double : Quote '\x22' true
  | single : Quote '\x27' false

/-- The text is the rest of a string on one line. -/
def LineIs (q : Char) (escapes : Bool) (text body rest : List Char) : Prop :=
  ∀ fuel, text.length < fuel → lineBody q escapes fuel text = some (body, rest)

/-- The text is the rest of a string on several lines. -/
def LinesAre (q : Char) (escapes : Bool) (text body rest : List Char) : Prop :=
  ∀ fuel, text.length < fuel → linesBody q escapes fuel text = some (body, rest)

/-- A character that means itself between the quotes. -/
def StandsFor (q : Char) (escapes : Bool) (c : Char) : Prop :=
  isPlain c = true ∧ c ≠ q ∧ (escapes = true → c ≠ '\\')

/-- What stands behind a backslash for a character; it does not begin with the rest of a line. -/
structure Escapes (e : List Char) (c : Char) : Prop where
  read : ∀ rest, escape (e ++ rest) = some (c, rest)
  here : ∀ rest, continuation (e ++ rest) = none

theorem Quote.ne_backslash (hq : Quote q escapes) : q ≠ '\\' := by
  cases hq <;> decide

/-- A character of a class is none that is not of the class. -/
theorem ne_of_class {p : Char → Bool} {c d : Char} (hc : p c = true) (hd : p d = false) : c ≠ d := by
  intro h
  rw [h, hd] at hc
  cases hc

theorem newline_eq_none (hn : c ≠ '\n') (hr : c ≠ '\r') : newline (c :: text) = none := by
  unfold newline
  split <;> simp_all

/-- No line end begins with a plain character. -/
theorem newline_of_isPlain (hc : isPlain c = true) : newline (c :: text) = none :=
  newline_eq_none (ne_of_class hc (by decide)) (ne_of_class hc (by decide))

-- ================================================================ strings on one line

namespace LineIs

theorem close : LineIs q escapes (q :: rest) [] rest
  | fuel + 1, _ => by simp [lineBody]

theorem plain (hc : StandsFor q escapes c) (h : LineIs q escapes text body rest) :
    LineIs q escapes (c :: text) (c :: body) rest
  | fuel + 1, hf => by
    obtain ⟨hp, hq, he⟩ := hc
    have hread : lineBody q escapes fuel text = some (body, rest) := h fuel (Nat.lt_of_succ_lt_succ hf)
    rw [lineBody, if_neg hq, if_neg (by simpa using he), if_pos hp, hread]
    rfl

theorem escape {e : List Char} (hq : Quote q true) (he : Escapes e c) (h : LineIs q true text body rest) :
    LineIs q true ('\\' :: (e ++ text)) (c :: body) rest
  | fuel + 1, hf => by
    have hlength : text.length < fuel := by
      simp only [List.length_cons, List.length_append] at hf
      omega
    rw [lineBody, if_neg hq.ne_backslash.symm, if_pos (by simp), he.read text]
    simp [h fuel hlength]

/-- A body ends at the first quote, so a second one is not part of the string. -/
theorem ends_at_quote (h : LineIs q escapes (q :: text) body rest) : text = rest := by
  have hread := h _ (Nat.lt_succ_self _)
  rw [lineBody, if_pos rfl] at hread
  simp_all

end LineIs

-- ================================================================ strings on several lines

namespace LinesAre

/-- The quotes in a row are taken at once, if the text goes on with something else. -/
theorem takeWhile_quotes (k : Nat) (h : text.head? ≠ some q) :
    (List.replicate k q ++ text).takeWhile (· = q) = List.replicate k q := by
  rw [List.takeWhile_append_of_pos (by simp +contextual [List.mem_replicate])]
  cases text with
  | nil => simp
  | cons c cs => simp_all

/-- The closing quotes, with the last quotes of the string right before them. -/
theorem close (hk : run ≤ 2) (hr : rest.head? ≠ some q) :
    LinesAre q escapes (List.replicate run q ++ (q :: q :: q :: rest)) (List.replicate run q) rest := by
  have hquotes : List.replicate run q ++ (q :: q :: q :: rest) = q :: (List.replicate (run + 2) q ++ rest) := by
    rw [← List.cons_append, ← List.replicate_succ,
      show q :: q :: q :: rest = List.replicate 3 q ++ rest from rfl, ← List.append_assoc,
      List.replicate_append_replicate]
  intro fuel hf
  cases fuel with
  | zero => exact absurd hf (Nat.not_lt_zero _)
  | succ fuel =>
    rw [hquotes, linesBody, if_pos rfl, ← List.cons_append, ← List.replicate_succ, takeWhile_quotes _ hr,
      List.length_replicate, if_neg (by omega), if_pos (by omega), List.drop_left' (List.length_replicate ..)]
    rfl

/-- One or two quotes in front of anything else. -/
theorem quotes (hk : run ≤ 2) (ht : text.head? ≠ some q) (h : LinesAre q escapes text body rest) :
    LinesAre q escapes (List.replicate run q ++ text) (List.replicate run q ++ body) rest := by
  cases run with
  | zero => simpa using h
  | succ k =>
    intro fuel hf
    cases fuel with
    | zero => exact absurd hf (Nat.not_lt_zero _)
    | succ fuel =>
      have hlength : text.length < fuel := by
        simp only [List.length_append, List.length_replicate] at hf
        omega
      have htaken := takeWhile_quotes (k + 1) ht
      rw [List.replicate_succ, List.cons_append] at htaken ⊢
      rw [linesBody, if_pos rfl, htaken, ← List.cons_append, ← List.replicate_succ, List.length_replicate,
        if_pos (by omega), List.drop_left' (List.length_replicate ..), h fuel hlength]
      rfl

theorem plain (hc : StandsFor q escapes c) (h : LinesAre q escapes text body rest) :
    LinesAre q escapes (c :: text) (c :: body) rest
  | fuel + 1, hf => by
    obtain ⟨hp, hq, he⟩ := hc
    have hread : linesBody q escapes fuel text = some (body, rest) := h fuel (Nat.lt_of_succ_lt_succ hf)
    rw [linesBody, if_neg hq, if_neg (by simpa using he), newline_of_isPlain hp]
    simp [hp, hread]

theorem feed (hq : Quote q escapes) (h : LinesAre q escapes text body rest) :
    LinesAre q escapes ('\n' :: text) ('\n' :: body) rest
  | fuel + 1, hf => by
    have hread : linesBody q escapes fuel text = some (body, rest) := h fuel (Nat.lt_of_succ_lt_succ hf)
    rw [linesBody, if_neg (by cases hq <;> decide), if_neg (by simp)]
    simp [newline, hread]

theorem escape {e : List Char} (hq : Quote q true) (he : Escapes e c) (h : LinesAre q true text body rest) :
    LinesAre q true ('\\' :: (e ++ text)) (c :: body) rest
  | fuel + 1, hf => by
    have hlength : text.length < fuel := by
      simp only [List.length_cons, List.length_append] at hf
      omega
    rw [linesBody, if_neg hq.ne_backslash.symm, if_pos (by simp), he.here text, he.read text]
    simp [h fuel hlength]

/-- A line end at the front would be a line feed of the string. -/
theorem newline_eq_none (hq : Quote q escapes) (h : LinesAre q escapes text body rest)
    (hb : '\n' ∉ body) : newline text = none := by
  rcases hn : newline text with _ | ⟨⟨⟩, after⟩
  · rfl
  obtain ⟨c, cs, rfl, hc⟩ : ∃ c cs, text = c :: cs ∧ (c = '\n' ∨ c = '\r') := by
    unfold newline at hn
    split at hn <;> simp_all
  have hread := h _ (Nat.lt_succ_self _)
  rw [linesBody, if_neg (by rcases hc with rfl | rfl <;> cases hq <;> decide),
    if_neg (by rcases hc with rfl | rfl <;> simp), hn] at hread
  obtain ⟨⟨body', rest'⟩, -, heq⟩ := Option.bind_eq_some_iff.1 hread
  obtain ⟨rfl, rfl⟩ := Prod.mk.inj (Option.some.inj heq)
  exact absurd List.mem_cons_self hb

end LinesAre

-- ================================================================ strings in any form

theorem string_line (hq : Quote q escapes) (h : LineIs q escapes text body rest)
    (hr : rest.head? ≠ some q) : string (q :: text) = some (String.ofList body, rest) := by
  have hform : ∀ cs, text ≠ q :: q :: cs := by
    intro cs htext
    rw [htext] at h
    rw [← h.ends_at_quote] at hr
    exact hr rfl
  have hread := h _ (Nat.lt_succ_self _)
  cases hq with
  | double =>
    rw [string, lineString, hread]
    · rfl
    · exact fun cs hcs => hform cs (List.cons.inj hcs).2
    · simp
  | single =>
    rw [string, lineString, hread]
    · rfl
    · simp
    · exact fun cs hcs => hform cs (List.cons.inj hcs).2

/-- The line end behind the opening quotes is skipped, and without one nothing is. -/
theorem string_onLines (hq : Quote q escapes) (h : LinesAre q escapes (text ++ q :: q :: q :: rest) body rest) :
    string (onLines [q, q, q] (body.contains '\n') text ++ rest) = some (String.ofList body, rest) := by
  have hskip : skipNewline ((if body.contains '\n' then ['\n'] else []) ++ (text ++ q :: q :: q :: rest)) =
      text ++ q :: q :: q :: rest := by
    split
    · rfl
    next hfeed =>
      rw [skipNewline, Text.optional, List.nil_append, h.newline_eq_none hq (by simpa using hfeed)]
  have hread := h _ (Nat.lt_succ_self _)
  have hform : onLines [q, q, q] (body.contains '\n') text ++ rest = q :: q :: q ::
      ((if body.contains '\n' then ['\n'] else []) ++ (text ++ q :: q :: q :: rest)) := by
    simp [onLines]
  rw [hform]
  cases hq <;> simp only [string, hskip, hread, Option.map_some]

-- ================================================================ bodies with escapes

/-- What stands between double quotes for a character, with the quotes in a row before it and after it. -/
inductive Written (lines : Bool) (run : Nat) : Char → Nat → List Char → Prop
  | quote : lines = true → run < 2 → Written lines run '\x22' (run + 1) ['\x22']
  | feed : lines = true → Written lines run '\n' 0 ['\n']
  | plain {c : Char} : StandsFor '\x22' true c → Written lines run c 0 [c]
  | code {c : Char} {e : List Char} : Escapes e c → Written lines run c 0 ('\\' :: e)

theorem hexDigit?_upperHex : ∀ n < 16, Text.hexDigit? (upperHex n) = some n := by
  decide

theorem escapes_controlCode (h : needsCode c = true) :
    Escapes ['u', '0', '0', upperHex (c.toNat / 16), upperHex (c.toNat % 16)] c := by
  have hsmall : c.toNat < 128 := by
    simp only [needsCode, Bool.or_eq_true, Bool.and_eq_true, decide_eq_true_eq] at h
    rcases h with h | rfl
    · omega
    · decide
  have hhigh := hexDigit?_upperHex (c.toNat / 16) (by omega)
  have hlow := hexDigit?_upperHex (c.toNat % 16) (by omega)
  have hzero : Text.hexDigit? '0' = some 0 := by decide
  have hnumber : Text.ofDigits 16 [0, 0, c.toNat / 16, c.toNat % 16] = c.toNat := by
    simp only [Text.ofDigits, List.foldl_cons, List.foldl_nil]
    omega
  have hchar : scalarValue? c.toNat = some c := by
    rw [scalarValue?, if_pos (show c.toNat.isValidChar from c.valid), Char.ofNat_toNat]
  refine ⟨fun rest => ?_, fun rest => rfl⟩
  simp [escape, Text.hexNumber, hzero, hhigh, hlow, hnumber, hchar]

theorem isPlain_of_not_needsCode (h : needsCode c = false) (hn : c ≠ '\n') : isPlain c = true := by
  by_cases ht : c = '\t'
  · simp [isPlain, ht]
  have hdelete : c.toNat ≠ 0x7f := by
    intro hc
    have : c = '\x7f' := by rw [← Char.ofNat_toNat c, hc]
    simp [needsCode, this] at h
  simp only [needsCode, Bool.or_eq_false_iff, Bool.and_eq_false_imp, Bool.and_eq_true, decide_eq_true_eq,
    decide_eq_false_iff_not, Decidable.not_not] at h
  simp only [isPlain, Bool.or_eq_true, Bool.and_eq_true, decide_eq_true_eq]
  by_cases hlow : c.toNat ≤ 0x1f
  · exact absurd (h.1 ⟨hlow, ht⟩) hn
  · omega

/-- The seven characters that have a letter or themselves behind the backslash. -/
theorem escapes_letter {e : Char} (h : (e, c) ∈ [('\x22', '\x22'), ('\\', '\\'), ('b', '\x08'), ('t', '\t'),
    ('f', '\x0c'), ('r', '\r'), ('n', '\n')]) : Escapes [e] c := by
  simp only [List.mem_cons, Prod.mk.injEq, List.not_mem_nil, or_false] at h
  rcases h with ⟨rfl, rfl⟩ | ⟨rfl, rfl⟩ | ⟨rfl, rfl⟩ | ⟨rfl, rfl⟩ | ⟨rfl, rfl⟩ | ⟨rfl, rfl⟩ | ⟨rfl, rfl⟩ <;>
    exact ⟨fun rest => rfl, fun rest => rfl⟩

theorem escapedBody_cons (lines : Bool) (run : Nat) (c : Char) (cs : List Char) :
    ∃ next w, Written lines run c next w ∧
      escapedBody lines run (c :: cs) = w ++ escapedBody lines next cs := by
  refine ⟨_, _, ?_, rfl⟩
  by_cases hquote : c = '\x22'
  · subst hquote
    by_cases hroom : run < (if lines then 2 else 0)
    · obtain ⟨hlines, hrun⟩ : lines = true ∧ run < 2 := by cases lines <;> simp_all
      simpa [escaped, hroom] using Written.quote hlines hrun
    · simpa [escaped, hroom] using Written.code (escapes_letter (by simp))
  simp only [hquote, decide_false, Bool.false_and, Bool.false_eq_true, if_false, escaped]
  split_ifs with hback hb ht hf hr hn hlines hcode
  · exact .code (escapes_letter (by simp [hback]))
  · exact .code (escapes_letter (by simp [hb]))
  · exact .code (escapes_letter (by simp [ht]))
  · exact .code (escapes_letter (by simp [hf]))
  · exact .code (escapes_letter (by simp [hr]))
  · exact hn ▸ .feed hlines
  · exact .code (escapes_letter (by simp [hn]))
  · exact .code (escapes_controlCode hcode)
  · exact .plain ⟨isPlain_of_not_needsCode (by simpa using hcode) hn, hquote, fun _ => hback⟩

theorem lineIs_escapedBody (cs : List Char) (run : Nat) (rest : List Char) :
    LineIs '\x22' true (escapedBody false run cs ++ '\x22' :: rest) cs rest := by
  induction cs generalizing run with
  | nil => exact LineIs.close
  | cons c cs ih =>
    obtain ⟨next, w, hw, hbody⟩ := escapedBody_cons false run c cs
    rw [hbody, List.append_assoc]
    cases hw with
    | quote h => cases h
    | feed h => cases h
    | plain hc => exact (ih 0).plain hc
    | code he => exact (ih 0).escape .double he

/-- The induction carries the `run` quotes that stand right before the rest of the body. -/
theorem linesAre_escapedBody (cs : List Char) (hrun : run ≤ 2) (hr : rest.head? ≠ some '\x22') :
    LinesAre '\x22' true
      (List.replicate run '\x22' ++ (escapedBody true run cs ++ '\x22' :: '\x22' :: '\x22' :: rest))
      (List.replicate run '\x22' ++ cs) rest := by
  induction cs generalizing run with
  | nil => simpa [escapedBody] using LinesAre.close hrun hr
  | cons c cs ih =>
    have hnext := ih (Nat.zero_le 2)
    rw [List.replicate_zero, List.nil_append, List.nil_append] at hnext
    obtain ⟨next, w, hw, hbody⟩ := escapedBody_cons true run c cs
    rw [hbody, List.append_assoc]
    cases hw with
    | quote _ hroom => simpa [List.replicate_succ'] using @ih (run + 1) hroom
    | feed => exact .quotes hrun (by simp) (.feed .double hnext)
    | plain hc => exact .quotes hrun (by simpa using hc.2.1) (.plain hc hnext)
    | code he => exact .quotes hrun (by simp) (.escape .double he hnext)

-- ================================================================ bodies without escapes

theorem lineIs_literal {cs : List Char} (hcs : ∀ c ∈ cs, StandsFor '\x27' false c) (rest : List Char) :
    LineIs '\x27' false (cs ++ '\x27' :: rest) cs rest := by
  induction cs with
  | nil => exact LineIs.close
  | cons c cs ih =>
    rw [List.forall_mem_cons] at hcs
    exact (ih hcs.2).plain hcs.1

/-- As with escapes; what keeps the run short is now the string itself. -/
theorem linesAre_literal {cs : List Char} (hcs : ∀ c ∈ cs, needsCode c = false)
    (hrun : longestRun '\x27' cs run ≤ 2) (hr : rest.head? ≠ some '\x27') :
    LinesAre '\x27' false (List.replicate run '\x27' ++ (cs ++ '\x27' :: '\x27' :: '\x27' :: rest))
      (List.replicate run '\x27' ++ cs) rest := by
  induction cs generalizing run with
  | nil =>
    rw [longestRun] at hrun
    simpa using LinesAre.close hrun hr
  | cons c cs ih =>
    rw [List.forall_mem_cons] at hcs
    rw [longestRun] at hrun
    split at hrun
    next hquote =>
      subst hquote
      simpa [List.replicate_succ'] using ih hcs.2 hrun
    next hquote =>
      have hnext := @ih 0 hcs.2 (by omega)
      rw [List.replicate_zero, List.nil_append, List.nil_append] at hnext
      refine .quotes (by omega) (by simpa using hquote) ?_
      by_cases hfeed : c = '\n'
      · exact hfeed ▸ .feed .single hnext
      · exact .plain ⟨isPlain_of_not_needsCode hcs.1 hfeed, hquote, by simp⟩ hnext

-- ================================================================ strings in the style that suits them

theorem le_longestRun (c : Char) (cs : List Char) (run : Nat) : run ≤ longestRun c cs run := by
  induction cs generalizing run with
  | nil => exact Nat.le_refl run
  | cons x xs ih =>
    rw [longestRun]
    split
    · exact Nat.le_of_succ_le (ih (run + 1))
    · exact Nat.le_max_left ..

theorem not_mem_of_longestRun_eq_zero {cs : List Char} (h : longestRun c cs 0 = 0) : c ∉ cs := by
  induction cs with
  | nil => exact List.not_mem_nil
  | cons x xs ih =>
    rw [longestRun] at h
    split at h
    · have hrun : 1 ≤ longestRun c xs (0 + 1) := le_longestRun c xs (0 + 1)
      omega
    next hx => exact List.not_mem_cons_of_ne_of_not_mem (Ne.symm hx) (ih (by omega))

/-- What a style asks of a string: those with escapes can write every string. -/
def StringStyle.Suits : StringStyle → List Char → Prop
  | line, _ | lines, _ => True
  | literalLine, cs => ∀ c ∈ cs, StandsFor '\x27' false c
  | literalLines, cs => (∀ c ∈ cs, needsCode c = false) ∧ longestRun '\x27' cs 0 ≤ 2

theorem StringStyle.suits_of (cs : List Char) : (StringStyle.of cs).Suits cs := by
  have hcodes : (!cs.any needsCode) = true → ∀ c ∈ cs, needsCode c = false := by simp
  rw [StringStyle.of]
  split_ifs with hline hliteral hlines hliterals
  · trivial
  · simp only [Bool.and_eq_true, decide_eq_true_eq, Bool.not_eq_true', List.contains_eq_mem,
      decide_eq_false_iff_not] at hliteral
    obtain ⟨⟨hc, hsingle⟩, hfeed⟩ := hliteral
    intro c hmem
    have hplain := isPlain_of_not_needsCode (hcodes (by simpa using hc) c hmem) fun h => hfeed (h ▸ hmem)
    exact ⟨hplain, fun h => not_mem_of_longestRun_eq_zero hsingle (h ▸ hmem), by simp⟩
  · trivial
  · rw [Bool.and_eq_true, decide_eq_true_eq] at hliterals
    exact ⟨hcodes hliterals.1, hliterals.2⟩
  · trivial
  · trivial

/-- A string in any style that suits it is read back, if no quote follows that could be taken for its own. -/
theorem string_writeStyled {style : StringStyle} {cs : List Char} (h : style.Suits cs)
    (hr : ∀ q e, Quote q e → rest.head? ≠ some q) :
    string (writeStyled style cs ++ rest) = some (String.ofList cs, rest) := by
  have hdouble := hr _ _ .double
  have hsingle := hr _ _ .single
  cases style with
  | line => simpa [writeStyled] using string_line .double (lineIs_escapedBody cs 0 rest) hdouble
  | literalLine => simpa [writeStyled] using string_line .single (lineIs_literal h rest) hsingle
  | lines => exact string_onLines .double (linesAre_escapedBody cs (Nat.zero_le 2) hdouble)
  | literalLines => exact string_onLines .single (linesAre_literal h.1 h.2 hsingle)

theorem string_writeString (s : String) (hr : ∀ q e, Quote q e → rest.head? ≠ some q) :
    string (writeString s ++ rest) = some (s, rest) := by
  rw [writeString, string_writeStyled (StringStyle.suits_of _) hr, String.ofList_toList]

/-- A written string begins with a quote. -/
theorem writeString_head (s : String) : ∃ q e cs, Quote q e ∧ writeString s = q :: cs := by
  unfold writeString writeStyled
  split
  · exact ⟨_, _, _, .double, rfl⟩
  · exact ⟨_, _, _, .single, rfl⟩
  · exact ⟨_, _, _, .double, rfl⟩
  · exact ⟨_, _, _, .single, rfl⟩

end UnitLoading.Toml
