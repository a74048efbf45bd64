import EdgeLLM.Ports.JsonScannerStates

/-!
# Inside strings and numbers

The sub-states of a string and of a number against the productions of the
grammar: what may follow each character of a token, and that the scanner moves
so.
-/

namespace EdgeLLM.Ports.ToolCalling

open Computability
open Verified.Residual Verified.JsonGrammar

namespace JsonScanner

section Tokens

variable {s : JsonScanner} {c : Char}

theorem after_unescaped_of (h : ' ' ≤ c ∧ c ≠ '"' ∧ c ≠ '\\') : after c unescaped = 1 :=
  after_letter_of (P := fun c => ' ' ≤ c ∧ c ≠ '"' ∧ c ≠ '\\') h

theorem after_unescaped_not (h : ¬ (' ' ≤ c ∧ c ≠ '"' ∧ c ≠ '\\')) : after c unescaped = 0 :=
  after_letter_not (P := fun c => ' ' ≤ c ∧ c ≠ '"' ∧ c ≠ '\\') h

theorem after_stringTail (c : Char) : after c stringTail =
      (after c unescaped + after c (char '\\' * escaped)) * stringTail + after c (char '"') := by
  rw [stringTail, after_mul_of_nil_mem _ _ (Language.nil_mem_kstar _), after_kstar, after_add,
    mul_assoc]

theorem after_stringTail_backslash : after '\\' stringTail = escaped * stringTail := by
  rw [after_stringTail, after_unescaped_not (by decide), after_char_mul_of, after_char,
    if_neg (by decide), zero_add, add_zero]

theorem after_stringTail_quote : after '"' stringTail = 1 := by
  rw [after_stringTail, after_unescaped_not (by decide), after_char_mul_not (by decide), after_char,
    if_pos rfl, zero_add, zero_mul, zero_add]

theorem after_stringTail_control (hescape : c ≠ '\\') (hquote : c ≠ '"') (hc : c < ' ') :
    after c stringTail = 0 := by
  rw [after_stringTail, after_unescaped_not fun h => absurd h.1 (Char.not_le.2 hc),
    after_char_mul_not hescape, after_char, if_neg hquote, zero_add, zero_mul, zero_add]

theorem after_stringTail_plain (hescape : c ≠ '\\') (hquote : c ≠ '"') (hc : ¬ c < ' ') :
    after c stringTail = stringTail := by
  rw [after_stringTail, after_unescaped_of ⟨Char.not_lt.1 hc, hquote, hescape⟩,
    after_char_mul_not hescape, after_char, if_neg hquote, add_zero, add_zero, one_mul]

theorem after_escaped (hc : c ∈ escapable) :
    after c escaped = if c = 'u' then hexDigit ^ 4 else 1 := by
  unfold escapable at hc
  by_cases hu : c = 'u'
  · rw [hu, escaped]
    simp [-add_eq_sup]
  · simp [hu] at hc
    rw [escaped, after_add, after_char_mul_not hu, after_oneOf, if_pos (by simp [hc]), if_neg hu,
      add_zero]

theorem after_escaped_not (hc : c ∉ escapable) : after c escaped = 0 := by
  unfold escapable at hc
  simp at hc
  rw [escaped, after_add, after_char_mul_not hc.2.2.2.2.2.2.2.2, after_oneOf,
    if_neg (by simp [hc]), add_zero]

@[simp] theorem nil_mem_escaped : ([] ∈ escaped) ↔ False := by
  simp [-add_eq_sup, escaped]

@[simp] theorem nil_mem_stringTail : ([] ∈ stringTail) ↔ False := by
  simp [-add_eq_sup, stringTail]

theorem after_hexDigits (n : Nat) (L : Language Char) : after c (hexDigit ^ (n + 1) * L) =
      if c ∈ "0123456789abcdefABCDEF".toList then hexDigit ^ n * L else 0 := by
  have hnil : [] ∉ hexDigit := by simp [hexDigit]
  have hchar : after c hexDigit = if c ∈ "0123456789abcdefABCDEF".toList then 1 else 0 := by
    rw [hexDigit, after_oneOf]
  rw [pow_succ', mul_assoc, after_mul_of_nil_notMem _ _ hnil, hchar]
  split
  · rw [one_mul]
  · rw [zero_mul]

/-- What follows the closing quote. -/
def afterString (s : JsonScanner) : Language Char :=
  if s.stringIsKey then ws * (char ':' * (ws * (value * closing s.stack)))
  else closing s.stack

theorem pushString_takes (hs : s.state = .inString) (h : s.Shaped) (c : Char) :
    Takes s.rest c (s.pushString c) := by
  have hopen := h.1
  have hshape := h.2
  rw [hs] at hshape
  obtain ⟨hhex, hstack, hkey⟩ := hshape
  have hrest : s.rest = s.stringRest * s.afterString := by
    simp [rest, hopen, hs, afterString]
  rw [hrest]
  unfold pushString
  by_cases hleft : s.hexLeft ≠ 0
  · obtain ⟨n, hn⟩ := Nat.exists_eq_succ_of_ne_zero hleft
    rw [if_pos hleft, stringRest, if_pos hleft, hn, mul_assoc, Nat.succ_eq_add_one]
    by_cases hc : c ∉ "0123456789abcdefABCDEF".toList
    · rw [if_pos hc]
      apply Takes.refuse
      rw [after_hexDigits, if_neg hc]
    · rw [if_neg hc]
      apply Takes.go
      · rw [after_hexDigits, if_pos (not_not.1 hc)]
        by_cases hzero : n = 0
        · simp [rest, hopen, hs, stringRest, afterString, hhex hleft, hzero]
        · simp [rest, hopen, hs, stringRest, afterString, hzero, mul_assoc]
      · refine ⟨hopen, ?_⟩
        simp only [hs]
        exact ⟨fun _ => hhex hleft, hstack, hkey⟩
  have hzero : s.hexLeft = 0 := not_not.1 hleft
  rw [if_neg hleft, stringRest, if_neg hleft]
  by_cases hescape : s.escape = true
  · rw [if_pos hescape, if_pos hescape]
    by_cases hc : c ∉ escapable
    · rw [if_pos hc]
      apply Takes.refuse
      rw [mul_assoc, after_mul_of_nil_notMem _ _ (by simp), after_escaped_not hc, zero_mul]
    · rw [if_neg hc]
      apply Takes.go
      · rw [mul_assoc, after_mul_of_nil_notMem _ _ (by simp), after_escaped (not_not.1 hc)]
        by_cases hu : c = 'u'
        · simp [rest, hopen, hs, stringRest, afterString, hu, mul_assoc]
        · simp [rest, hopen, hs, stringRest, afterString, hu, hzero]
      · refine ⟨hopen, ?_⟩
        simp only [hs]
        exact ⟨fun _ => trivial, hstack, hkey⟩
  rw [if_neg hescape, if_neg hescape]
  have hnil : [] ∉ stringTail := by simp
  by_cases hbackslash : c = '\\'
  · rw [if_pos hbackslash, hbackslash]
    apply Takes.go
    · rw [after_mul_of_nil_notMem _ _ hnil, after_stringTail_backslash]
      simp [rest, hopen, hs, stringRest, afterString, hzero]
    · refine ⟨hopen, ?_⟩
      simp only [hs]
      exact ⟨fun hno => absurd hzero hno, hstack, hkey⟩
  rw [if_neg hbackslash]
  by_cases hquote : c = '"'
  · rw [if_pos hquote, hquote]
    have hidle : s.Idle := ⟨Bool.eq_false_iff.2 hescape, hzero⟩
    apply Takes.go
    · rw [after_mul_of_nil_notMem _ _ hnil, after_stringTail_quote, one_mul, afterString]
      cases hk : s.stringIsKey <;> simp [rest, hopen]
    · refine ⟨hopen, ?_⟩
      cases hk : s.stringIsKey with
      | true => exact ⟨hidle, hkey hk⟩
      | false => exact ⟨hidle, hstack⟩
  rw [if_neg hquote]
  by_cases hcontrol : c < ' '
  · rw [if_pos hcontrol]
    apply Takes.refuse
    rw [after_mul_of_nil_notMem _ _ hnil, after_stringTail_control hbackslash hquote hcontrol,
      zero_mul]
  · rw [if_neg hcontrol]
    apply Takes.go
    · rw [after_mul_of_nil_notMem _ _ hnil, after_stringTail_plain hbackslash hquote hcontrol,
        hrest, stringRest, if_neg hleft, if_neg hescape]
    · exact h

end Tokens

end JsonScanner

section Numbers

variable {c : Char}

theorem isDigit_iff : isDigit c = true ↔ c ∈ "0123456789".toList := by
  simp [isDigit]

theorem isDigit_cases (h : isDigit c = true) : c = '0' ∨ c ∈ "123456789".toList := by
  simpa [isDigit] using h

/-- A digit is no other character of a number, and ends none. -/
theorem digit_apart (h : isDigit c = true) : c ≠ '.' ∧ c ∉ "eE".toList ∧ c ∉ "+-".toList := by
  simp [isDigit] at h
  rcases h with rfl | rfl | rfl | rfl | rfl | rfl | rfl | rfl | rfl | rfl <;> decide

/-- A character that ends a number is none of its characters. -/
theorem terminator_apart (h : c ∈ jsonWs ∨ c ∈ ",\x7d]".toList) :
    isDigit c = false ∧ c ≠ '.' ∧ c ∉ "eE".toList ∧ c ∉ "+-".toList := by
  simp [jsonWs] at h
  rcases h with (rfl | rfl | rfl | rfl) | rfl | rfl | rfl <;> decide

theorem after_digit (c : Char) : after c digit = if isDigit c then 1 else 0 := by
  rw [digit, after_oneOf]
  exact if_congr isDigit_iff.symm rfl rfl

@[simp] theorem nil_mem_digit : ([] ∈ digit) ↔ False := nil_mem_oneOf _

@[simp] theorem nil_mem_digits : ([] ∈ digits) ↔ False := by
  simp [digits]

@[simp] theorem nil_mem_exponent : [] ∈ exponent := nil_mem_opt

@[simp] theorem nil_mem_fraction : [] ∈ fraction := nil_mem_mul.2 ⟨nil_mem_opt, nil_mem_exponent⟩

theorem after_digitStar (c : Char) : after c digit∗ = if isDigit c then digit∗ else 0 := by
  rw [after_kstar, after_digit]
  split
  · rw [one_mul]
  · rw [zero_mul]

theorem after_digits (c : Char) : after c digits = if isDigit c then digit∗ else 0 := by
  rw [digits, after_mul_of_nil_notMem _ _ (by simp), after_digit]
  split
  · rw [one_mul]
  · rw [zero_mul]

theorem after_exponent (c : Char) :
    after c exponent = if c ∈ "eE".toList then opt (oneOf "+-") * digits else 0 := by
  rw [exponent, after_opt, after_mul_of_nil_notMem _ _ (nil_mem_oneOf _).1, after_oneOf]
  split
  · rw [one_mul]
  · rw [zero_mul]

theorem after_fraction (c : Char) :
    after c fraction = if c = '.' then digits * exponent else after c exponent := by
  rw [fraction, after_mul_of_nil_mem _ _ nil_mem_opt, after_opt]
  split
  · next hc =>
      rw [hc, after_char_mul_of, after_exponent, if_neg (by decide), add_zero]
  · next hc => rw [after_char_mul_not hc, zero_mul, zero_add]

theorem after_sign (c : Char) :
    after c (opt (oneOf "+-") * digits) = if c ∈ "+-".toList then digits else after c digits := by
  rw [after_mul_of_nil_mem _ _ nil_mem_opt, after_opt, after_oneOf]
  split
  · next hc =>
      have hno : isDigit c = false := by
        simp at hc
        rcases hc with rfl | rfl <;> decide
      rw [after_digits, hno, one_mul]
      simp
  · rw [zero_mul, zero_add]

theorem after_int_fraction (c : Char) : after c (Verified.JsonGrammar.int * fraction) =
      if isDigit c then (if c = '0' then fraction else digit∗ * fraction) else 0 := by
  have hnil : [] ∉ Verified.JsonGrammar.int := by simp [-add_eq_sup, Verified.JsonGrammar.int]
  rw [after_mul_of_nil_notMem _ _ hnil, Verified.JsonGrammar.int, after_add,
    after_mul_of_nil_notMem _ _ (nil_mem_oneOf _).1, after_char, after_oneOf]
  by_cases hdigit : isDigit c = true
  · rw [if_pos hdigit]
    by_cases hzero : c = '0'
    · rw [hzero]
      simp [-add_eq_sup]
    · have hmem := (isDigit_cases hdigit).resolve_left hzero
      rw [if_neg hzero, if_pos hmem, if_neg hzero, one_mul, zero_add]
  · have hnot := mt isDigit_iff.2 hdigit
    simp at hnot
    rw [if_neg hnot.1, if_neg (by simp [hnot]), if_neg hdigit, zero_mul, zero_add, zero_mul]

theorem alive_digit : Alive digit := alive_letter '0' (by decide)

theorem alive_digits : Alive digits := alive_digit.mul alive_kstar

theorem NumState.alive_rest {n : NumState} (h : n ≠ .unset) : Alive n.rest := by
  have hint : Alive Verified.JsonGrammar.int := (alive_char '0').add_left
  have hfraction : Alive fraction := Alive.of_nil nil_mem_fraction
  have hexponent : Alive exponent := Alive.of_nil nil_mem_exponent
  cases n with
  | unset => exact absurd rfl h
  | intStart => exact hint.mul hfraction
  | intZero => exact hfraction
  | int => exact alive_kstar.mul hfraction
  | fracStart => exact alive_digits.mul hexponent
  | frac => exact alive_kstar.mul hexponent
  | expStart => exact (Alive.of_nil nil_mem_opt).mul alive_digits
  | expSign => exact alive_digits
  | exp => exact alive_kstar

theorem NumState.nil_mem_rest (n : NumState) :
    [] ∈ n.rest ↔ n ∈ [NumState.intZero, .int, .frac, .exp] := by
  cases n <;> simp [-add_eq_sup, NumState.rest, Verified.JsonGrammar.int, Language.nil_mem_kstar]

/-- The sub-state after a character of a number. -/
def NumState.next (n : NumState) (c : Char) : Option NumState :=
  match n with
  | .unset => none
  | .intStart => if isDigit c then some (if c = '0' then .intZero else .int) else none
  | .intZero =>
    if c = '.' then some .fracStart else if c ∈ "eE".toList then some .expStart else none
  | .int =>
    if c = '.' then some .fracStart
    else if c ∈ "eE".toList then some .expStart
    else if isDigit c then some .int
    else none
  | .fracStart => if isDigit c then some .frac else none
  | .frac =>
    if isDigit c then some .frac else if c ∈ "eE".toList then some .expStart else none
  | .expStart =>
    if c ∈ "+-".toList then some .expSign else if isDigit c then some .exp else none
  | .expSign | .exp => if isDigit c then some .exp else none

theorem NumState.next_terminator (n : NumState) (h : c ∈ jsonWs ∨ c ∈ ",\x7d]".toList) :
    n.next c = none := by
  obtain ⟨hdigit, hdot, he, hsign⟩ := terminator_apart h
  cases n <;> simp only [NumState.next, hdigit, hdot, he, hsign, if_false, Bool.false_eq_true]

theorem after_digitStar_mul (c : Char) (L : Language Char) :
    after c (digit∗ * L) = if isDigit c then digit∗ * L + after c L else after c L := by
  rw [after_mul_of_nil_mem _ _ (Language.nil_mem_kstar _), after_digitStar]
  split
  · rfl
  · rw [zero_mul, zero_add]

theorem NumState.after_rest (n : NumState) (c : Char) :
    after c n.rest = (n.next c).elim 0 NumState.rest := by
  cases n with
  | unset => rfl
  | intStart =>
    rw [NumState.rest, after_int_fraction, NumState.next]
    split
    · split <;> rfl
    · rfl
  | intZero =>
    rw [NumState.rest, after_fraction, after_exponent, NumState.next]
    split
    · rfl
    · split <;> rfl
  | int =>
    rw [NumState.rest, after_digitStar_mul, after_fraction, after_exponent, NumState.next]
    by_cases hdigit : isDigit c = true
    · obtain ⟨hdot, he, -⟩ := digit_apart hdigit
      rw [if_pos hdigit, if_neg hdot, if_neg he, if_neg hdot, if_neg he, if_pos hdigit, add_zero]
      rfl
    · rw [if_neg hdigit, if_neg hdigit]
      split
      · rfl
      · split <;> rfl
  | fracStart =>
    rw [NumState.rest, after_mul_of_nil_notMem _ _ (by simp), after_digits, NumState.next]
    split
    · rfl
    · exact zero_mul _
  | frac =>
    rw [NumState.rest, after_digitStar_mul, after_exponent, NumState.next]
    by_cases hdigit : isDigit c = true
    · rw [if_pos hdigit, if_pos hdigit, if_neg (digit_apart hdigit).2.1, add_zero]
      rfl
    · rw [if_neg hdigit, if_neg hdigit]
      split <;> rfl
  | expStart =>
    rw [NumState.rest, after_sign, after_digits, NumState.next]
    split
    · rfl
    · split <;> rfl
  | expSign =>
    rw [NumState.rest, after_digits, NumState.next]
    split <;> rfl
  | exp =>
    rw [NumState.rest, after_digitStar, NumState.next]
    split <;> rfl

end Numbers

namespace JsonScanner

section Numbers

variable {c : Char} {s : JsonScanner}

/-- Inside a number, `_push_number` moves the sub-state. -/
theorem pushNumber_eq (hnum : s.numState ≠ .unset) (hc : ¬ (c ∈ jsonWs ∨ c ∈ ",\x7d]".toList)) :
    (∀ n, s.numState.next c = some n → s.pushNumber c = ({ s with numState := n }, .ok)) ∧
      (s.numState.next c = none → (s.pushNumber c).2 = .error) := by
  unfold pushNumber
  rw [if_neg hc]
  cases hn : s.numState with
  | unset => exact absurd hn hnum
  | int =>
    have hself : ({ s with numState := .int } : JsonScanner) = s := by rw [← hn]
    simp only [NumState.next]
    grind
  | intStart | intZero | fracStart | frac | expStart | expSign | exp =>
    simp only [NumState.next]
    grind

theorem pushNumber_takes (hs : s.state = .inNumber) (h : s.Shaped) (c : Char) :
    Takes s.rest c (s.pushNumber c) := by
  have hopen := h.1
  have hshape := h.2
  rw [hs] at hshape
  obtain ⟨hidle, hstack, hnum⟩ := hshape
  obtain ⟨b, below, hb⟩ := List.exists_cons_of_ne_nil hstack
  have hrest : s.rest = s.numState.rest * closing s.stack := by simp [rest, hopen, hs]
  by_cases hc : c ∈ jsonWs ∨ c ∈ ",\x7d]".toList
  · have hnone : after c s.numState.rest = 0 := by
      rw [NumState.after_rest, NumState.next_terminator _ hc]
      rfl
    unfold pushNumber
    rw [if_pos hc]
    by_cases hend : s.numState ∈ [NumState.intZero, .int, .frac, .exp]
    · -- the number is complete, and the character comes after a value
      rw [if_pos hend]
      have hafter : after c s.rest = after c ({ s with state := .afterValue } : JsonScanner).rest := by
        rw [hrest, after_mul_of_nil_mem _ _ ((NumState.nil_mem_rest _).2 hend), hnone, zero_mul,
          zero_add]
        simp [rest, hopen]
      have htakes := pushStructural_takes (s := { s with state := .afterValue }) (by simp)
        ⟨hopen, hidle, hstack⟩ c
      exact ⟨fun he => hafter.trans (htakes.1 he), fun hne =>
        ⟨hafter.trans (htakes.2 hne).1, (htakes.2 hne).2⟩⟩
    · rw [if_neg hend]
      apply Takes.refuse
      rw [hrest, after_mul_of_nil_notMem _ _ (mt (NumState.nil_mem_rest _).1 hend), hnone, zero_mul]
  · have hclosing : after c (closing s.stack) = 0 := by
      rw [hb]
      have hterm := not_or.1 hc
      simp at hterm
      apply after_closing_other (not_or.1 hc).1 hterm.2.1
      cases b with
      | brace => exact hterm.2.2.1
      | bracket => exact hterm.2.2.2
    have hafter : after c s.rest = after c s.numState.rest * closing s.stack := by
      rw [hrest]
      by_cases hnil : [] ∈ s.numState.rest
      · rw [after_mul_of_nil_mem _ _ hnil, hclosing, add_zero]
      · rw [after_mul_of_nil_notMem _ _ hnil]
    have hpush := pushNumber_eq hnum hc
    rw [NumState.after_rest] at hafter
    cases hnext : s.numState.next c with
    | none =>
      rw [hnext] at hafter
      have herror := hpush.2 hnext
      refine ⟨fun _ => hafter.trans (zero_mul _), fun hne => absurd herror hne⟩
    | some n =>
      rw [hnext] at hafter
      rw [hpush.1 n hnext]
      apply Takes.go
      · rw [hafter]
        simp [rest, hopen, hs]
      · refine ⟨hopen, ?_⟩
        simp only [hs]
        refine ⟨hidle, hstack, ?_⟩
        intro hunset
        rw [hunset] at hnext
        unfold NumState.next at hnext
        grind

end Numbers

end JsonScanner

end EdgeLLM.Ports.ToolCalling
