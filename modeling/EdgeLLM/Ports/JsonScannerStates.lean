import EdgeLLM.Ports.JsonScanner
import EdgeLLM.Verified.JsonGrammar

/-!
# What a scanner state stands for

A state of the argument scanner stands for the texts that may still come
(`rest`): a continuation of the token that is being read, then, for each open
container, its remaining items and its closing character. The structural
characters move the scanner between these sets of texts.
-/

namespace EdgeLLM.Ports.ToolCalling

open Computability
open Verified.Residual Verified.JsonGrammar

def Bracket.closer : Bracket → Char
  | .brace => '}'
  | .bracket => ']'

/-- What a comma announces. -/
def Bracket.items : Bracket → Language Char
  | .brace => members
  | .bracket => elements

/-- What may follow a value inside the open containers. -/
def closing : List Bracket → Language Char
  | [] => 1
  | b :: below => ws * ((1 + char ',' * b.items) * (char b.closer * closing below))

/-- The value that `value` stands for: a container when nothing is open. -/
def startable (stack : List Bracket) : Language Char :=
  if stack = [] then container else value

def NumState.rest : NumState → Language Char
  | .unset => 0
  | .intStart => Verified.JsonGrammar.int * fraction
  | .intZero => fraction
  | .int => digit∗ * fraction
  | .fracStart => digits * exponent
  | .frac => digit∗ * exponent
  | .expStart => opt (oneOf "+-") * digits
  | .expSign => digits
  | .exp => digit∗

namespace JsonScanner

def stringRest (s : JsonScanner) : Language Char :=
  if s.hexLeft ≠ 0 then hexDigit ^ s.hexLeft * stringTail
  else if s.escape then escaped * stringTail
  else stringTail

/-- The texts that may still come. -/
def rest (s : JsonScanner) : Language Char :=
  if s.done then 1
  else
    match s.state with
    | .value => ws * (startable s.stack * closing s.stack)
    | .arrayFirst => (ws + elements) * (char ']' * closing s.stack.tail)
    | .keyFirst => (ws + members) * (char '}' * closing s.stack.tail)
    | .keyRequired => members * (char '}' * closing s.stack.tail)
    | .colon => ws * (char ':' * (ws * (value * closing s.stack)))
    | .afterValue => closing s.stack
    | .inString =>
      s.stringRest *
        if s.stringIsKey then ws * (char ':' * (ws * (value * closing s.stack)))
        else closing s.stack
    | .inNumber => s.numState.rest * closing s.stack
    | .inLiteral => text (s.literal.drop s.literalPos) * closing s.stack

/-- No string is half read. -/
def Idle (s : JsonScanner) : Prop := s.escape = false ∧ s.hexLeft = 0

/-- What each state is entered with. -/
def Shaped (s : JsonScanner) : Prop :=
  s.done = false ∧
    match s.state with
    | .value => s.Idle
    | .arrayFirst => s.Idle ∧ ∃ below, s.stack = .bracket :: below
    | .keyFirst | .keyRequired | .colon => s.Idle ∧ ∃ below, s.stack = .brace :: below
    | .afterValue => s.Idle ∧ s.stack ≠ []
    | .inString =>
      (s.hexLeft ≠ 0 → s.escape = false) ∧ s.stack ≠ [] ∧
        (s.stringIsKey = true → ∃ below, s.stack = .brace :: below)
    | .inNumber => s.Idle ∧ s.stack ≠ [] ∧ s.numState ≠ .unset
    | .inLiteral => s.Idle ∧ s.stack ≠ [] ∧ s.literalPos < s.literal.length

/-- `r` answers `c` as the texts of `L` demand. -/
def Takes (L : Language Char) (c : Char) (r : JsonScanner × Verdict) : Prop :=
  (r.2 = .error → after c L = 0) ∧
    (r.2 ≠ .error → after c L = r.1.rest ∧ (r.1.done = true ↔ r.2 = .done) ∧
      (r.1.done = false → r.1.Shaped))

theorem Takes.refuse {L : Language Char} {c : Char} {s : JsonScanner} (h : after c L = 0) :
    Takes L c (s, .error) :=
  ⟨fun _ => h, fun hne => absurd rfl hne⟩

theorem Takes.go {L : Language Char} {c : Char} {s : JsonScanner} (h : after c L = s.rest)
    (hs : s.Shaped) : Takes L c (s, .ok) :=
  ⟨fun he => Verdict.noConfusion he, fun _ => ⟨h, by simp [hs.1], fun _ => hs⟩⟩

section Confirm

variable (s : JsonScanner)

@[simp] theorem confirm_done : s.confirm.done = s.done := by
  unfold confirm; split <;> rfl

@[simp] theorem confirm_escape : s.confirm.escape = s.escape := by
  unfold confirm; split <;> rfl

@[simp] theorem confirm_hexLeft : s.confirm.hexLeft = s.hexLeft := by
  unfold confirm; split <;> rfl

@[simp] theorem confirm_stack : s.confirm.stack = s.stack := by
  unfold confirm; split <;> rfl

end Confirm

section Closing

variable {c : Char} {b : Bracket} {below : List Bracket}

theorem closer_notMem_ws (b : Bracket) : b.closer ∉ " \t\n\r".toList := by
  cases b <;> decide

theorem after_closing (h : c ∉ " \t\n\r".toList) : after c (closing (b :: below)) =
      after c (char ',' * b.items) * (char b.closer * closing below) +
        after c (char b.closer * closing below) := by
  have hone : [] ∈ 1 + char ',' * b.items := Or.inl rfl
  rw [closing, after_ws_mul_not h, after_mul_of_nil_mem c _ hone, after_add, after_one, zero_add]

theorem after_closing_ws (h : c ∈ " \t\n\r".toList) :
    after c (closing (b :: below)) = closing (b :: below) := by
  rw [closing]
  apply after_ws_mul h
  have hone : [] ∈ 1 + char ',' * b.items := Or.inl rfl
  have hcomma : c ≠ ',' := by
    intro hc
    rw [hc] at h
    exact absurd h (by decide)
  have hcloser : c ≠ b.closer := by
    intro hc
    rw [hc] at h
    exact closer_notMem_ws b h
  rw [after_mul_of_nil_mem c _ hone, after_add, after_one, after_char_mul_not hcomma,
    after_char_mul_not hcloser]
  simp

theorem after_closing_comma :
    after ',' (closing (b :: below)) = b.items * (char b.closer * closing below) := by
  have hcloser : ',' ≠ b.closer := by cases b <;> decide
  rw [after_closing (by decide), after_char_mul_of, after_char_mul_not hcloser, add_zero]

theorem after_closing_closer : after b.closer (closing (b :: below)) = closing below := by
  have hcomma : b.closer ≠ ',' := by cases b <;> decide
  rw [after_closing (closer_notMem_ws b), after_char_mul_not hcomma, after_char_mul_of, zero_mul,
    zero_add]

theorem after_closing_other (hws : c ∉ " \t\n\r".toList) (hcomma : c ≠ ',')
    (hcloser : c ≠ b.closer) : after c (closing (b :: below)) = 0 := by
  rw [after_closing hws, after_char_mul_not hcomma, after_char_mul_not hcloser, zero_mul, add_zero]

@[simp] theorem nil_mem_closing : ([] ∈ closing (b :: below)) ↔ False := by
  rw [closing]
  simp [-add_eq_sup]

theorem alive_closing (stack : List Bracket) : Alive (closing stack) := by
  induction stack with
  | nil => exact Alive.of_nil rfl
  | cons b below ih =>
    apply alive_ws.mul
    apply (Alive.of_nil (Or.inl rfl)).mul
    exact (alive_char _).mul ih

variable {s : JsonScanner} {L : Language Char} (stack : List Bracket)

theorem close_takes (hs : s.done = false) (hidle : s.Idle) (hstack : s.stack = b :: below)
    (hL : after c L = closing below) : Takes L c (s.close b) := by
  unfold close
  rw [hstack]
  by_cases hbelow : below = []
  · simp only [ne_eq, not_true_eq_false, if_false, hbelow, if_true]
    refine ⟨fun he => Verdict.noConfusion he, fun _ => ⟨?_, by simp, by simp⟩⟩
    rw [hL, hbelow]
    rfl
  · simp only [ne_eq, not_true_eq_false, if_false, hbelow]
    apply Takes.go
    · rw [hL]
      simp [rest, hs]
    · exact ⟨hs, hidle, hbelow⟩

theorem close_refuses {other : Bracket} (hstack : s.stack = b :: below) (hne : b ≠ other)
    (hL : after c L = 0) : Takes L c (s.close other) := by
  unfold close
  rw [hstack]
  simp only [ne_eq, hne, not_false_eq_true, if_true]
  exact Takes.refuse hL

theorem after_container_other (hbrace : c ≠ '{') (hbracket : c ≠ '[') : after c container = 0 := by
  rw [container, after_add, object_eq, array_eq, after_char_mul_not hbrace,
    after_char_mul_not hbracket, add_zero]

theorem after_startable_brace : after '{' (startable stack) = (ws + members) * char '}' := by
  unfold startable
  split
  · rw [container, after_add, object_eq, array_eq, after_char_mul_of,
      after_char_mul_not (by decide), add_zero]
  · exact after_value_brace

theorem after_startable_bracket : after '[' (startable stack) = (ws + elements) * char ']' := by
  unfold startable
  split
  · rw [container, after_add, object_eq, array_eq, after_char_mul_of,
      after_char_mul_not (by decide), zero_add]
  · exact after_value_bracket

theorem nil_notMem_startable : [] ∉ startable stack := by
  unfold startable
  split
  · simp
  · simp

theorem after_startable_ws (hc : c ∈ " \t\n\r".toList) (stack : List Bracket) :
    after c (startable stack) = 0 := by
  unfold startable
  split
  · apply after_container_other
    · intro hb
      rw [hb] at hc
      exact absurd hc (by decide)
    · intro hb
      rw [hb] at hc
      exact absurd hc (by decide)
  · exact after_value_ws hc

/-- What follows the first character of a number. -/
theorem after_value_number (h : c ∈ "-0123456789".toList) : after c value =
      (if c = '-' then NumState.intStart else if c = '0' then .intZero else .int).rest := by
  by_cases hminus : c = '-'
  · rw [hminus, if_pos rfl]
    exact after_value_minus
  · rw [if_neg hminus]
    by_cases hzero : c = '0'
    · rw [hzero, if_pos rfl]
      exact after_value_zero
    · rw [if_neg hzero]
      apply after_value_digit
      simp [hminus, hzero] at h
      simp [h]

theorem literals_eq_some {w : List Char} (h : literals c = some w) :
    after c value = text (w.drop 1) ∧ 1 < w.length := by
  unfold literals at h
  split at h
  · next hc =>
      cases h
      rw [hc]
      exact ⟨after_value_letters.1, by decide⟩
  split at h
  · next hc =>
      cases h
      rw [hc]
      exact ⟨after_value_letters.2.1, by decide⟩
  split at h
  · next hc =>
      cases h
      rw [hc]
      exact ⟨after_value_letters.2.2, by decide⟩
  · cases h

theorem literals_eq_none (h : literals c = none) : c ≠ 't' ∧ c ≠ 'f' ∧ c ≠ 'n' := by
  unfold literals at h
  grind

theorem startValue_takes (hs : s.done = false) (hidle : s.Idle)
    (hL : after c L = after c (startable s.stack) * closing s.stack) :
    Takes L c (s.startValue c) := by
  unfold startValue
  by_cases hbrace : c = '{'
  · rw [if_pos hbrace]
    apply Takes.go
    · rw [hL, hbrace, after_startable_brace, mul_assoc]
      simp [rest, hs]
    · exact ⟨by simp [hs], by simpa [Idle] using hidle, s.stack, rfl⟩
  rw [if_neg hbrace]
  by_cases hbracket : c = '['
  · rw [if_pos hbracket]
    apply Takes.go
    · rw [hL, hbracket, after_startable_bracket, mul_assoc]
      simp [rest, hs]
    · exact ⟨by simp [hs], by simpa [Idle] using hidle, s.stack, rfl⟩
  rw [if_neg hbracket]
  by_cases hstack : s.stack = []
  · rw [if_pos hstack]
    apply Takes.refuse
    rw [hL, startable, if_pos hstack, after_container_other hbrace hbracket, zero_mul]
  have hvalue : after c L = after c value * closing s.stack := by
    rw [hL, startable, if_neg hstack]
  rw [if_neg hstack]
  by_cases hquote : c = '"'
  · rw [if_pos hquote]
    apply Takes.go
    · rw [hvalue, hquote, after_value_quote]
      simp [rest, hs, stringRest, hidle.1, hidle.2]
    · refine ⟨by simp [hs], ?_⟩
      simp [hidle.1, hstack]
  rw [if_neg hquote]
  by_cases hnumber : c ∈ "-0123456789".toList
  · rw [if_pos hnumber]
    apply Takes.go
    · rw [hvalue, after_value_number hnumber]
      simp [rest, hs]
    · refine ⟨by simp [hs], by simpa [Idle] using hidle, by simpa using hstack, ?_⟩
      show (if c = '-' then NumState.intStart else if c = '0' then .intZero else .int) ≠ .unset
      split
      · decide
      · split <;> decide
  rw [if_neg hnumber]
  cases hliteral : literals c with
  | some w =>
    have hw := literals_eq_some hliteral
    apply Takes.go
    · rw [hvalue, hw.1]
      simp [rest, hs]
    · exact ⟨by simp [hs], by simpa [Idle] using hidle, by simpa using hstack, hw.2⟩
  | none =>
    apply Takes.refuse
    have hno := literals_eq_none hliteral
    rw [hvalue, after_value_other, zero_mul]
    simp at hnumber ⊢
    simp [hbrace, hbracket, hquote, hno, hnumber]

/-- Whitespace leaves the state, and what it stands for, alone. -/
theorem structural_ws (hstate : s.state ∉ [.inString, .inNumber, .inLiteral]) (h : s.Shaped)
    (hc : c ∈ jsonWs) : after c s.rest = s.rest := by
  have hnot : ∀ d, d ∉ " \t\n\r".toList → c ≠ d := by
    intro d hd hcd
    exact hd (hcd ▸ hc)
  have hkeys : ∀ L, after c ((ws + members) * (char '}' * L)) =
      (ws + members) * (char '}' * L) := by
    intro L
    rw [after_mul_of_nil_mem c _ (Or.inl nil_mem_ws), after_add, after_ws_of hc,
      after_members_ws hc, after_char_mul_not (hnot _ (by decide)), add_zero]
  have hitems : ∀ L, after c ((ws + elements) * (char ']' * L)) =
      (ws + elements) * (char ']' * L) := by
    intro L
    rw [after_mul_of_nil_mem c _ (Or.inl nil_mem_ws), after_add, after_ws_of hc,
      after_elements_ws hc, after_char_mul_not (hnot _ (by decide)), add_zero]
  unfold rest
  rw [h.1, if_neg Bool.false_ne_true]
  obtain ⟨-, hshape⟩ := h
  cases hs : s.state with
  | value =>
    apply after_ws_mul hc
    rw [after_mul_of_nil_notMem c _ (nil_notMem_startable _), after_startable_ws hc, zero_mul]
  | arrayFirst => exact hitems _
  | keyFirst => exact hkeys _
  | keyRequired =>
    simp only
    rw [after_mul_of_nil_notMem c _ (by simp), after_members_ws hc]
  | colon =>
    apply after_ws_mul hc
    exact after_char_mul_not (hnot _ (by decide))
  | afterValue =>
    rw [hs] at hshape
    obtain ⟨b, below, hb⟩ := List.exists_cons_of_ne_nil hshape.2
    simp only
    rw [hb]
    exact after_closing_ws hc
  | inString => simp [hs] at hstate
  | inNumber => simp [hs] at hstate
  | inLiteral => simp [hs] at hstate

/-- What a member starts with, before what closes its object. -/
theorem after_members_quote (L : Language Char) : after '"' (members * (char '}' * L)) =
      stringTail * (ws * (char ':' * (ws * (value *
        (ws * ((1 + char ',' * members) * (char '}' * L))))))) := by
  rw [after_mul_of_nil_notMem _ _ (by simp), members_unfold, after_ws_mul_not (by decide),
    after_char_mul_of, ← members_unfold, memberTail]
  simp only [mul_assoc]

theorem after_members_other (hws : c ∉ " \t\n\r".toList) (hquote : c ≠ '"') :
    after c members = 0 := by
  rw [members_unfold, after_ws_mul_not hws, after_char_mul_not hquote]

theorem after_elements (hws : c ∉ " \t\n\r".toList) (L : Language Char) :
    after c (elements * (char ']' * L)) =
      after c value * (ws * ((1 + char ',' * elements) * (char ']' * L))) := by
  rw [after_mul_of_nil_notMem _ _ (by simp), elements_unfold, after_ws_mul_not hws,
    after_mul_of_nil_notMem _ _ (by simp), ← elements_unfold]
  simp only [mul_assoc]

theorem key_takes (h : s.done = false) (hidle : s.Idle) {below : List Bracket}
    (hstack : s.stack = .brace :: below) {L : Language Char}
    (hL : after '"' L = after '"' (members * (char '}' * closing below))) :
    Takes L '"' ({ s with state := .inString, stringIsKey := true }, .ok) := by
  apply Takes.go
  · rw [hL, after_members_quote]
    simp [rest, h, stringRest, hidle.1, hidle.2, hstack, closing, Bracket.items, Bracket.closer]
  · refine ⟨h, ?_⟩
    simp [hidle.1, hstack]

theorem keyFirst_rest (h : s.done = false) (hs : s.state = .keyFirst) {below : List Bracket}
    (hstack : s.stack = .brace :: below) :
    s.rest = (ws + members) * (char '}' * closing below) := by
  simp [rest, h, hs, hstack]

theorem arrayFirst_rest (h : s.done = false) (hs : s.state = .arrayFirst) {below : List Bracket}
    (hstack : s.stack = .bracket :: below) :
    s.rest = (ws + elements) * (char ']' * closing below) := by
  simp [rest, h, hs, hstack]

/-- Before the first item of a container: its closing character, or an item. -/
theorem after_first {items : Language Char} {e : Char} {L : Language Char}
    (hws : c ∉ " \t\n\r".toList) (hitems : [] ∉ items) : after c ((ws + items) * (char e * L)) =
      after c (items * (char e * L)) + after c (char e * L) := by
  rw [after_mul_of_nil_mem c _ (Or.inl nil_mem_ws), after_add, after_ws_not hws, zero_add,
    after_mul_of_nil_notMem c _ hitems]

theorem afterValue_takes (h : s.done = false) (hidle : s.Idle) (hs : s.state = .afterValue)
    (hstack : s.stack ≠ []) (hc : c ∉ jsonWs) : Takes s.rest c (s.pushStructural c) := by
  obtain ⟨b, below, hb⟩ := List.exists_cons_of_ne_nil hstack
  have hrest : s.rest = closing (b :: below) := by simp [rest, h, hs, hb]
  rw [hrest]
  unfold pushStructural
  rw [if_neg hc, hs]
  simp only
  by_cases hcomma : c = ','
  · rw [if_pos hcomma, hcomma]
    apply Takes.go
    · rw [after_closing_comma]
      cases b with
      | brace => simp [rest, h, hb, Bracket.items, Bracket.closer]
      | bracket =>
        have helements : elements * (char ']' * closing below) =
            ws * (value * closing (.bracket :: below)) := by
          conv_lhs => rw [elements_unfold]
          simp only [closing, mul_assoc, Bracket.items, Bracket.closer]
        simpa [rest, h, hb, Bracket.items, Bracket.closer, startable] using helements
    · cases b with
      | brace => exact ⟨h, by simp [hb]; exact hidle⟩
      | bracket => exact ⟨h, by simp [hb]; exact hidle⟩
  rw [if_neg hcomma]
  have hclose : ∀ other : Bracket, c = other.closer → Takes (closing (b :: below)) c
      (s.close other) := by
    intro other hother
    by_cases hbo : b = other
    · rw [← hbo]
      apply close_takes h hidle hb
      rw [hother, ← hbo]
      exact after_closing_closer
    · apply close_refuses hb hbo
      apply after_closing_other hc hcomma
      rw [hother]
      intro heq
      apply hbo
      cases b <;> cases other <;> first | rfl | exact absurd heq (by decide)
  by_cases hbrace : c = '}'
  · rw [if_pos hbrace]
    exact hclose .brace hbrace
  rw [if_neg hbrace]
  by_cases hbracket : c = ']'
  · rw [if_pos hbracket]
    exact hclose .bracket hbracket
  rw [if_neg hbracket]
  apply Takes.refuse
  apply after_closing_other hc hcomma
  cases b with
  | brace => exact hbrace
  | bracket => exact hbracket

theorem pushStructural_takes (hstate : s.state ∉ [.inString, .inNumber, .inLiteral])
    (h : s.Shaped) (c : Char) : Takes s.rest c (s.pushStructural c) := by
  by_cases hc : c ∈ jsonWs
  · have hpush : s.pushStructural c = (s, .ok) := by
      unfold pushStructural
      rw [if_pos hc]
    rw [hpush]
    exact Takes.go (structural_ws hstate h hc) h
  have hopen := h.1
  have hshape := h.2
  cases hs : s.state with
  | value =>
    rw [hs] at hshape
    unfold pushStructural
    rw [if_neg hc, hs]
    apply startValue_takes hopen hshape
    simp only [rest, hopen, hs, Bool.false_eq_true, if_false]
    rw [after_ws_mul_not hc, after_mul_of_nil_notMem c _ (nil_notMem_startable _)]
  | arrayFirst =>
    rw [hs] at hshape
    obtain ⟨hidle, below, hb⟩ := hshape
    have hafter := after_first (L := closing below) (e := ']') hc
      (show [] ∉ elements by simp)
    rw [after_elements hc] at hafter
    rw [arrayFirst_rest hopen hs hb]
    unfold pushStructural
    rw [if_neg hc, hs]
    simp only
    by_cases hclose : c = ']'
    · rw [if_pos hclose]
      apply close_takes hopen hidle hb
      rw [hafter, hclose, after_value_other (by decide), after_char_mul_of, zero_mul, zero_add]
    · rw [if_neg hclose]
      apply startValue_takes hopen hidle
      rw [hafter, after_char_mul_not hclose, add_zero, startable, hb, if_neg (List.cons_ne_nil _ _)]
      rfl
  | keyFirst =>
    rw [hs] at hshape
    obtain ⟨hidle, below, hb⟩ := hshape
    have hafter := after_first (L := closing below) (e := '}') hc
      (show [] ∉ members by simp)
    rw [keyFirst_rest hopen hs hb]
    unfold pushStructural
    rw [if_neg hc, hs]
    simp only
    by_cases hquote : c = '"'
    · rw [if_pos hquote, hquote]
      apply key_takes hopen hidle hb
      rw [hquote] at hafter
      rw [hafter, after_char_mul_not (by decide), add_zero]
    rw [if_neg hquote]
    have hno : after c (members * (char '}' * closing below)) = 0 := by
      rw [after_mul_of_nil_notMem c _ (by simp), after_members_other hc hquote, zero_mul]
    rw [hno, zero_add] at hafter
    by_cases hclose : c = '}'
    · rw [if_pos hclose]
      apply close_takes hopen hidle hb
      rw [hafter, hclose, after_char_mul_of]
    · rw [if_neg hclose]
      apply Takes.refuse
      rw [hafter, after_char_mul_not hclose]
  | keyRequired =>
    rw [hs] at hshape
    obtain ⟨hidle, below, hb⟩ := hshape
    have hrest : s.rest = members * (char '}' * closing below) := by
      simp [rest, hopen, hs, hb]
    rw [hrest]
    unfold pushStructural
    rw [if_neg hc, hs]
    simp only
    by_cases hquote : c = '"'
    · rw [if_pos hquote, hquote]
      exact key_takes hopen hidle hb rfl
    · rw [if_neg hquote]
      apply Takes.refuse
      rw [after_mul_of_nil_notMem c _ (by simp), after_members_other hc hquote, zero_mul]
  | colon =>
    rw [hs] at hshape
    obtain ⟨hidle, below, hb⟩ := hshape
    have hrest : s.rest = ws * (char ':' * (ws * (value * closing s.stack))) := by
      simp [rest, hopen, hs]
    rw [hrest]
    unfold pushStructural
    rw [if_neg hc, hs]
    simp only
    by_cases hcolon : c = ':'
    · rw [if_pos hcolon]
      apply Takes.go
      · rw [after_ws_mul_not hc, hcolon, after_char_mul_of]
        simp [rest, hopen, startable, hb]
      · exact ⟨hopen, hidle⟩
    · rw [if_neg hcolon]
      apply Takes.refuse
      rw [after_ws_mul_not hc, after_char_mul_not hcolon]
  | afterValue =>
    rw [hs] at hshape
    exact afterValue_takes hopen hshape.1 hs hshape.2 hc
  | inString => simp [hs] at hstate
  | inNumber => simp [hs] at hstate
  | inLiteral => simp [hs] at hstate

end Closing

end JsonScanner

end EdgeLLM.Ports.ToolCalling
