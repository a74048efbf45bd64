import EdgeLLM.Verified.Residual

/-!
# The JSON grammar

RFC 8259 as languages of characters: whitespace, numbers and strings are
regular, values, objects and arrays are the least relations closed under the
productions. The whitespace that the productions put around a structural
character stands here beside what it separates, so that an object starts at its
`{` and ends with its `}`.

The equations `value_eq`, `members_eq`, `elements_eq` unfold the recursive
languages once, and the `after_*` lemmas say which characters each of them can
start with and what may follow.
-/

namespace EdgeLLM.Verified.JsonGrammar

open Computability Residual

/-- The one character `c`. -/
def char (c : Char) : Language Char := letter (· = c)

/-- One character of `cs`. -/
def oneOf (cs : String) : Language Char := letter (· ∈ cs.toList)

/-- The text `w` itself. -/
def text : List Char → Language Char
  | [] => 1
  | c :: w => char c * text w

/-- `ws = *( %x20 / %x09 / %x0A / %x0D )` -/
def ws : Language Char := (oneOf " \t\n\r")∗

def digit : Language Char := oneOf "0123456789"

/-- `1*DIGIT` -/
def digits : Language Char := digit * digit∗

/-- `int = zero / ( digit1-9 *DIGIT )` -/
def int : Language Char := char '0' + oneOf "123456789" * digit∗

/-- `[ exp ]`, where `exp = e [ minus / plus ] 1*DIGIT` -/
def exponent : Language Char := opt (oneOf "eE" * (opt (oneOf "+-") * digits))

/-- `[ frac ] [ exp ]`, where `frac = decimal-point 1*DIGIT` -/
def fraction : Language Char := opt (char '.' * digits) * exponent

/-- `number = [ minus ] int [ frac ] [ exp ]` -/
def number : Language Char := opt (char '-') * (int * fraction)

def hexDigit : Language Char := oneOf "0123456789abcdefABCDEF"

/-- What follows the `escape` of a `char`. -/
def escaped : Language Char :=
  oneOf "\"\\/bfnrt" + char 'u' * hexDigit ^ 4

/-- `unescaped = %x20-21 / %x23-5B / %x5D-10FFFF` -/
def unescaped : Language Char := letter fun c => ' ' ≤ c ∧ c ≠ '"' ∧ c ≠ '\\'

/-- `*char quotation-mark` -/
def stringTail : Language Char := (unescaped + char '\\' * escaped)∗ * char '"'

/-- `string = quotation-mark *char quotation-mark` -/
def string : Language Char := char '"' * stringTail

/-- `false / null / true` -/
def literal : Language Char :=
  text "false".toList + (text "null".toList + text "true".toList)

mutual

/-- `value = false / null / true / object / array / number / string` -/
inductive IsValue : List Char → Prop
  | literal {w : List Char} (h : w ∈ literal) : IsValue w
  | number {w : List Char} (h : w ∈ number) : IsValue w
  | string {w : List Char} (h : w ∈ string) : IsValue w
  | object {w : List Char} (h : IsObject w) : IsValue w
  | array {w : List Char} (h : IsArray w) : IsValue w

/-- `object = begin-object [ member *( value-separator member ) ] end-object` -/
inductive IsObject : List Char → Prop
  | empty {w : List Char} (h : w ∈ ws) : IsObject ('{' :: (w ++ ['}']))
  | members {w : List Char} (h : IsMembers w) : IsObject ('{' :: (w ++ ['}']))

/-- `member *( value-separator member )`, with the whitespace around it. -/
inductive IsMembers : List Char → Prop
  | one {w : List Char} (h : IsMember w) : IsMembers w
  | more {w v : List Char} (h : IsMember w) (hv : IsMembers v) : IsMembers (w ++ ',' :: v)

/-- `member = string name-separator value` -/
inductive IsMember : List Char → Prop
  | mk {w v u : List Char} (h : w ∈ ws * (string * (ws * (char ':' * ws)))) (hv : IsValue v)
      (hu : u ∈ ws) : IsMember (w ++ (v ++ u))

/-- `array = begin-array [ value *( value-separator value ) ] end-array` -/
inductive IsArray : List Char → Prop
  | empty {w : List Char} (h : w ∈ ws) : IsArray ('[' :: (w ++ [']']))
  | elements {w : List Char} (h : IsElements w) : IsArray ('[' :: (w ++ [']']))

/-- `value *( value-separator value )`, with the whitespace around it. -/
inductive IsElements : List Char → Prop
  | one {w v u : List Char} (h : w ∈ ws) (hv : IsValue v) (hu : u ∈ ws) :
      IsElements (w ++ (v ++ u))
  | more {w v u e : List Char} (h : w ∈ ws) (hv : IsValue v) (hu : u ∈ ws)
      (he : IsElements e) : IsElements (w ++ (v ++ u) ++ ',' :: e)

end

def value : Language Char := {w | IsValue w}
def object : Language Char := {w | IsObject w}
def members : Language Char := {w | IsMembers w}
def member : Language Char := {w | IsMember w}
def array : Language Char := {w | IsArray w}
def elements : Language Char := {w | IsElements w}

/-- An object or an array. -/
def container : Language Char := object + array

variable {c : Char} {w : List Char} {L : Language Char}

theorem mem_char : w ∈ char c ↔ w = [c] := by
  rw [char, mem_letter]
  simp

theorem mem_char_mul : w ∈ char c * L ↔ ∃ v ∈ L, w = c :: v := by
  rw [Language.mem_mul]
  constructor
  · intro h
    obtain ⟨a, ha, b, hb, rfl⟩ := h
    exact ⟨b, hb, by rw [mem_char.1 ha]; rfl⟩
  · intro h
    obtain ⟨v, hv, rfl⟩ := h
    exact ⟨[c], mem_char.2 rfl, v, hv, rfl⟩

theorem mem_mul_char : w ∈ L * char c ↔ ∃ v ∈ L, w = v ++ [c] := by
  rw [Language.mem_mul]
  constructor
  · intro h
    obtain ⟨a, ha, b, hb, rfl⟩ := h
    exact ⟨a, ha, by rw [mem_char.1 hb]⟩
  · intro h
    obtain ⟨v, hv, rfl⟩ := h
    exact ⟨v, hv, [c], mem_char.2 rfl, rfl⟩

theorem value_eq : value = literal + (number + (string + (object + array))) := by
  ext w
  simp only [Language.mem_add]
  constructor
  · intro h
    cases h with
    | literal h => exact Or.inl h
    | number h => exact Or.inr (Or.inl h)
    | string h => exact Or.inr (Or.inr (Or.inl h))
    | object h => exact Or.inr (Or.inr (Or.inr (Or.inl h)))
    | array h => exact Or.inr (Or.inr (Or.inr (Or.inr h)))
  · intro h
    rcases h with h | h | h | h | h
    · exact .literal h
    · exact .number h
    · exact .string h
    · exact .object h
    · exact .array h

/-- What stands between two brackets: whitespace, or `inner`. -/
theorem mem_bracketed {o e : Char} {inner : Language Char} : w ∈ char o * ((ws + inner) * char e) ↔
      (∃ v ∈ ws, w = o :: (v ++ [e])) ∨ ∃ v ∈ inner, w = o :: (v ++ [e]) := by
  rw [mem_char_mul]
  constructor
  · intro h
    obtain ⟨v, hv, rfl⟩ := h
    obtain ⟨u, hu, rfl⟩ := mem_mul_char.1 hv
    rcases (Language.mem_add ws inner u).1 hu with hu | hu
    · exact Or.inl ⟨u, hu, rfl⟩
    · exact Or.inr ⟨u, hu, rfl⟩
  · intro h
    rcases h with h | h
    · obtain ⟨v, hv, rfl⟩ := h
      exact ⟨v ++ [e], mem_mul_char.2 ⟨v, Or.inl hv, rfl⟩, rfl⟩
    · obtain ⟨v, hv, rfl⟩ := h
      exact ⟨v ++ [e], mem_mul_char.2 ⟨v, Or.inr hv, rfl⟩, rfl⟩

theorem object_eq : object = char '{' * ((ws + members) * char '}') := by
  ext w
  rw [mem_bracketed]
  constructor
  · intro h
    cases h with
    | empty h => exact Or.inl ⟨_, h, rfl⟩
    | members h => exact Or.inr ⟨_, h, rfl⟩
  · intro h
    rcases h with h | h
    · obtain ⟨v, hv, rfl⟩ := h
      exact .empty hv
    · obtain ⟨v, hv, rfl⟩ := h
      exact .members hv

theorem array_eq : array = char '[' * ((ws + elements) * char ']') := by
  ext w
  rw [mem_bracketed]
  constructor
  · intro h
    cases h with
    | empty h => exact Or.inl ⟨_, h, rfl⟩
    | elements h => exact Or.inr ⟨_, h, rfl⟩
  · intro h
    rcases h with h | h
    · obtain ⟨v, hv, rfl⟩ := h
      exact .empty hv
    · obtain ⟨v, hv, rfl⟩ := h
      exact .elements hv

theorem member_eq : member = ws * (string * (ws * (char ':' * ws))) * (value * ws) := by
  ext w
  constructor
  · intro h
    cases h with
    | mk h hv hu => exact Language.append_mem_mul h (Language.append_mem_mul hv hu)
  · intro h
    obtain ⟨a, ha, b, hb, rfl⟩ := Language.mem_mul.1 h
    obtain ⟨v, hv, u, hu, rfl⟩ := Language.mem_mul.1 hb
    exact .mk ha hv hu

/-- One item, or an item, a comma and what may follow a comma. -/
theorem mem_separated {item rest : Language Char} : w ∈ item * (1 + char ',' * rest) ↔
      w ∈ item ∨ ∃ a ∈ item, ∃ b ∈ rest, w = a ++ ',' :: b := by
  rw [Language.mem_mul]
  constructor
  · intro h
    obtain ⟨a, ha, b, hb, rfl⟩ := h
    rcases (Language.mem_add 1 (char ',' * rest) b).1 hb with hb | hb
    · rw [(Language.mem_one b).1 hb, List.append_nil]
      exact Or.inl ha
    · obtain ⟨v, hv, rfl⟩ := mem_char_mul.1 hb
      exact Or.inr ⟨a, ha, v, hv, rfl⟩
  · intro h
    rcases h with h | h
    · exact ⟨w, h, [], Or.inl rfl, List.append_nil w⟩
    · obtain ⟨a, ha, b, hb, rfl⟩ := h
      exact ⟨a, ha, ',' :: b, Or.inr (mem_char_mul.2 ⟨b, hb, rfl⟩), rfl⟩

theorem members_eq : members = member * (1 + char ',' * members) := by
  ext w
  rw [mem_separated]
  constructor
  · intro h
    cases h with
    | one h => exact Or.inl h
    | more h hv => exact Or.inr ⟨_, h, _, hv, rfl⟩
  · intro h
    rcases h with h | h
    · exact .one h
    · obtain ⟨a, ha, b, hb, rfl⟩ := h
      exact .more ha hb

theorem elements_eq : elements = ws * (value * ws) * (1 + char ',' * elements) := by
  ext w
  rw [mem_separated]
  constructor
  · intro h
    cases h with
    | one h hv hu =>
      exact Or.inl (Language.append_mem_mul h (Language.append_mem_mul hv hu))
    | more h hv hu he =>
      exact Or.inr ⟨_, Language.append_mem_mul h (Language.append_mem_mul hv hu), _, he, rfl⟩
  · intro h
    rcases h with h | h
    · obtain ⟨a, ha, b, hb, rfl⟩ := Language.mem_mul.1 h
      obtain ⟨v, hv, u, hu, rfl⟩ := Language.mem_mul.1 hb
      exact .one ha hv hu
    · obtain ⟨i, hi, e, he, rfl⟩ := h
      obtain ⟨a, ha, b, hb, rfl⟩ := Language.mem_mul.1 hi
      obtain ⟨v, hv, u, hu, rfl⟩ := Language.mem_mul.1 hb
      exact .more ha hv hu he

section First

variable (c d : Char)

@[simp] theorem after_char : after c (char d) = if c = d then 1 else 0 := by
  rw [char, after_letter]

@[simp] theorem after_oneOf (cs : String) :
    after c (oneOf cs) = if c ∈ cs.toList then 1 else 0 := by
  rw [oneOf, after_letter]

@[simp] theorem nil_mem_char : ([] ∈ char c) ↔ False := nil_mem_letter _

@[simp] theorem nil_mem_oneOf (cs : String) : ([] ∈ oneOf cs) ↔ False := nil_mem_letter _

@[simp] theorem nil_mem_ws : [] ∈ ws := Language.nil_mem_kstar _

@[simp] theorem after_text (w : List Char) :
    after c (text (d :: w)) = if c = d then text w else 0 := by
  rw [text, after_mul_of_nil_notMem c _ (by simp), after_char]
  split
  · rw [one_mul]
  · rw [zero_mul]

@[simp] theorem nil_mem_text (w : List Char) : ([] ∈ text w) ↔ w = [] := by
  cases w with
  | nil => exact iff_of_true rfl rfl
  | cons d w => simp [text]

variable {c}

theorem after_ws_of (h : c ∈ " \t\n\r".toList) : after c ws = ws := by
  rw [ws, after_kstar, after_oneOf, if_pos h, one_mul]

theorem after_ws_not (h : c ∉ " \t\n\r".toList) : after c ws = 0 := by
  rw [ws, after_kstar, after_oneOf, if_neg h, zero_mul]

/-- No value starts with any other character. -/
theorem after_value_other (h : c ∉ "\x7b[\"-0123456789tfn".toList) : after c value = 0 := by
  have hc : c ≠ '{' ∧ c ≠ '[' ∧ c ≠ '"' ∧ c ≠ '-' ∧ c ∉ "0123456789".toList ∧ c ≠ 't' ∧
      c ≠ 'f' ∧ c ≠ 'n' := by
    simp at h ⊢
    simp [h]
  obtain ⟨hbrace, hbracket, hquote, hminus, hdigit, ht, hf, hn⟩ := hc
  simp at hdigit
  simp [-add_eq_sup, value_eq, literal, number, int, string, object_eq, array_eq, hbrace,
    hbracket, hquote, hminus, ht, hf, hn, hdigit]

theorem after_value_brace : after '{' value = (ws + members) * char '}' := by
  simp [-add_eq_sup, value_eq, literal, number, int, string, object_eq, array_eq]

theorem after_value_bracket : after '[' value = (ws + elements) * char ']' := by
  simp [-add_eq_sup, value_eq, literal, number, int, string, object_eq, array_eq]

theorem after_value_quote : after '"' value = stringTail := by
  simp [-add_eq_sup, value_eq, literal, number, int, string, object_eq, array_eq]

theorem after_value_minus : after '-' value = int * fraction := by
  simp [-add_eq_sup, value_eq, literal, number, int, string, object_eq, array_eq]

theorem after_value_zero : after '0' value = fraction := by
  simp [-add_eq_sup, value_eq, literal, number, int, string, object_eq, array_eq]

theorem after_value_digit (h : c ∈ "123456789".toList) : after c value = digit∗ * fraction := by
  simp at h
  rcases h with rfl | rfl | rfl | rfl | rfl | rfl | rfl | rfl | rfl <;>
    simp [-add_eq_sup, value_eq, literal, number, int, string, object_eq, array_eq]

theorem after_value_letters :
    after 't' value = text "rue".toList ∧ after 'f' value = text "alse".toList ∧
      after 'n' value = text "ull".toList := by
  refine ⟨?_, ?_, ?_⟩ <;>
    simp [-add_eq_sup, value_eq, literal, number, int, string, object_eq, array_eq]

@[simp] theorem nil_mem_value : ([] ∈ value) ↔ False := by
  simp [-add_eq_sup, value_eq, literal, number, int, string, object_eq, array_eq]

@[simp] theorem nil_mem_container : ([] ∈ container) ↔ False := by
  simp [-add_eq_sup, container, object_eq, array_eq]

@[simp] theorem nil_mem_members : ([] ∈ members) ↔ False := by
  rw [members_eq, member_eq]
  simp

@[simp] theorem nil_mem_elements : ([] ∈ elements) ↔ False := by
  rw [elements_eq]
  simp

/-- What follows the key of a first member. -/
def memberTail : Language Char :=
  ws * (char ':' * (ws * (value * (ws * (1 + char ',' * members)))))

theorem members_unfold : members = ws * (char '"' * (stringTail * memberTail)) := by
  rw [members_eq, member_eq, string, memberTail]
  simp only [mul_assoc]

theorem elements_unfold : elements = ws * (value * (ws * (1 + char ',' * elements))) := by
  conv_lhs => rw [elements_eq]
  simp only [mul_assoc]

/-- Whitespace before `L` is skipped when no word of `L` starts with it. -/
theorem after_ws_mul {L : Language Char} (h : c ∈ " \t\n\r".toList) (hL : after c L = 0) :
    after c (ws * L) = ws * L := by
  rw [after_mul_of_nil_mem c L nil_mem_ws, after_ws_of h, hL, add_zero]

theorem after_ws_mul_not {L : Language Char} (h : c ∉ " \t\n\r".toList) :
    after c (ws * L) = after c L := by
  rw [after_mul_of_nil_mem c L nil_mem_ws, after_ws_not h, zero_mul, zero_add]

theorem after_char_mul_of (L : Language Char) : after c (char c * L) = L := by
  simp

variable {d} in
theorem after_char_mul_not {L : Language Char} (h : c ≠ d) : after c (char d * L) = 0 := by
  simp [h]

theorem after_value_ws (h : c ∈ " \t\n\r".toList) : after c value = 0 := by
  apply after_value_other
  simp at h
  rcases h with rfl | rfl | rfl | rfl <;> decide

theorem after_members_ws (h : c ∈ " \t\n\r".toList) : after c members = members := by
  rw [members_unfold]
  apply after_ws_mul h
  apply after_char_mul_not
  intro hc
  rw [hc] at h
  exact absurd h (by decide)

theorem after_elements_ws (h : c ∈ " \t\n\r".toList) : after c elements = elements := by
  rw [elements_unfold]
  apply after_ws_mul h
  rw [after_mul_of_nil_notMem c _ (by simp), after_value_ws h, zero_mul]

end First

section Texts

theorem alive_char (c : Char) : Alive (char c) := alive_letter c rfl

theorem alive_ws : Alive ws := alive_kstar

theorem alive_text (w : List Char) : Alive (text w) := by
  induction w with
  | nil => exact Alive.of_nil rfl
  | cons c w ih => exact (alive_char c).mul ih

theorem alive_stringTail : Alive stringTail := alive_kstar.mul (alive_char '"')

theorem alive_literal : Alive literal := (alive_text _).add_left

theorem alive_value : Alive value := by
  rw [value_eq]
  exact alive_literal.add_left

theorem alive_object : Alive object := by
  rw [object_eq]
  exact (alive_char '{').mul (alive_ws.add_left.mul (alive_char '}'))

theorem alive_container : Alive container := alive_object.add_left

theorem alive_memberTail : Alive memberTail := by
  apply alive_ws.mul
  apply (alive_char ':').mul
  apply alive_ws.mul
  apply alive_value.mul
  exact alive_ws.mul (Alive.of_nil (Or.inl rfl))

theorem alive_members : Alive members := by
  rw [members_unfold]
  exact alive_ws.mul ((alive_char '"').mul (alive_stringTail.mul alive_memberTail))

end Texts

end EdgeLLM.Verified.JsonGrammar
