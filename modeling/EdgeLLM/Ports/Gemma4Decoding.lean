import EdgeLLM.Ports.Gemma4Rendering
import Mathlib.Data.Bool.AllAny

/-!
# Gemma 4 arguments decode to what was written

A rendering within the interpreter's limits (`framesOf`, `digitsOf`) parses to
the value it writes; one beyond them is refused, which `_parse_gemma4_call`
turns into `malformed`.
-/

namespace EdgeLLM.Ports.ToolCalling.Gemma4

open Verified.Bracketing

variable {O : Type} {py : Python O}

theorem isDigit_digitChar : ∀ d < 10, isDigit (Nat.digitChar d) = true := by decide

theorem isDigit_of_mem_toDigits (n : Nat) : ∀ ch ∈ Nat.toDigits 10 n, isDigit ch = true := by
  induction n using Nat.strongRecOn with
  | ind n ih =>
    intro ch hch
    rw [Nat.toDigits_eq_if (by decide)] at hch
    by_cases hn : n < 10
    · rw [if_pos hn, List.mem_singleton] at hch
      rw [hch]
      exact isDigit_digitChar n hn
    · rw [if_neg hn, List.mem_append, List.mem_singleton] at hch
      rcases hch with h | h
      · exact ih (n / 10) (by omega) ch h
      · rw [h]
        exact isDigit_digitChar (n % 10) (by omega)

theorem digitChar_ne_zero : ∀ d < 10, 0 < d → Nat.digitChar d ≠ '0' := by decide

/-- Only zero is written with a leading zero. -/
theorem head_toDigits {n : Nat} (hn : 0 < n) : (Nat.toDigits 10 n).head? ≠ some '0' := by
  induction n using Nat.strongRecOn with
  | ind n ih =>
    rw [Nat.toDigits_eq_if (by decide)]
    by_cases hlt : n < 10
    · rw [if_pos hlt, List.head?_cons, ne_eq, Option.some.injEq]
      exact digitChar_ne_zero n hlt hn
    · rw [if_neg hlt, List.head?_append_of_ne_nil _ Nat.toDigits_ne_nil]
      exact ih (n / 10) (by omega) (by omega)

theorem takeWhile_digits {ds : Text} (h : ∀ ch ∈ ds, isDigit ch = true) :
    ds.takeWhile isDigit = ds := List.takeWhile_eq_self_iff.2 h

/-- The text of an integer is one number, with no fraction and no exponent. -/
theorem matchNumber_digits (negative : Bool) (n : Nat) :
    matchNumber ((if negative then ['-'] else []) ++ Nat.toDigits 10 n) =
      some (negative, Nat.toDigits 10 n, [], [], []) := by
  have hdigits := isDigit_of_mem_toDigits n
  have hne : Nat.toDigits 10 n ≠ [] := Nat.toDigits_ne_nil
  have hminus : (Nat.toDigits 10 n).head? ≠ some '-' := by
    intro h
    exact absurd (hdigits '-' (List.mem_of_mem_head? (by simp [h]))) (by decide)
  have htake : (if (Nat.toDigits 10 n).head? = some '0' then ['0']
      else (Nat.toDigits 10 n).takeWhile isDigit) = Nat.toDigits 10 n := by
    rcases Nat.eq_zero_or_pos n with rfl | hpos
    · rfl
    · rw [if_neg (head_toDigits hpos), takeWhile_digits hdigits]
  cases negative with
  | true => simp [matchNumber, htake, hne]
  | false => simp [matchNumber, htake, hne, hminus]

variable {ch : Char} {α β : Type} {c d : Prop} {t a name inner : Text} {ts : List Text}
variable {fields : List (Text × Value O)} {config : ToolConfig O}
variable (n : Int)

theorem decimal_eq : decimal n = (if n < 0 then ['-'] else []) ++ Nat.toDigits 10 n.natAbs := by
  cases n with
  | ofNat n => rfl
  | negSucc n => rw [if_pos (Int.negSucc_lt_zero n)]; rfl

theorem int_natAbs : py.int (n < 0) (Nat.toDigits 10 n.natAbs) =
      if py.converts (Nat.toDigits 10 n.natAbs).length then .ok n else .error .valueError := by
  rw [Python.int, Nat.ofDigitChars_ten_toDigits]
  have hsign : (if decide (n < 0) = true then -(n.natAbs : Int) else n.natAbs) = n := by
    by_cases hn : n < 0
    · rw [if_pos (by simpa using hn)]
      omega
    · rw [if_neg (by simpa using hn)]
      omega
  rw [hsign]

theorem decimal_head : ∃ ch rest, decimal n = ch :: rest ∧ (ch = '-' ∨ isDigit ch = true) := by
  obtain ⟨ch, rest, hcons⟩ := List.exists_cons_of_ne_nil (Nat.toDigits_ne_nil (n := n.natAbs) (b := 10))
  have hch := isDigit_of_mem_toDigits n.natAbs ch (by simp [hcons])
  by_cases hn : n < 0
  · exact ⟨'-', ch :: rest, by simp [decimal_eq, hn, hcons], .inl rfl⟩
  · exact ⟨ch, rest, by simp [decimal_eq, hn, hcons], .inr hch⟩

/-- No letter but a digit and the sign opens the text of an integer. -/
theorem head_decimal_ne {n : Int} (hminus : ch ≠ '-') (hdigit : isDigit ch = false) {rest : Text} :
    decimal n ≠ ch :: rest := by
  intro h
  obtain ⟨c, more, hcons, hc⟩ := decimal_head n
  rw [h] at hcons
  obtain ⟨rfl, -⟩ := List.cons.inj hcons
  rcases hc with h | h
  · exact hminus h
  · rw [hdigit] at h
    cases h

theorem loads_decimal : loads py (decimal n) =
      if py.converts (Nat.toDigits 10 n.natAbs).length then .ok (.int n) else .error .valueError := by
  obtain ⟨ch, rest, hcons, hch⟩ := decimal_head n
  have hne : ∀ c : Char, c ≠ '-' → isDigit c = false → ch ≠ c := by
    intro c hminus hdigit h
    exact head_decimal_ne hminus hdigit (hcons.trans (by rw [h]))
  have hws : (decimal n).dropWhile (· ∈ jsonWs) = decimal n := by
    rw [hcons, List.dropWhile_cons_of_neg]
    rcases hch with rfl | h
    · decide
    · intro hmem
      have : ∀ c ∈ jsonWs, isDigit c = false :=
        List.all_iff_forall_prop.1 (by decide)
      rw [this ch (by simpa using hmem)] at h
      cases h
  have hbegins : ∀ (c : Char) (word : Text), c ≠ '-' → isDigit c = false →
      (c :: word).isPrefixOf (decimal n) = false := by
    intro c word hminus hdigit
    rw [Bool.eq_false_iff, ne_eq, List.isPrefixOf_iff_prefix]
    intro h
    obtain ⟨more, hmore⟩ := h
    exact head_decimal_ne hminus hdigit hmore.symm
  have hscan : scanScalar py (decimal n) = (py.int (n < 0) (Nat.toDigits 10 n.natAbs)).map
      fun n => (.int n, []) := by
    have hmatch := matchNumber_digits (n < 0) n.natAbs
    simp only [decide_eq_true_eq] at hmatch
    rw [← decimal_eq] at hmatch
    rw [scanScalar, if_neg (by rw [show "null".toList = 'n' :: "ull".toList from rfl,
        hbegins 'n' _ (by decide) (by decide)]; decide),
      if_neg (by rw [show "true".toList = 't' :: "rue".toList from rfl,
        hbegins 't' _ (by decide) (by decide)]; decide),
      if_neg (by rw [show "false".toList = 'f' :: "alse".toList from rfl,
        hbegins 'f' _ (by decide) (by decide)]; decide), hmatch]
    simp
  rw [loads, hws]
  simp only [hscan, int_natAbs]
  rw [hcons]
  simp only [hne '"' (by decide) (by decide), hne '{' (by decide) (by decide),
    hne '[' (by decide) (by decide), or_self, if_false]
  by_cases hconv : py.converts (Nat.toDigits 10 n.natAbs).length = true
  · simp [hconv, Except.map]
  · simp [hconv, Except.map]

/-- What `except (ValueError, RecursionError)` catches. -/
def Refusal (e : Raised) : Prop := e.isValueError = true ∨ e = .recursionError

/-- The call returns the value where `c` holds and is refused elsewhere. -/
structure Returns {α : Type} (c : Prop) (result : Except Raised α) (v : α) : Prop where
  ok : c → result = .ok v
  refused : ¬ c → ∃ e, result = .error e ∧ Refusal e

variable {result : Except Raised α} {v : α} {pieces : List Text} {field : Text × Value O}

theorem Returns.congr (h : Returns c result v) (hcd : c ↔ d) :
    Returns d result v where
  ok hd := h.ok (hcd.2 hd)
  refused hd := h.refused fun hc => hd (hcd.1 hc)

theorem Returns.map (h : Returns c result v) (f : α → β) :
    Returns c (result.map f) (f v) where
  ok hc := by rw [h.ok hc]; rfl
  refused hc := by
    obtain ⟨e, he, hrefusal⟩ := h.refused hc
    exact ⟨e, by rw [he]; rfl, hrefusal⟩

/-- A first step that may be refused, then a second. -/
theorem Returns.bind {w : β} {next : α → Except Raised β}
    (h : Returns c result v) (hnext : Returns d (next v) w) :
    Returns (c ∧ d) (result >>= next) w := by
  constructor
  · intro hcd
    rw [h.ok hcd.1]
    exact hnext.ok hcd.2
  · intro hcd
    by_cases hc : c
    · rw [h.ok hc]
      exact hnext.refused fun hd => hcd ⟨hc, hd⟩
    · obtain ⟨e, he, hrefusal⟩ := h.refused hc
      exact ⟨e, by rw [he]; rfl, hrefusal⟩

theorem Returns.exhausted (v : α) (hc : ¬ c) : Returns c (.error .recursionError) v where
  ok h := absurd h hc
  refused _ := ⟨_, rfl, .inr rfl⟩

/-- The interpreter has room for a value with this many nested calls and
digits. -/
def Room (py : Python O) (frames depth digits : Nat) : Prop :=
  depth ≤ frames ∧ py.converts digits = true

instance (frames depth digits : Nat) : Decidable (Room py frames depth digits) :=
  inferInstanceAs (Decidable (_ ∧ _))

theorem converts_max (a b : Nat) :
    py.converts (max a b) = true ↔ py.converts a = true ∧ py.converts b = true := by
  simp only [Python.converts, decide_eq_true_eq]
  omega

theorem room_max (frames a b m n : Nat) :
    Room py frames (max a b) (max m n) ↔ Room py frames a m ∧ Room py frames b n := by
  rw [Room, Room, Room, converts_max, Nat.max_le]
  tauto

theorem room_succ (frames depth digits : Nat) :
    Room py (frames + 1) (depth + 1) digits ↔ Room py frames depth digits := by
  rw [Room, Room, Nat.add_le_add_iff_right]

/-- One text of the grammar, as the parser meets it. -/
structure Reads (py : Python O) (v : Value O) (t : Text) : Prop where
  trimmed : Trimmed t
  spans : Spans NoComma t
  parse : ∀ frames expected,
    Returns (Room py frames (framesOf v) (digitsOf v)) (parseValue py frames t expected) v

theorem converts_zero : py.converts 0 = true := by
  simp [Python.converts]

/-- A scalar that takes one call whatever the limits are. -/
theorem Returns.scalar {v : Value O} (hframes : framesOf v = 1) (hdigits : digitsOf v = 0)
    (h : ∀ frames expected, parseValue py (frames + 1) t expected = .ok v) (frames : Nat)
    (expected : Option Text) :
    Returns (Room py frames (framesOf v) (digitsOf v)) (parseValue py frames t expected) v := by
  rw [hframes, hdigits]
  cases frames with
  | zero =>
    rw [parseValue]
    exact .exhausted v fun h => absurd h.1 (by decide)
  | succ frames =>
    exact ⟨fun _ => h frames expected,
      fun hno => absurd ⟨Nat.succ_le_succ (Nat.zero_le frames), converts_zero⟩ hno⟩

theorem spans_word (h : ∀ ch ∈ t, Bare ch ∧ ch ∉ "[\x7b]\x7d,".toList) : Spans NoComma t := by
  apply Spans.plain
  intro ch hch
  obtain ⟨hbare, hmem⟩ := h ch hch
  have hne : ∀ c ∈ "[\x7b]\x7d,".toList, ch ≠ c := fun c hc heq => hmem (heq ▸ hc)
  refine ⟨hbare, fun i => ⟨(plain_iff _).2 ⟨?_, ?_, ?_, ?_⟩, ?_⟩⟩
  all_goals exact hne _ (by decide)

theorem reads_null : Reads py .none "null".toList where
  trimmed := ⟨⟨'n', "ull".toList, rfl, by decide⟩, ⟨"nul".toList, 'l', rfl, by decide⟩⟩
  spans := spans_word (List.all_iff_forall_prop.1 (by decide))
  parse := Returns.scalar rfl rfl fun frames expected => by
    rw [parseValue]
    rfl

theorem reads_true : Reads py (.bool true) "true".toList where
  trimmed := ⟨⟨'t', "rue".toList, rfl, by decide⟩, ⟨"tru".toList, 'e', rfl, by decide⟩⟩
  spans := spans_word (List.all_iff_forall_prop.1 (by decide))
  parse := Returns.scalar rfl rfl fun frames expected => by
    rw [parseValue]
    rfl

theorem reads_false : Reads py (.bool false) "false".toList where
  trimmed := ⟨⟨'f', "alse".toList, rfl, by decide⟩, ⟨"fals".toList, 'e', rfl, by decide⟩⟩
  spans := spans_word (List.all_iff_forall_prop.1 (by decide))
  parse := Returns.scalar rfl rfl fun frames expected => by
    rw [parseValue]
    rfl

theorem not_isSpace_of_isDigit (h : isDigit ch = true) : isSpace ch = false := by
  have hall : ∀ c ∈ "0123456789".toList, isSpace c = false :=
    List.all_iff_forall_prop.1 (by decide)
  exact hall ch (by simpa [isDigit] using h)

theorem decimal_trimmed : Trimmed (decimal n) where
  head := by
    obtain ⟨ch, rest, hcons, hch⟩ := decimal_head n
    refine ⟨ch, rest, hcons, ?_⟩
    rcases hch with rfl | h
    · decide
    · exact not_isSpace_of_isDigit h
  last := by
    have hne : Nat.toDigits 10 n.natAbs ≠ [] := Nat.toDigits_ne_nil
    refine ⟨(if n < 0 then ['-'] else []) ++ (Nat.toDigits 10 n.natAbs).dropLast,
      (Nat.toDigits 10 n.natAbs).getLast hne, ?_, ?_⟩
    · rw [List.append_assoc, List.dropLast_append_getLast hne, decimal_eq]
    · exact not_isSpace_of_isDigit (isDigit_of_mem_toDigits _ _ (List.getLast_mem hne))

theorem decimal_spans : Spans NoComma (decimal n) := by
  have hdigits : ∀ c ∈ "0123456789".toList, Bare c ∧ c ∉ "[\x7b]\x7d,".toList :=
    List.all_iff_forall_prop.1 (by decide)
  apply spans_word
  intro ch hch
  rw [decimal_eq, List.mem_append] at hch
  rcases hch with h | h
  · by_cases hn : n < 0
    · rw [if_pos hn, List.mem_singleton] at h
      rw [h]
      decide
    · rw [if_neg hn] at h
      cases h
  · exact hdigits ch (by simpa [isDigit] using isDigit_of_mem_toDigits _ _ h)

/-- An integer is neither a string, a container nor a name. -/
theorem parseValue_decimal (frames : Nat) (n : Int) (expected : Option Text) :
    parseValue py (frames + 1) (decimal n) expected = scalarOrBare py (decimal n) expected := by
  have hcons : ∀ (c : Char) (word : Text), c ≠ '-' → isDigit c = false → decimal n ≠ c :: word :=
    fun c word hminus hdigit => head_decimal_ne hminus hdigit
  have hhead : ∀ c : Char, c ≠ '-' → isDigit c = false → (decimal n).head? ≠ some c := by
    intro c hminus hdigit h
    obtain ⟨rest, hrest⟩ := List.head?_eq_some_iff.1 h
    exact hcons c rest hminus hdigit hrest
  have hdelimiter : ¬ (delimiter.isPrefixOf (decimal n) = true ∧
      delimiter.isSuffixOf (decimal n) = true) := by
    intro h
    obtain ⟨more, hmore⟩ := List.isPrefixOf_iff_prefix.1 h.1
    exact hcons '<' _ (by decide) (by decide) hmore.symm
  have hlist : wrapped '[' ']' (decimal n) = false := by
    simp [wrapped, hhead '[' (by decide) (by decide)]
  rw [parseValue]
  simp only [(decimal_trimmed n).strip_eq, hlist]
  have htrue : decimal n ≠ "true".toList := hcons 't' _ (by decide) (by decide)
  have hfalse : decimal n ≠ "false".toList := hcons 'f' _ (by decide) (by decide)
  have hnull : decimal n ≠ "null".toList := hcons 'n' _ (by decide) (by decide)
  rw [if_neg hdelimiter, if_neg (hhead '{' (by decide) (by decide)), if_neg (by decide),
    if_neg htrue, if_neg hfalse, if_neg hnull]

theorem reads_int : Reads py (.int n) (decimal n) where
  trimmed := decimal_trimmed n
  spans := decimal_spans n
  parse := by
    intro frames expected
    cases frames with
    | zero =>
      rw [parseValue]
      exact .exhausted _ fun h => absurd h.1 (by simp [framesOf])
    | succ frames =>
      rw [parseValue_decimal, scalarOrBare, loads_decimal]
      constructor
      · intro hroom
        have hconv : py.converts (Nat.toDigits 10 n.natAbs).length = true := hroom.2
        rw [if_pos hconv]
      · intro hroom
        have hconv : ¬ py.converts (Nat.toDigits 10 n.natAbs).length = true := by
          intro hconv
          exact hroom ⟨by simp [framesOf], hconv⟩
        rw [if_neg hconv]
        exact ⟨_, rfl, .inl rfl⟩

theorem delimiter_trimmed (s : Text) : Trimmed (delimiter ++ (s ++ delimiter)) where
  head := ⟨'<', _, rfl, by decide⟩
  last := ⟨delimiter ++ (s ++ "<|\"|".toList), '>', by simp [delimiter], by decide⟩

theorem reads_str {s : Text} (hs : ¬ delimiter <:+: s) :
    Reads py (.str s) (delimiter ++ (s ++ delimiter)) where
  trimmed := delimiter_trimmed s
  spans := .string hs
  parse := Returns.scalar rfl rfl fun frames expected => by
    have hbegins : delimiter.isPrefixOf (delimiter ++ (s ++ delimiter)) = true := by
      rw [List.isPrefixOf_iff_prefix]
      exact List.prefix_append _ _
    have hsuffix : delimiter.isSuffixOf (delimiter ++ (s ++ delimiter)) = true := by
      rw [List.isSuffixOf_iff_suffix, ← List.append_assoc]
      exact List.suffix_append _ _
    have hlen : (delimiter ++ (s ++ delimiter)).length = 2 * delimiter.length + s.length := by
      simp only [List.length_append]
      omega
    have hinner : ((delimiter ++ (s ++ delimiter)).drop delimiter.length).take
        ((delimiter ++ (s ++ delimiter)).length - 2 * delimiter.length) = s := by
      rw [List.drop_left, hlen, Nat.add_sub_cancel_left, List.take_left]
    rw [parseValue]
    simp only [(delimiter_trimmed s).strip_eq, hbegins, hsuffix, and_self, if_true, hinner]
    rw [if_neg]
    rw [not_or]
    exact ⟨by omega, hs⟩

theorem spans_separated (h : ∀ piece ∈ pieces, Spans NoComma piece) :
    Spans (fun _ => True) (separated pieces) := by
  induction pieces with
  | nil => exact .nil
  | cons piece pieces ih =>
    have hpiece : Spans (fun _ => True) piece := (h piece (by simp)).mono fun _ _ => trivial
    have htail := ih fun p hp => h p (by simp [hp])
    cases pieces with
    | nil => exact hpiece
    | cons next pieces =>
      have hcomma : Spans (fun _ => True) [','] :=
        .single (by decide) fun i => ⟨(plain_iff (i, ',')).2 (by simp), trivial⟩
      exact hpiece.append (hcomma.append htail)

theorem Padded.forall_spans (hpadded : List.Forall₂ Padded ts pieces)
    (hspans : ∀ t ∈ ts, Spans NoComma t) : ∀ piece ∈ pieces, Spans NoComma piece := by
  induction hpadded with
  | nil => exact fun piece h => by cases h
  | cons hpiece _ ih =>
    intro piece hmem
    rcases List.mem_cons.1 hmem with rfl | h
    · exact hpiece.spans (hspans _ (by simp))
    · exact ih (fun t ht => hspans t (by simp [ht])) piece h

theorem strip_inner {opening closing : Char} (t : Text) :
    strip ((opening :: (t ++ [closing])).drop 1).dropLast = strip t := by
  rw [List.drop_one, List.tail_cons, List.dropLast_concat]

theorem wrapped_enclosed (opening closing : Char) (t : Text) :
    wrapped opening closing (opening :: (t ++ [closing])) = true := by
  rw [wrapped, ← List.cons_append, List.getLast?_concat]
  simp

/-- A text that opens with a bracket is no string. -/
theorem not_string (hch : ch ≠ '<') (t : Text) :
    ¬ (delimiter.isPrefixOf (ch :: t) = true ∧ delimiter.isSuffixOf (ch :: t) = true) := by
  intro h
  have hpre := List.isPrefixOf_iff_prefix.1 h.1
  exact hch (List.cons_prefix_cons.1 hpre).1.symm

/-- Parsing the items of a list, one after the other. -/
theorem returns_items {items : List (Value O)} (hitems : List.Forall₂ (Reads py) items ts)
    (frames : Nat) : Returns (Room py frames (framesOfItems items) (digitsOfItems items))
      (ts.mapM fun item => parseValue py frames item none) items := by
  induction hitems with
  | nil => exact ⟨fun _ => rfl, fun h => absurd ⟨Nat.zero_le frames, converts_zero⟩ h⟩
  | @cons v t items ts hv _ ih =>
    rw [List.mapM_cons]
    refine ((hv.parse frames none).bind ?_).congr (room_max frames _ _ _ _).symm
    exact ih.map (v :: ·)

theorem reads_list {items : List (Value O)} (hne : ts ≠ [])
    (hitems : List.Forall₂ (Reads py) items ts) (hpadded : List.Forall₂ Padded ts pieces) :
    Reads py (.list items) ('[' :: (separated pieces ++ [']'])) := by
  have hcore : ∀ t ∈ ts, ∃ v, Reads py v t := by
    intro t ht
    obtain ⟨i, hi, rfl⟩ := List.getElem_of_mem ht
    have hi' : i < items.length := by rw [hitems.length_eq]; exact hi
    exact ⟨items[i], hitems.get hi' hi⟩
  have htrimmed : ∀ t ∈ ts, Trimmed t := by
    intro t ht
    obtain ⟨v, hv⟩ := hcore t ht
    exact hv.trimmed
  have hspans : ∀ t ∈ ts, Spans NoComma t := by
    intro t ht
    obtain ⟨v, hv⟩ := hcore t ht
    exact hv.spans
  have htrim : Trimmed ('[' :: (separated pieces ++ [']'])) :=
    .enclosed (by decide) (by decide) (separated pieces)
  obtain ⟨hfull, hsplit⟩ := splitFields_padded hpadded hne htrimmed hspans
  refine ⟨htrim, .inBrackets (spans_separated (Padded.forall_spans hpadded hspans)), ?_⟩
  intro frames expected
  cases frames with
  | zero =>
    rw [parseValue]
    exact .exhausted _ fun h => absurd h.1 (by simp [framesOf])
  | succ frames =>
    have hroom := @room_succ _ py frames (framesOfItems items) (digitsOfItems items)
    rw [parseValue]
    simp only [htrim.strip_eq, wrapped_enclosed, strip_inner, hsplit, List.head?_cons]
    rw [if_neg (not_string (by decide) _), if_neg (by decide), if_pos trivial,
      if_neg hfull]
    exact ((returns_items hitems frames).map Value.list).congr hroom.symm

theorem reads_emptyList (ha : Blank a) : Reads py (.list []) ('[' :: (a ++ [']'])) := by
  have htrim : Trimmed ('[' :: (a ++ [']'])) := .enclosed (by decide) (by decide) a
  refine ⟨htrim, .inBrackets ((Spans.blank ha).mono fun _ _ => trivial), ?_⟩
  apply Returns.scalar rfl rfl
  intro frames expected
  rw [parseValue]
  simp only [htrim.strip_eq, wrapped_enclosed, strip_inner, strip_of_blank ha, List.head?_cons]
  rw [if_neg (not_string (by decide) _), if_neg (by decide), if_pos trivial, if_pos trivial]

theorem identifier_char (h : isIdentifierRest ch = true) :
    isSpace ch = false ∧ Bare ch ∧ ch ≠ ':' ∧ ch ∉ "[\x7b]\x7d,".toList := by
  have hword : (0x30 ≤ ch.toNat ∧ ch.toNat ≤ 0x39) ∨ (0x41 ≤ ch.toNat ∧ ch.toNat ≤ 0x5A) ∨
      (0x61 ≤ ch.toNat ∧ ch.toNat ≤ 0x7A) ∨ ch.toNat = 0x5F := by
    delta isIdentifierRest Char.isAlphanum Char.isAlpha Char.isUpper Char.isLower at h
    simp only [decide_eq_true_eq, Char.isDigit, Bool.or_eq_true, Bool.and_eq_true,
      UInt32.le_iff_toNat_le] at h
    rcases h with h | rfl
    · have hval : ch.toNat = ch.val.toNat := rfl
      simp at h
      omega
    · decide
  have hne : ∀ c : Char, c.toNat ∈ [0x22, 0x3C, 0x3A, 0x5B, 0x7B, 0x5D, 0x7D, 0x2C] → ch ≠ c := by
    rintro c hc rfl
    simp only [List.mem_cons, List.not_mem_nil, or_false] at hc
    omega
  refine ⟨?_, ⟨hne _ (by decide), hne _ (by decide)⟩, hne _ (by decide), ?_⟩
  · simp only [isSpace, List.mem_cons, List.not_mem_nil, or_false, decide_eq_false_iff_not]
    omega
  · intro hmem
    have hall : ∀ c ∈ "[\x7b]\x7d,".toList, c.toNat ∈ [0x22, 0x3C, 0x3A, 0x5B, 0x7B, 0x5D, 0x7D, 0x2C] :=
      List.all_iff_forall_prop.1 (by decide)
    exact hne ch (hall ch hmem) rfl

theorem identifier_mem {key : Text} (hkey : isIdentifier key = true) :
    ∀ ch ∈ key, isIdentifierRest ch = true := by
  cases key with
  | nil => cases hkey
  | cons first rest =>
    simp only [isIdentifier, decide_eq_true_eq] at hkey
    intro ch hch
    rcases List.mem_cons.1 hch with rfl | h
    · have hstart := hkey.1
      simp only [isIdentifierStart, isIdentifierRest, Char.isAlphanum, decide_eq_true_eq,
        Bool.or_eq_true] at hstart ⊢
      tauto
    · exact List.all_eq_true.1 hkey.2 ch h

theorem identifier_trimmed {key : Text} (hkey : isIdentifier key = true) : Trimmed key := by
  have hne : key ≠ [] := by
    rintro rfl
    cases hkey
  constructor
  · obtain ⟨ch, rest, rfl⟩ := List.exists_cons_of_ne_nil hne
    exact ⟨ch, rest, rfl, (identifier_char (identifier_mem hkey ch (by simp))).1⟩
  · refine ⟨key.dropLast, key.getLast hne, (List.dropLast_append_getLast hne).symm, ?_⟩
    exact (identifier_char (identifier_mem hkey _ (List.getLast_mem hne))).1

/-- A field as the parser meets it: a key, a colon and a value. -/
structure ReadsField (py : Python O) (field : Text × Value O) (t : Text) : Prop where
  identifier : isIdentifier field.1 = true
  parts : ∃ b c u, Blank b ∧ Blank c ∧ t = field.1 ++ (b ++ ':' :: (c ++ u)) ∧ Reads py field.2 u

theorem ReadsField.trimmed (h : ReadsField py field t) : Trimmed t := by
  obtain ⟨b, c, u, hb, hc, rfl, hu⟩ := h.parts
  constructor
  · obtain ⟨ch, rest, hkey, hch⟩ := (identifier_trimmed h.identifier).head
    exact ⟨ch, rest ++ (b ++ ':' :: (c ++ u)), by rw [hkey, List.cons_append], hch⟩
  · obtain ⟨rest, ch, rfl, hch⟩ := hu.trimmed.last
    exact ⟨field.1 ++ (b ++ ':' :: (c ++ rest)), ch, by simp, hch⟩

theorem ReadsField.spans (h : ReadsField py field t) :
    Spans NoComma t := by
  obtain ⟨b, c, u, hb, hc, rfl, hu⟩ := h.parts
  have hkey : Spans NoComma field.1 := by
    apply spans_word
    intro ch hch
    have hid := identifier_char (identifier_mem h.identifier ch hch)
    exact ⟨hid.2.1, hid.2.2.2⟩
  have hcolon : Spans NoComma [':'] := spans_word (List.all_iff_forall_prop.1 (by decide))
  exact hkey.append ((Spans.blank hb).append (hcolon.append ((Spans.blank hc).append hu.spans)))

theorem isSpace_colon (h : isSpace ch = true) : ch ≠ ':' := by
  rintro rfl
  exact absurd h (by decide)

theorem splitKeyValue_field {key b c u : Text} (hkey : isIdentifier key = true) (hb : Blank b)
    (hc : Blank c) (hu : Trimmed u) :
    splitKeyValue py (key ++ (b ++ ':' :: (c ++ u))) = .ok (key, u) := by
  have hshape : key ++ (b ++ ':' :: (c ++ u)) = (key ++ b) ++ ':' :: (c ++ u) := by simp
  have hplain : ∀ ch ∈ key ++ b, Bare ch ∧ ch ≠ ':' := by
    intro ch hch
    rcases List.mem_append.1 hch with h | h
    · have hid := identifier_char (identifier_mem hkey ch h)
      exact ⟨hid.2.1, hid.2.2.1⟩
    · exact ⟨.of_isSpace (hb ch h), isSpace_colon (hb ch h)⟩
  have hfind := find_colon hplain 0 (c ++ u)
  rw [Nat.zero_add] at hfind
  have htake : strip (((key ++ b) ++ ':' :: (c ++ u)).take (key ++ b).length) = key := by
    rw [List.take_left]
    simpa using (identifier_trimmed hkey).strip_padded Blank.nil hb
  have hdrop : strip (((key ++ b) ++ ':' :: (c ++ u)).drop ((key ++ b).length + 1)) = u := by
    rw [← List.drop_drop, List.drop_left, List.drop_one, List.tail_cons]
    simpa using hu.strip_padded hc Blank.nil
  have hquote : key.head? ≠ some '"' := by
    intro h
    have hid := identifier_char (identifier_mem hkey '"' (List.mem_of_mem_head? (by simp [h])))
    exact hid.2.1.1 rfl
  rw [hshape, splitKeyValue, unquoted, hfind]
  simp only [htake, hdrop]
  rw [if_neg hquote, if_pos ⟨hkey, hu.ne_nil⟩]

/-- One turn of the loop of `_parse_gemma4_object`. -/
def fieldStep (py : Python O) (frames : Nat) (types : List (Text × Text))
    (result : List (Text × Value O)) (item : Text) : Except Raised (List (Text × Value O)) :=
  match splitKeyValue py item with
  | .error e => .error e
  | .ok (key, value) =>
    if result.any (·.1 = key) then .error .valueError
    else
      match parseValue py frames value (types.lookup key) with
      | .error e => .error e
      | .ok v => .ok (result ++ [(key, v)])

theorem returns_field (h : ReadsField py field t) (frames : Nat)
    (types : List (Text × Text)) {result : List (Text × Value O)}
    (hnew : field.1 ∉ result.map (·.1)) :
    Returns (Room py frames (framesOf field.2) (digitsOf field.2))
      (fieldStep py frames types result t) (result ++ [field]) := by
  obtain ⟨b, c, u, hb, hc, rfl, hu⟩ := h.parts
  have hany : ¬ result.any (·.1 = field.1) = true := by
    simpa using hnew
  have hparse := (hu.parse frames (types.lookup field.1)).map fun v => result ++ [(field.1, v)]
  rw [fieldStep, splitKeyValue_field h.identifier hb hc hu.trimmed]
  simp only [if_neg hany]
  cases hvalue : parseValue py frames u (types.lookup field.1) with
  | error e => rwa [hvalue] at hparse
  | ok v => rwa [hvalue] at hparse

/-- Parsing the fields of an object, one after the other. -/
theorem returns_fields (hfields : List.Forall₂ (ReadsField py) fields ts) (frames : Nat)
    (types : List (Text × Text)) :
    ∀ result : List (Text × Value O), ((result ++ fields).map (·.1)).Nodup →
      Returns (Room py frames (framesOfFields fields) (digitsOfFields fields))
        (ts.foldlM (fieldStep py frames types) result) (result ++ fields) := by
  induction hfields with
  | nil =>
    intro result _
    rw [List.append_nil]
    exact ⟨fun _ => rfl, fun h => absurd ⟨Nat.zero_le frames, converts_zero⟩ h⟩
  | @cons field t fields ts hfield _ ih =>
    intro result hnodup
    have hnew : field.1 ∉ result.map (·.1) := by
      rw [List.map_append, List.nodup_append] at hnodup
      intro hmem
      exact hnodup.2.2 _ hmem _ (by simp) rfl
    have happend : result ++ field :: fields = (result ++ [field]) ++ fields := by simp
    rw [happend] at hnodup ⊢
    rw [List.foldlM_cons]
    exact ((returns_field hfield frames types hnew).bind (ih _ hnodup)).congr
      (room_max frames _ _ _ _).symm

/-- `_parse_gemma4_object` of a rendering. -/
structure ReadsObject (py : Python O) (fields : List (Text × Value O)) (t : Text) : Prop where
  shape : ∃ inner, t = '{' :: (inner ++ ['}']) ∧ Spans (fun _ => True) inner
  parse : ∀ frames types,
    Returns (Room py frames (framesOfFields fields + 1) (digitsOfFields fields))
      (parseObject py frames t types) fields

theorem readsObject_fields (hne : ts ≠ []) (hnodup : (fields.map (·.1)).Nodup)
    (hfields : List.Forall₂ (ReadsField py) fields ts) (hpadded : List.Forall₂ Padded ts pieces) :
    ReadsObject py fields ('{' :: (separated pieces ++ ['}'])) := by
  have hcore : ∀ t ∈ ts, ∃ field, ReadsField py field t := by
    intro t ht
    obtain ⟨i, hi, rfl⟩ := List.getElem_of_mem ht
    have hi' : i < fields.length := by rw [hfields.length_eq]; exact hi
    exact ⟨fields[i], hfields.get hi' hi⟩
  have htrimmed : ∀ t ∈ ts, Trimmed t := by
    intro t ht
    obtain ⟨field, hfield⟩ := hcore t ht
    exact hfield.trimmed
  have hspans : ∀ t ∈ ts, Spans NoComma t := by
    intro t ht
    obtain ⟨field, hfield⟩ := hcore t ht
    exact hfield.spans
  have htrim : Trimmed ('{' :: (separated pieces ++ ['}'])) :=
    .enclosed (by decide) (by decide) (separated pieces)
  obtain ⟨hfull, hsplit⟩ := splitFields_padded hpadded hne htrimmed hspans
  refine ⟨⟨_, rfl, spans_separated (Padded.forall_spans hpadded hspans)⟩, ?_⟩
  intro frames types
  cases frames with
  | zero =>
    rw [parseObject]
    exact .exhausted _ fun h => absurd h.1 (by simp)
  | succ frames =>
    have hroom := @room_succ _ py frames (framesOfFields fields) (digitsOfFields fields)
    rw [parseObject]
    simp only [htrim.strip_eq, wrapped_enclosed, strip_inner, hsplit]
    rw [if_pos trivial, if_neg hfull]
    exact (returns_fields hfields frames types [] (by simpa using hnodup)).congr hroom.symm

theorem readsObject_empty (ha : Blank a) :
    ReadsObject py ([] : List (Text × Value O)) ('{' :: (a ++ ['}'])) := by
  have htrim : Trimmed ('{' :: (a ++ ['}'])) := .enclosed (by decide) (by decide) a
  refine ⟨⟨_, rfl, (Spans.blank ha).mono fun _ _ => trivial⟩, ?_⟩
  intro frames types
  cases frames with
  | zero =>
    rw [parseObject]
    exact .exhausted _ fun h => absurd h.1 (by simp)
  | succ frames =>
    rw [parseObject]
    simp only [htrim.strip_eq, wrapped_enclosed, strip_inner, strip_of_blank ha]
    rw [if_pos trivial, if_pos trivial]
    exact ⟨fun _ => rfl, fun h => absurd
      ⟨Nat.succ_le_succ (Nat.zero_le frames), converts_zero⟩ h⟩

theorem ReadsObject.reads (h : ReadsObject py fields t) : Reads py (.dict fields) t := by
  obtain ⟨inner, rfl, hinner⟩ := h.shape
  have htrim : Trimmed ('{' :: (inner ++ ['}'])) := .enclosed (by decide) (by decide) inner
  refine ⟨htrim, .inBraces hinner, ?_⟩
  intro frames expected
  cases frames with
  | zero =>
    rw [parseValue]
    exact .exhausted _ fun h => absurd h.1 (by simp [framesOf])
  | succ frames =>
    have hroom := @room_succ _ py frames (framesOfFields fields + 1) (digitsOfFields fields)
    rw [parseValue]
    simp only [htrim.strip_eq, List.head?_cons]
    rw [if_neg (not_string (by decide) _), if_pos trivial]
    exact ((h.parse frames []).map Value.dict).congr hroom.symm

mutual

theorem reads_of_renders {v : Value O} {t : Text} (h : Renders v t) : Reads py v t :=
  match h with
  | .none => reads_null
  | .true => reads_true
  | .false => reads_false
  | .int n => reads_int n
  | .str hs => reads_str hs
  | .emptyList ha => reads_emptyList ha
  | .list hitems =>
    match exists_items hitems with
    | ⟨_, _, hne, ht, hreads, hpadded⟩ => ht ▸ reads_list hne hreads hpadded
  | .emptyDict ha => (readsObject_empty ha).reads
  | .dict hnodup hfields =>
    match exists_fields hfields with
    | ⟨_, _, hne, ht, hreads, hpadded⟩ =>
      ht ▸ (readsObject_fields hne hnodup hreads hpadded).reads

theorem exists_items {items : List (Value O)} {t : Text} (h : RendersItems items t) :
    ∃ ts pieces, ts ≠ [] ∧ separated pieces = t ∧ List.Forall₂ (Reads py) items ts ∧
      List.Forall₂ Padded ts pieces :=
  match h with
  | @RendersItems.last _ _ t a b ha hb hv =>
    ⟨[t], [a ++ (t ++ b)], by simp, rfl, .cons (reads_of_renders hv) .nil,
      .cons ⟨a, b, ha, hb, rfl⟩ .nil⟩
  | @RendersItems.cons _ _ _ t _ a b ha hb hv hitems =>
    match exists_items hitems with
    | ⟨ts, pieces, hne, hjoin, hreads, hpadded⟩ =>
      ⟨t :: ts, (a ++ (t ++ b)) :: pieces, by simp,
        by
          have hpieces : pieces ≠ [] := by
            rintro rfl
            exact hne (List.forall₂_nil_right_iff.1 hpadded)
          rw [separated_cons hpieces, hjoin],
        .cons (reads_of_renders hv) hreads, .cons ⟨a, b, ha, hb, rfl⟩ hpadded⟩

theorem exists_fields {fields : List (Text × Value O)} {t : Text} (h : RendersFields fields t) :
    ∃ ts pieces, ts ≠ [] ∧ separated pieces = t ∧ List.Forall₂ (ReadsField py) fields ts ∧
      List.Forall₂ Padded ts pieces :=
  match h with
  | @RendersFields.last _ key _ t a b c d hkey ha hb hc hd hv =>
    ⟨[key ++ (b ++ ':' :: (c ++ t))], [a ++ ((key ++ (b ++ ':' :: (c ++ t))) ++ d)], by simp, rfl,
      .cons ⟨hkey, b, c, t, hb, hc, rfl, reads_of_renders hv⟩ .nil, .cons ⟨a, d, ha, hd, rfl⟩ .nil⟩
  | @RendersFields.cons _ key _ _ t _ a b c d hkey ha hb hc hd hv hfields =>
    match exists_fields hfields with
    | ⟨ts, pieces, hne, hjoin, hreads, hpadded⟩ =>
      ⟨(key ++ (b ++ ':' :: (c ++ t))) :: ts,
        (a ++ ((key ++ (b ++ ':' :: (c ++ t))) ++ d)) :: pieces, by simp,
        by
          have hpieces : pieces ≠ [] := by
            rintro rfl
            exact hne (List.forall₂_nil_right_iff.1 hpadded)
          rw [separated_cons hpieces, hjoin],
        .cons ⟨hkey, b, c, t, hb, hc, rfl, reads_of_renders hv⟩ hreads,
        .cons ⟨a, d, ha, hd, rfl⟩ hpadded⟩

end

theorem readsObject_of_renders (h : Renders (.dict fields) t) : ReadsObject py fields t := by
  cases h with
  | emptyDict ha => exact readsObject_empty ha
  | dict hnodup hfields =>
    obtain ⟨ts, pieces, hne, rfl, hreads, hpadded⟩ := exists_fields hfields
    exact readsObject_fields hne hnodup hreads hpadded

mutual

theorem dumps_of_renders {v : Value O} {t : Text} (h : Renders v t)
    (hconv : py.converts (digitsOf v) = true) : ∃ text, dumps py v = .ok text :=
  match h with
  | .none => ⟨_, rfl⟩
  | .true => ⟨_, rfl⟩
  | .false => ⟨_, rfl⟩
  | .int n => ⟨decimal n, by rw [dumps]; exact if_pos hconv⟩
  | .str _ => ⟨_, rfl⟩
  | .emptyList _ => ⟨_, rfl⟩
  | .list hitems =>
    match dumpsItems_of_renders hitems hconv with
    | ⟨texts, htexts⟩ => ⟨_, by rw [dumps, htexts]; rfl⟩
  | .emptyDict _ => ⟨_, rfl⟩
  | .dict _ hfields =>
    match dumpsFields_of_renders hfields hconv with
    | ⟨texts, htexts⟩ => ⟨_, by rw [dumps, htexts]; rfl⟩

theorem dumpsItems_of_renders {items : List (Value O)} {t : Text} (h : RendersItems items t)
    (hconv : py.converts (digitsOfItems items) = true) : ∃ texts, dumpsItems py items = .ok texts :=
  match h with
  | .last _ _ hv =>
    match dumps_of_renders hv ((converts_max _ _).1 hconv).1 with
    | ⟨text, htext⟩ => ⟨[text], by rw [dumpsItems, htext]; rfl⟩
  | .cons _ _ hv hitems =>
    match dumps_of_renders hv ((converts_max _ _).1 hconv).1,
      dumpsItems_of_renders hitems ((converts_max _ _).1 hconv).2 with
    | ⟨text, htext⟩, ⟨texts, htexts⟩ => ⟨text :: texts, by rw [dumpsItems, htext, htexts]; rfl⟩

theorem dumpsFields_of_renders {fields : List (Text × Value O)} {t : Text}
    (h : RendersFields fields t) (hconv : py.converts (digitsOfFields fields) = true) :
    ∃ texts, dumpsFields py fields = .ok texts :=
  match h with
  | .last _ _ _ _ _ hv =>
    match dumps_of_renders hv ((converts_max _ _).1 hconv).1 with
    | ⟨_, htext⟩ => ⟨_, by rw [dumpsFields, htext]; rfl⟩
  | .cons _ _ _ _ _ hv hfields =>
    match dumps_of_renders hv ((converts_max _ _).1 hconv).1,
      dumpsFields_of_renders hfields ((converts_max _ _).1 hconv).2 with
    | ⟨_, htext⟩, ⟨_, htexts⟩ => ⟨_, by rw [dumpsFields, htext, htexts]; rfl⟩

end

theorem takeWhile_name {rest : Text} (hname : ∀ ch ∈ name, isNameChar ch = true) :
    (name ++ '{' :: rest).takeWhile isNameChar = name := by
  rw [List.takeWhile_append_of_pos hname, List.takeWhile_cons_of_neg (by decide), List.append_nil]

theorem matchCall_eq (hne : name ≠ []) (hname : ∀ ch ∈ name, isNameChar ch = true) :
    matchCall (barePrefix ++ (name ++ '{' :: (inner ++ ['}']))) =
      some (name, '{' :: (inner ++ ['}'])) := by
  have hbegins : barePrefix.isPrefixOf (barePrefix ++ (name ++ '{' :: (inner ++ ['}']))) = true := by
    rw [List.isPrefixOf_iff_prefix]
    exact List.prefix_append _ _
  rw [matchCall, if_pos hbegins]
  simp only [List.drop_left, takeWhile_name hname, wrapped_enclosed]
  rw [if_pos ⟨hne, trivial⟩]

theorem matchCallPrefix_eq {a name rest : Text} (ha : Blank a) (hne : name ≠ [])
    (hname : ∀ ch ∈ name, isNameChar ch = true) :
    matchCallPrefix (a ++ (barePrefix ++ (name ++ '{' :: rest))) =
      some (a ++ (barePrefix ++ name)).length := by
  have hhead : lstrip (a ++ (barePrefix ++ (name ++ '{' :: rest))) =
      barePrefix ++ (name ++ '{' :: rest) := by
    rw [lstrip_blank ha]
    rfl
  have hbegins : barePrefix.isPrefixOf (barePrefix ++ (name ++ '{' :: rest)) = true := by
    rw [List.isPrefixOf_iff_prefix]
    exact List.prefix_append _ _
  rw [matchCallPrefix]
  simp only [hhead, hbegins, if_true, List.drop_left, takeWhile_name hname, List.head?_cons]
  rw [if_pos ⟨hne, trivial⟩]
  simp only [List.length_append, List.length_cons]
  congr 1
  omega

/-- The call that a rendering under this name makes. -/
def callOf (py : Python O) (config : ToolConfig O) (callId name : Text)
    (parsed : Except Raised (List (Text × Value O))) : Except Raised ToolCall :=
  if toolNameAllowed name config then
    match parsed with
    | .error e =>
      if e.isValueError ∨ e = .recursionError then .error (.toolProtocolError .malformed)
      else .error e
    | .ok fields =>
      (argumentsToJson py (.dict fields)).map fun text =>
        { id := callId, name := name, arguments := text }
  else .error (.toolProtocolError .unauthorized)

theorem parseCall_eq {config : ToolConfig O} {a b name inner : Text} (ha : Blank a) (hb : Blank b)
    (hne : name ≠ []) (hname : ∀ ch ∈ name, isNameChar ch = true) (frames : Nat) (callId : Text) :
    parseCall py frames config callId
        (a ++ ((barePrefix ++ (name ++ '{' :: (inner ++ ['}']))) ++ b)) =
      callOf py config callId name
        (parseObject py frames ('{' :: (inner ++ ['}'])) (paramTypesFor name config)) := by
  have htrim : Trimmed (barePrefix ++ (name ++ '{' :: (inner ++ ['}']))) :=
    ⟨⟨'c', _, rfl, by decide⟩, ⟨barePrefix ++ (name ++ '{' :: inner), '}', by simp, by decide⟩⟩
  rw [parseCall, htrim.strip_padded ha hb, matchCall_eq hne hname]
  rfl

/-- The bare form reads the same call, whatever comes behind its object. -/
theorem parseCallPrefix_eq (ha : Blank a) (hne : name ≠ [])
    (hname : ∀ ch ∈ name, isNameChar ch = true) (hinner : Spans (fun _ => True) inner)
    (frames : Nat) (callId following : Text) : parseCallPrefix py frames config callId
        (a ++ (barePrefix ++ (name ++ ('{' :: (inner ++ ['}']) ++ following)))) =
      (callOf py config callId name
        (parseObject py frames ('{' :: (inner ++ ['}'])) (paramTypesFor name config))).map some := by
  have hstop := objectEnd_eq hinner (a ++ (barePrefix ++ name)) following
  have hshape : a ++ (barePrefix ++ (name ++ ('{' :: (inner ++ ['}']) ++ following))) =
      (a ++ (barePrefix ++ name)) ++ ('{' :: (inner ++ ['}']) ++ following) := by
    simp
  have htake : ((a ++ (barePrefix ++ name)) ++ ('{' :: (inner ++ ['}']) ++ following)).take
        ((a ++ (barePrefix ++ name)).length + ('{' :: (inner ++ ['}'])).length) =
      a ++ ((barePrefix ++ (name ++ '{' :: (inner ++ ['}']))) ++ []) := by
    have happend := List.append_assoc (a ++ (barePrefix ++ name)) ('{' :: (inner ++ ['}'])) following
    rw [← happend, ← List.length_append, List.take_left]
    simp
  have hmatch := @matchCallPrefix_eq a name (inner ++ ['}'] ++ following) ha hne hname
  rw [parseCallPrefix, List.cons_append, hmatch, ← List.cons_append, hshape]
  simp only [hstop]
  rw [htake, parseCall_eq ha .nil hne hname]

theorem callOf_refused {e : Raised} (hallowed : toolNameAllowed name config = true) (he : Refusal e)
    (callId : Text) :
    callOf py config callId name (.error e) = .error (.toolProtocolError .malformed) := by
  rw [callOf, if_pos hallowed]
  exact if_pos he

theorem exists_arguments (h : Renders (.dict fields) t)
    (hconv : py.converts (digitsOfFields fields) = true) :
    ∃ arguments, argumentsToJson py (.dict fields) = .ok arguments := by
  obtain ⟨text, htext⟩ := dumps_of_renders h hconv
  have hjson : argumentsToJson py (.dict fields) =
      if py.truthOf (.dict fields) then dumps py (.dict fields) else dumps py (.dict []) := rfl
  rw [hjson]
  by_cases htruth : py.truthOf (.dict fields) = true
  · exact ⟨text, by rw [if_pos htruth, htext]⟩
  · exact ⟨_, by rw [if_neg htruth]; rfl⟩

/-- **Arguments decode to what was written.** The object ends where its
rendering does, whatever comes behind it. Where the interpreter has room for
its nesting and its integers, parsing the rendering gives the object back, and
the block form and the bare form of a call make the same call; where it has no
room, both refuse the call as malformed. -/
theorem rendering_decodes (py : Python O) (fields : List (Text × Value O)) (t : Text)
    (h : Renders (.dict fields) t) :
    (∀ before following : Text,
      objectEnd (before ++ (t ++ following)) before.length = some (before.length + t.length)) ∧
    (∀ frames, Room py frames (framesOfFields fields + 1) (digitsOfFields fields) →
      (∀ types, parseObject py frames t types = .ok fields) ∧
      ∃ arguments, argumentsToJson py (.dict fields) = .ok arguments ∧
        ∀ (config : ToolConfig O) (callId name a b following : Text), Blank a → Blank b →
          name ≠ [] → (∀ ch ∈ name, isNameChar ch = true) → toolNameAllowed name config = true →
          parseCall py frames config callId (a ++ ((barePrefix ++ (name ++ t)) ++ b)) =
              .ok { id := callId, name := name, arguments := arguments } ∧
            parseCallPrefix py frames config callId
                (a ++ (barePrefix ++ (name ++ (t ++ following)))) =
              .ok (some { id := callId, name := name, arguments := arguments })) ∧
    (∀ frames, ¬ Room py frames (framesOfFields fields + 1) (digitsOfFields fields) →
      (∀ types, ∃ e, parseObject py frames t types = .error e ∧ Refusal e) ∧
      ∀ (config : ToolConfig O) (callId name a b following : Text), Blank a → Blank b →
        name ≠ [] → (∀ ch ∈ name, isNameChar ch = true) → toolNameAllowed name config = true →
        parseCall py frames config callId (a ++ ((barePrefix ++ (name ++ t)) ++ b)) =
            .error (.toolProtocolError .malformed) ∧
          parseCallPrefix py frames config callId
              (a ++ (barePrefix ++ (name ++ (t ++ following)))) =
            .error (.toolProtocolError .malformed)) := by
  have hobject : ReadsObject py fields t := readsObject_of_renders h
  obtain ⟨inner, rfl, hinner⟩ := hobject.shape
  refine ⟨objectEnd_eq hinner, ?_, ?_⟩
  · intro frames hroom
    have hparse := fun types => (hobject.parse frames types).ok hroom
    obtain ⟨arguments, harguments⟩ := exists_arguments h hroom.2
    refine ⟨hparse, arguments, harguments, ?_⟩
    intro config callId name a b following ha hb hne hname hallowed
    have hcall : callOf py config callId name (.ok fields) =
        .ok { id := callId, name := name, arguments := arguments } := by
      rw [callOf, if_pos hallowed]
      simp only [harguments]
      rfl
    rw [parseCall_eq ha hb hne hname, parseCallPrefix_eq ha hne hname hinner, hparse, hcall]
    exact ⟨rfl, rfl⟩
  · intro frames hroom
    have hparse := fun types => (hobject.parse frames types).refused hroom
    refine ⟨hparse, ?_⟩
    intro config callId name a b following ha hb hne hname hallowed
    obtain ⟨e, he, hrefusal⟩ := hparse (paramTypesFor name config)
    rw [parseCall_eq ha hb hne hname, parseCallPrefix_eq ha hne hname hinner, he,
      callOf_refused hallowed hrefusal]
    exact ⟨rfl, rfl⟩

/-- The default limit on digits, and no object beyond the JSON values. -/
def defaults : Python Unit where
  maxStrDigits := 4300
  float _ := ()
  isFinite _ := true
  truth _ := true
  dumpsOther _ := .error .typeError
  loads _ := .error .jsonDecodeError
  loadsNested _ := .error .jsonDecodeError

theorem rendering_decodes_weather :
    ∃ arguments, ∀ callId following : Text,
      parseCallPrefix defaults 3 { tools := [], forcedName := none } callId
          (barePrefix ++ ("weather".toList ++
            ("\x7bcity: <|\"|>a\x7d,b:\"\\<|\"|>, days:[1,-2]\x7d".toList ++ following))) =
        .ok (some { id := callId, name := "weather".toList, arguments := arguments }) := by
  have hitems := @RendersItems.cons Unit _ _ _ _ [] [] .nil .nil (.int 1)
    (@RendersItems.last Unit _ _ [] [] .nil .nil (.int (-2)))
  have hdays := @RendersFields.last Unit "days".toList _ _ " ".toList [] [] [] rfl (by decide)
    .nil .nil .nil (.list hitems)
  have hcity : Renders (O := Unit) (.str "a\x7d,b:\"\\".toList) _ := .str (by decide)
  have hfields := @RendersFields.cons Unit "city".toList _ _ _ _ [] [] " ".toList [] rfl .nil .nil
    (by decide) .nil hcity hdays
  have hrenders := Renders.dict (by decide) hfields
  obtain ⟨-, hroom, -⟩ := rendering_decodes defaults _ _ hrenders
  obtain ⟨-, arguments, -, hcall⟩ := hroom 3 (by decide)
  refine ⟨arguments, ?_⟩
  intro callId following
  have hweather := hcall { tools := [], forcedName := none } callId "weather".toList [] [] following
    .nil .nil (by decide) (List.all_iff_forall_prop.1 (by decide)) rfl
  exact hweather.2

/-- Lists in lists. -/
def nested : Nat → Value O
  | 0 => .list []
  | n + 1 => .list [nested n]

def nestedText : Nat → Text
  | 0 => "[]".toList
  | n + 1 => '[' :: (nestedText n ++ [']'])

theorem renders_nested (n : Nat) : Renders (nested n : Value O) (nestedText n) := by
  induction n with
  | zero => exact @Renders.emptyList _ [] .nil
  | succ n ih =>
    have hitems : RendersItems [(nested n : Value O)] (nestedText n) := by
      simpa using RendersItems.last Blank.nil Blank.nil ih
    exact .list hitems

theorem framesOf_nested (n : Nat) : framesOf (nested n : Value O) = n + 1 := by
  induction n with
  | zero => rfl
  | succ n ih => rw [nested, framesOf, framesOfItems, ih, framesOfItems, Nat.max_zero]

theorem renders_nestedField (n : Nat) : Renders (.dict [("a".toList, (nested n : Value O))])
      ('{' :: (('a' :: ':' :: nestedText n) ++ ['}'])) := by
  have hlast := @RendersFields.last O "a".toList _ _ [] [] [] [] rfl .nil .nil .nil .nil
    (renders_nested n)
  apply Renders.dict (by simp)
  simpa using hlast

theorem nestedField_refused {frames n : Nat} (hdeep : frames ≤ n + 1) :
    ∃ e, parseObject py frames ('{' :: (('a' :: ':' :: nestedText n) ++ ['}'])) [] = .error e ∧
      Refusal e := by
  have hobject : ReadsObject py _ _ := readsObject_of_renders (renders_nestedField n)
  apply (hobject.parse frames []).refused
  intro hroom
  have hdepth := hroom.1
  rw [framesOfFields, framesOf_nested, framesOfFields] at hdepth
  omega

/-- An object nested deeper than a recursion limit of 1000 is not returned,
and its call is refused. -/
theorem not_decodes_nested :
    Renders (.dict [("a".toList, (nested 1000 : Value Unit))])
        ('{' :: (('a' :: ':' :: nestedText 1000) ++ ['}'])) ∧
      parseObject defaults 1000 ('{' :: (('a' :: ':' :: nestedText 1000) ++ ['}'])) [] ≠
        .ok [("a".toList, nested 1000)] ∧
      parseCall defaults 1000 { tools := [], forcedName := none } []
          (barePrefix ++ ("f".toList ++ '{' :: (('a' :: ':' :: nestedText 1000) ++ ['}']))) =
        .error (.toolProtocolError .malformed) := by
  obtain ⟨e, he, hrefusal⟩ := @nestedField_refused Unit defaults 1000 1000 (by decide)
  refine ⟨renders_nestedField 1000, by rw [he]; simp, ?_⟩
  have hcall := @parseCall_eq Unit defaults { tools := [], forcedName := none } [] [] "f".toList
    ('a' :: ':' :: nestedText 1000) .nil .nil (by decide) (List.all_iff_forall_prop.1 (by decide))
    1000 []
  rw [List.nil_append, List.append_nil] at hcall
  have htypes : paramTypesFor "f".toList ({ tools := [], forcedName := none } : ToolConfig Unit) =
      [] := rfl
  rw [hcall, htypes, he, callOf_refused rfl hrefusal]

end EdgeLLM.Ports.ToolCalling.Gemma4
