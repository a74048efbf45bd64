import EdgeLLM.Ports.Utf8Sanitizer
import EdgeLLM.Verified.Utf8Text

/-!
# What the streaming sanitizer does to a text

The sanitizer keeps the well-formed sequences of its input and replaces the other
bytes, however the input is cut into buffers.  The exception is the end of the
input: the bytes held there are replaced one and all, even when well-formed
sequences follow the leader that was waiting for more.
-/

namespace EdgeLLM.Ports.Utf8

open Verified.Utf8Text

/-! ## The tests on bytes -/

theorem forall_byte {p : UInt8 → Prop} (h : ∀ n : Fin 256, p (UInt8.ofFin n)) (b : UInt8) :
    p b := h b.toFin

theorem leaderByteLen_eq (c : UInt8) : leaderByteLen c = announced c := by
  revert c
  apply forall_byte
  decide +kernel

theorem continuation_iff (b : UInt8) : b &&& 0xC0 = 0x80 ↔ Continues b := by
  revert b
  apply forall_byte
  decide +kernel

variable {c : UInt8} {input out : Bytes}
variable (a : UInt8)

theorem low_five : (a &&& 0x1F).toNat = a.toNat % 32 :=
  Nat.and_two_pow_sub_one_eq_mod a.toNat 5

theorem low_four : (a &&& 0x0F).toNat = a.toNat % 16 :=
  Nat.and_two_pow_sub_one_eq_mod a.toNat 4

theorem low_three : (a &&& 0x07).toNat = a.toNat % 8 :=
  Nat.and_two_pow_sub_one_eq_mod a.toNat 3

theorem low_six : (a &&& 0x3F).toNat = a.toNat % 64 :=
  Nat.and_two_pow_sub_one_eq_mod a.toNat 6

/-- A shift that loses no bit, with smaller bits under it. -/
theorem toNat_shift_or {x y : UInt32} {k : UInt32} (hk : k.toNat < 32)
    (hx : x.toNat * 2 ^ k.toNat < 2 ^ 32) (hy : y.toNat < 2 ^ k.toNat) :
    (x <<< k ||| y).toNat = x.toNat * 2 ^ k.toNat + y.toNat := by
  have hshift : (x <<< k).toNat = x.toNat <<< k.toNat := by
    rw [UInt32.toNat_shiftLeft, Nat.mod_eq_of_lt hk, Nat.shiftLeft_eq, Nat.mod_eq_of_lt hx]
  rw [UInt32.toNat_or, hshift, ← Nat.shiftLeft_add_eq_or_of_lt hy, Nat.shiftLeft_eq]

theorem decodeCodepoint_two (a b : UInt8) :
    (decodeCodepoint [a, b]).toNat = a.toNat % 32 * 64 + b.toNat % 64 := by
  rw [decodeCodepoint, toNat_shift_or] <;>
    simp only [UInt8.toNat_toUInt32, low_five, low_six, UInt32.reduceToNat] <;> omega

theorem decodeCodepoint_three (a b c : UInt8) : (decodeCodepoint [a, b, c]).toNat =
      a.toNat % 16 * 4096 + b.toNat % 64 * 64 + c.toNat % 64 := by
  have hlow : ((b &&& 0x3F).toUInt32 <<< 6 ||| (c &&& 0x3F).toUInt32).toNat =
      b.toNat % 64 * 64 + c.toNat % 64 := by
    rw [toNat_shift_or] <;>
      simp only [UInt8.toNat_toUInt32, low_six, UInt32.reduceToNat] <;> omega
  rw [decodeCodepoint, UInt32.or_assoc, toNat_shift_or] <;>
    simp only [hlow, UInt8.toNat_toUInt32, low_four, UInt32.reduceToNat] <;> omega

theorem decodeCodepoint_four (a b c d : UInt8) : (decodeCodepoint [a, b, c, d]).toNat =
      a.toNat % 8 * 262144 + b.toNat % 64 * 4096 + c.toNat % 64 * 64 + d.toNat % 64 := by
  have hlow : ((c &&& 0x3F).toUInt32 <<< 6 ||| (d &&& 0x3F).toUInt32).toNat =
      c.toNat % 64 * 64 + d.toNat % 64 := by
    rw [toNat_shift_or] <;>
      simp only [UInt8.toNat_toUInt32, low_six, UInt32.reduceToNat] <;> omega
  have hmiddle : ((b &&& 0x3F).toUInt32 <<< 12 |||
      ((c &&& 0x3F).toUInt32 <<< 6 ||| (d &&& 0x3F).toUInt32)).toNat =
      b.toNat % 64 * 4096 + (c.toNat % 64 * 64 + d.toNat % 64) := by
    rw [toNat_shift_or] <;>
      simp only [hlow, UInt8.toNat_toUInt32, low_six, UInt32.reduceToNat] <;> omega
  rw [decodeCodepoint, UInt32.or_assoc, UInt32.or_assoc, toNat_shift_or] <;>
    simp only [hmiddle, UInt8.toNat_toUInt32, low_three, UInt32.reduceToNat] <;> omega

theorem isValidCodepointForLen_iff (cp : UInt32) (need : Nat) :
    isValidCodepointForLen cp need = true ↔
      IsScalar cp.toNat ∧ (need = 2 → 0x80 ≤ cp.toNat) ∧ (need = 3 → 0x800 ≤ cp.toNat) ∧
        (need = 4 → 0x10000 ≤ cp.toNat) := by
  simp only [isValidCodepointForLen, IsScalar, UInt32.lt_iff_toNat_lt, UInt32.le_iff_toNat_le,
    UInt32.reduceToNat, Bool.and_eq_true, Bool.not_eq_true', decide_eq_false_iff_not]
  omega

/-- The sanitizer takes for a sequence what encodes a character. -/
theorem isCodepoint_iff {tail : Bytes} (hneed : leaderByteLen c = tail.length + 1) :
    isCodepoint c tail = true ↔ Encodes (c :: tail) := by
  have hcontinues : (tail.all fun b => b &&& 0xC0 = 0x80) = true ↔ ∀ b ∈ tail, Continues b := by
    simp only [List.all_eq_true, decide_eq_true_eq, continuation_iff]
  have hfour := announced_le_four c
  rw [leaderByteLen_eq] at hneed
  rw [isCodepoint, Bool.and_eq_true, hcontinues, isValidCodepointForLen_iff]
  match tail with
  | [] =>
    rw [encodes_one, decodeCodepoint, UInt8.toNat_toUInt32]
    have hlead : c.toNat < 0x80 := by
      unfold announced at hneed
      split_ifs at hneed <;> simp at hneed
      omega
    have hscalar : IsScalar c.toNat := .inl (by omega)
    simp [hlead, hscalar]
  | [b] =>
    rw [encodes_two, decodeCodepoint_two]
    have hlead : 0xC0 ≤ c.toNat ∧ c.toNat < 0xE0 := by
      unfold announced at hneed
      split_ifs at hneed <;> simp at hneed
      omega
    have hscalar : IsScalar (c.toNat % 32 * 64 + b.toNat % 64) := .inl (by omega)
    simp [hlead, hscalar]
  | [b, d] =>
    rw [encodes_three, decodeCodepoint_three]
    have hlead : 0xE0 ≤ c.toNat ∧ c.toNat < 0xF0 := by
      unfold announced at hneed
      split_ifs at hneed <;> simp at hneed
      omega
    simp [hlead]
    tauto
  | [b, d, e] =>
    rw [encodes_four, decodeCodepoint_four]
    have hlead : 0xF0 ≤ c.toNat ∧ c.toNat < 0xF8 := by
      unfold announced at hneed
      split_ifs at hneed <;> simp at hneed
      omega
    simp [hlead]
    tauto
  | b :: d :: e :: f :: rest =>
    simp only [List.length_cons] at hneed
    omega

/-! ## The scan, sequence by sequence -/

/-- The steps of `sanitizeUtf8Streaming` over its input: what it puts out and what
it holds. -/
inductive Scanned : Bytes → Bytes → Bytes → Prop
  | done : Scanned [] [] []
  | hold {c : UInt8} {rest : Bytes} :
      rest.length + 1 < leaderByteLen c → Scanned (c :: rest) [] (c :: rest)
  | keep {good rest out held : Bytes} :
      Encodes good → Scanned rest out held → Scanned (good ++ rest) (good ++ out) held
  | replace {c : UInt8} {rest out held : Bytes} :
      leaderByteLen c ≤ rest.length + 1 → (∀ good, Encodes good → ¬ good <+: c :: rest) →
        Scanned rest out held → Scanned (c :: rest) (kFFFD ++ out) held

theorem scan_copy : ∀ (n : Nat) (rest : Bytes), n ≤ rest.length →
      scan n rest = (rest.take n ++ (scan 0 (rest.drop n)).1, (scan 0 (rest.drop n)).2) := by
  intro n
  induction n with
  | zero =>
    intro rest _
    rfl
  | succ n ih =>
    intro rest hn
    cases rest with
    | nil => exact absurd hn (Nat.not_succ_le_zero n)
    | cons c rest =>
      rw [scan, ih rest (Nat.le_of_succ_le_succ hn)]
      rfl

/-- A leader whose announced bytes are all there leads an encoding, or none does. -/
theorem none_isPrefix {rest : Bytes} (hlong : leaderByteLen c ≤ rest.length + 1)
    (hbad : leaderByteLen c = 0 ∨ isCodepoint c (rest.take (leaderByteLen c - 1)) = false) :
    ∀ good, Encodes good → ¬ good <+: c :: rest := by
  intro good hgood hbegins
  match good with
  | [] => exact not_encodes_nil hgood
  | a :: tail =>
    rw [List.cons_prefix_cons] at hbegins
    obtain ⟨rfl, htail⟩ := hbegins
    have hneed : leaderByteLen a = tail.length + 1 := by
      rw [leaderByteLen_eq, hgood.shape.1]
    have htake : rest.take (leaderByteLen a - 1) = tail := by
      rw [hneed, Nat.add_sub_cancel]
      exact (List.prefix_iff_eq_take.1 htail).symm
    rw [htake, hneed] at hbad
    rcases hbad with hzero | hinvalid
    · exact absurd hzero (Nat.succ_ne_zero _)
    · rw [(isCodepoint_iff hneed).2 hgood] at hinvalid
      exact Bool.noConfusion hinvalid

theorem scanned (input : Bytes) : Scanned input (scan 0 input).1 (scan 0 input).2 := by
  induction hn : input.length using Nat.strong_induction_on generalizing input with
  | _ n ih =>
    subst hn
    cases input with
    | nil => exact .done
    | cons c rest =>
      have hrest := ih rest.length (Nat.lt_succ_self _) rest rfl
      rw [scan]
      by_cases hbad : leaderByteLen c = 0
      · rw [if_pos hbad]
        have hlong : leaderByteLen c ≤ rest.length + 1 := by omega
        exact .replace hlong (none_isPrefix hlong (.inl hbad)) hrest
      rw [if_neg hbad]
      by_cases hshort : rest.length + 1 < leaderByteLen c
      · rw [if_pos hshort]
        exact .hold hshort
      rw [if_neg hshort]
      by_cases hvalid : isCodepoint c (rest.take (leaderByteLen c - 1)) = true
      · have htake : (rest.take (leaderByteLen c - 1)).length = leaderByteLen c - 1 := by
          rw [List.length_take]
          omega
        have hgood : Encodes (c :: rest.take (leaderByteLen c - 1)) :=
          (isCodepoint_iff (by omega)).1 hvalid
        have hdrop := ih (rest.drop (leaderByteLen c - 1)).length
          (by rw [List.length_drop, List.length_cons]; omega) _ rfl
        have hkeep := Scanned.keep hgood hdrop
        rw [if_pos hvalid, scan_copy _ rest (by omega)]
        rw [List.cons_append, List.take_append_drop] at hkeep
        exact hkeep
      · rw [if_neg hvalid]
        have hlong : leaderByteLen c ≤ rest.length + 1 := Nat.le_of_not_lt hshort
        exact .replace hlong (none_isPrefix hlong (.inr (by simpa using hvalid))) hrest

/-- The held bytes are a truncated sequence: its leader wants more than there is. -/
theorem Scanned.held {input out held : Bytes} (h : Scanned input out held) :
    held = [] ∨ ∃ c rest, held = c :: rest ∧ rest.length + 1 < leaderByteLen c := by
  induction h with
  | done => exact .inl rfl
  | hold hshort => exact .inr ⟨_, _, rfl, hshort⟩
  | keep _ _ ih => exact ih
  | replace _ _ _ ih => exact ih

theorem Scanned.held_length {held : Bytes} (h : Scanned input out held) : held.length ≤ 3 := by
  rcases h.held with rfl | ⟨c, rest, rfl, hshort⟩
  · exact Nat.zero_le 3
  · have hfour := announced_le_four c
    rw [leaderByteLen_eq] at hshort
    rw [List.length_cons]
    omega

theorem Scanned.isText {held : Bytes} (h : Scanned input out held) : IsText out := by
  induction h with
  | done => exact isText_nil
  | hold => exact isText_nil
  | keep hgood _ ih => exact hgood.isText.append ih
  | replace _ _ _ ih => exact encodes_replacement.isText.append ih

theorem Scanned.suffix {held : Bytes} (h : Scanned input out held) : held <:+ input := by
  induction h with
  | done => exact List.suffix_refl _
  | hold => exact List.suffix_refl _
  | keep _ _ ih => exact ih.trans (List.suffix_append _ _)
  | replace _ _ _ ih => exact ih.trans (List.suffix_cons _ _)

/-- Repairing the input is repairing the held bytes after the output. -/
theorem Scanned.repaired_iff {held : Bytes} (h : Scanned input out held) (tail : Bytes) :
    Repaired input (out ++ tail) ↔ Repaired held tail := by
  induction h with
  | done => exact Iff.rfl
  | hold => exact Iff.rfl
  | @keep good rest out held hgood _ ih =>
    rw [← ih, List.append_assoc]
    constructor
    · intro hrepaired
      obtain ⟨other, hout, hrest⟩ := hrepaired.of_encodes hgood
      rw [List.append_cancel_left hout]
      exact hrest
    · exact Repaired.keep hgood
  | @replace c rest out held _ hnone _ ih =>
    rw [← ih, List.append_assoc]
    constructor
    · intro hrepaired
      obtain ⟨other, hout, hrest⟩ := hrepaired.of_none hnone
      rw [List.append_cancel_left hout]
      exact hrest
    · exact Repaired.replace hnone

/-! ## The end of the input -/

/-- The input ends in a sequence that is cut short, and a well-formed sequence
stands among the bytes its leader was waiting with. -/
def CutShort (raw : Bytes) : Prop :=
  ∃ c rest, c :: rest <:+ raw ∧ rest.length + 1 < leaderByteLen c ∧
    ∃ good, Encodes good ∧ good <:+: rest

/-- A truncated sequence at the end of the input is held, from an earlier leader
on if there is one. -/
theorem Scanned.holds {held : Bytes} (h : Scanned input out held) {tail : Bytes}
    (hsuffix : c :: tail <:+ input) (hshort : tail.length + 1 < leaderByteLen c) :
    c :: tail <:+ held := by
  induction h with
  | done => exact absurd (List.suffix_nil.1 hsuffix) (List.cons_ne_nil c tail)
  | hold => exact hsuffix
  | @keep good rest out held hgood _ ih =>
    apply ih
    rw [leaderByteLen_eq] at hshort
    obtain ⟨before, hbytes⟩ := hsuffix
    rcases List.append_eq_append_iff.1 hbytes with ⟨mid, hgoodEq, hrest⟩ | ⟨mid, _, hrest⟩
    · cases mid with
      | nil => exact hrest ▸ List.suffix_refl _
      | cons c' mid =>
        -- the leader would stand inside the sequence that was kept
        rw [List.cons_append, List.cons.injEq] at hrest
        obtain ⟨rfl, rfl⟩ := hrest
        rw [List.length_append] at hshort
        cases before with
        | nil =>
          rw [hgoodEq, List.nil_append] at hgood
          have hshape := hgood.shape.1
          omega
        | cons b before =>
          rw [hgoodEq] at hgood
          have hinside := hgood.shape.2 c (by simp)
          rw [announced_of_continues hinside] at hshort
          exact absurd hshort (Nat.not_lt_zero _)
    · exact hrest ▸ List.suffix_append _ _
  | @replace c' rest out held hlong _ _ ih =>
    apply ih
    rcases List.suffix_cons_iff.1 hsuffix with hsame | hrest
    · rw [List.cons.injEq] at hsame
      rw [hsame.1, hsame.2] at hshort
      exact absurd hshort (Nat.not_lt.2 hlong)
    · exact hrest

/-- At most two bytes are repaired by replacing them all exactly when no sequence
stands among them. -/
theorem repaired_flush_iff : ∀ rest : Bytes, rest.length ≤ 2 →
      (Repaired rest (sanitizeUtf8Flush rest) ↔ ∀ good, Encodes good → ¬ good <:+: rest) := by
  intro rest
  induction rest with
  | nil =>
    intro _
    apply iff_of_true .nil
    intro good hgood hoccurs
    rw [List.infix_nil.1 hoccurs] at hgood
    exact not_encodes_nil hgood
  | cons b rest ih =>
    intro htwo
    have hflush : sanitizeUtf8Flush (b :: rest) = replacement ++ sanitizeUtf8Flush rest := rfl
    have hrest := ih (by rw [List.length_cons] at htwo; omega)
    by_cases hsome : ∃ good, Encodes good ∧ good <+: b :: rest
    · obtain ⟨good, hgood, tail, htail⟩ := hsome
      have hlength := congrArg List.length htail
      rw [List.length_append] at hlength
      apply iff_of_false
      · -- a kept sequence would have to be U+FFFD, which is too long
        intro hrepaired
        rw [← htail] at hrepaired
        obtain ⟨other, hout, _⟩ := hrepaired.of_encodes hgood
        rw [htail, hflush] at hout
        have hsame := encodes_replacement.eq_of_append hgood hout
        rw [← hsame] at hlength
        simp only [replacement, List.length_cons, List.length_nil] at hlength htwo
        omega
      · intro hnone
        exact hnone good hgood ⟨[], tail, htail⟩
    · have hnone : ∀ good, Encodes good → ¬ good <+: b :: rest :=
        fun good hgood hbegins => hsome ⟨good, hgood, hbegins⟩
      constructor
      · intro hrepaired good hgood hoccurs
        rw [hflush] at hrepaired
        obtain ⟨other, hout, hother⟩ := hrepaired.of_none hnone
        rw [← List.append_cancel_left hout] at hother
        rcases List.infix_cons_iff.1 hoccurs with hbegins | hinside
        · exact hnone good hgood hbegins
        · exact hrest.1 hother good hgood hinside
      · intro hoccurs
        rw [hflush]
        apply Repaired.replace hnone
        apply hrest.2
        intro good hgood hinside
        exact hoccurs good hgood (List.infix_cons hinside)

/-- A truncated sequence is repaired by replacing all its bytes exactly when no
sequence stands behind its leader. -/
theorem repaired_held_iff {rest : Bytes} (hshort : rest.length + 1 < leaderByteLen c) :
    Repaired (c :: rest) (sanitizeUtf8Flush (c :: rest)) ↔
      ∀ good, Encodes good → ¬ good <:+: rest := by
  have hfour := announced_le_four c
  rw [leaderByteLen_eq] at hshort
  have hnone : ∀ good, Encodes good → ¬ good <+: c :: rest := by
    intro good hgood hbegins
    match good with
    | [] => exact not_encodes_nil hgood
    | a :: tail =>
      rw [List.cons_prefix_cons] at hbegins
      obtain ⟨rfl, htail⟩ := hbegins
      have hlength := htail.length_le
      have hshape := hgood.shape.1
      omega
  have hflush : sanitizeUtf8Flush (c :: rest) = replacement ++ sanitizeUtf8Flush rest := rfl
  rw [← repaired_flush_iff rest (by omega), hflush]
  constructor
  · intro hrepaired
    obtain ⟨other, hout, hother⟩ := hrepaired.of_none hnone
    rw [List.append_cancel_left hout]
    exact hother
  · exact Repaired.replace hnone

/-- One pass repairs its input unless the input is cut short over a sequence. -/
theorem repaired_sanitized_iff (raw : Bytes) : Repaired raw (sanitized raw) ↔ ¬ CutShort raw := by
  have hscan := scanned raw
  have hraw : sanitized raw = (scan 0 raw).1 ++ sanitizeUtf8Flush (scan 0 raw).2 := rfl
  rw [hraw, hscan.repaired_iff]
  constructor
  · intro hrepaired hcut
    obtain ⟨c, rest, hsuffix, hshort, good, hgood, hoccurs⟩ := hcut
    have hholds := hscan.holds hsuffix hshort
    rcases hscan.held with hnil | ⟨c', rest', hheld, hshort'⟩
    · rw [hnil] at hholds
      exact absurd (List.suffix_nil.1 hholds) (List.cons_ne_nil _ _)
    · rw [hheld] at hrepaired hholds
      apply (repaired_held_iff hshort').1 hrepaired good hgood
      rcases List.suffix_cons_iff.1 hholds with hsame | hinside
      · rw [List.cons.injEq] at hsame
        rw [← hsame.2]
        exact hoccurs
      · exact hoccurs.trans ((List.suffix_cons c rest).trans hinside).isInfix
  · intro hwhole
    rcases hscan.held with hnil | ⟨c, rest, hheld, hshort⟩
    · rw [hnil]
      exact .nil
    · rw [hheld, repaired_held_iff hshort]
      intro good hgood hoccurs
      exact hwhole ⟨c, rest, hheld ▸ hscan.suffix, hshort, good, hgood, hoccurs⟩

/-! ## Buffer by buffer -/

/-- The text put out for some buffers and the flush after them. -/
def streamed : List Bytes → Bytes → Bytes
  | [], pending => sanitizeUtf8Flush pending
  | buffer :: buffers, pending =>
    (sanitizeUtf8Streaming buffer pending).1 ++
      streamed buffers (sanitizeUtf8Streaming buffer pending).2

/-- The bytes pending after each buffer. -/
def pendings : List Bytes → Bytes → List Bytes
  | [], _ => []
  | buffer :: buffers, pending =>
    (sanitizeUtf8Streaming buffer pending).2 ::
      pendings buffers (sanitizeUtf8Streaming buffer pending).2

theorem streamed_eq : ∀ (buffers : List Bytes) (pending : Bytes),
      sanitizeUtf8Streaming [] pending = ([], pending) → streamed buffers pending =
          (sanitizeUtf8Streaming buffers.flatten pending).1 ++
            sanitizeUtf8Flush (sanitizeUtf8Streaming buffers.flatten pending).2 := by
  intro buffers
  induction buffers with
  | nil =>
    intro pending hheld
    rw [List.flatten_nil, hheld]
    rfl
  | cons buffer buffers ih =>
    intro pending _
    rw [List.flatten_cons, sanitizeUtf8Streaming_append, streamed,
      ih _ (sanitizeUtf8Streaming_held buffer pending), List.append_assoc]

theorem pendings_length :
    ∀ (buffers : List Bytes) (pending held : Bytes), held ∈ pendings buffers pending →
      held.length ≤ 3 := by
  intro buffers
  induction buffers with
  | nil =>
    intro pending held hheld
    exact absurd hheld List.not_mem_nil
  | cons buffer buffers ih =>
    intro pending held hheld
    rcases List.mem_cons.1 hheld with rfl | hlater
    · exact (scanned _).held_length
    · exact ih _ held hlater

/-- However the bytes are cut into buffers, the output is the one-pass output, is a
text, and repairs the bytes; and at most three bytes are ever pending. -/
def ExactlySanitized (raw : Bytes) : Prop :=
  ∀ buffers : List Bytes, buffers.flatten = raw →
    streamed buffers [] = sanitized raw ∧ IsText (streamed buffers []) ∧
      Repaired raw (streamed buffers []) ∧ ∀ held ∈ pendings buffers [], held.length ≤ 3

theorem isText_flush (pending : Bytes) : IsText (sanitizeUtf8Flush pending) := by
  induction pending with
  | nil => exact isText_nil
  | cons b pending ih => exact encodes_replacement.isText.append ih

/-- The sanitizer is exact on the bytes that do not end in a truncated sequence with
a well-formed one behind its leader. -/
theorem sanitizeUtf8_exact_iff (raw : Bytes) : ExactlySanitized raw ↔ ¬ CutShort raw := by
  rw [← repaired_sanitized_iff]
  constructor
  · intro hexact
    obtain ⟨hsame, _, hrepaired, _⟩ := hexact [raw] (by simp)
    rw [← hsame]
    exact hrepaired
  · intro hrepaired buffers hbuffers
    have hsame : streamed buffers [] = sanitized raw := by
      rw [streamed_eq buffers [] rfl, hbuffers]
      rfl
    rw [hsame]
    exact ⟨rfl, (scanned raw).isText.append (isText_flush _), hrepaired,
      pendings_length buffers []⟩

/-- A three-byte leader and then the letter A: the letter is lost. -/
theorem not_exactlySanitized_truncated : ¬ ExactlySanitized [0xE2, 0x41] := by
  intro hexact
  obtain ⟨hsame, _, hrepaired, _⟩ := hexact [[0xE2, 0x41]] rfl
  rw [hsame, repaired_sanitized_iff] at hrepaired
  exact hrepaired ⟨0xE2, [0x41], List.suffix_refl _, by decide, [0x41],
    (encodes_one _).2 (by decide), List.infix_refl _⟩

/-! ## Texts -/

theorem Scanned.same {held : Bytes} (h : Scanned input out held) {chars : List Char}
    (htext : input = chars.flatMap String.utf8EncodeChar) : out = input ∧ held = [] := by
  induction h generalizing chars with
  | done => exact ⟨rfl, rfl⟩
  | @hold c rest hshort =>
    cases chars with
    | nil => cases htext
    | cons ch chars =>
      rw [List.flatMap_cons] at htext
      have hencodes : Encodes (String.utf8EncodeChar ch) := ⟨ch, rfl⟩
      generalize String.utf8EncodeChar ch = good at hencodes htext
      cases good with
      | nil => exact absurd hencodes not_encodes_nil
      | cons a tail =>
        rw [List.cons_append, List.cons.injEq] at htext
        obtain ⟨rfl, rfl⟩ := htext
        have hlength := hencodes.shape.1
        rw [List.length_append, leaderByteLen_eq] at hshort
        omega
  | @keep good rest out held hgood _ ih =>
    cases chars with
    | nil =>
      rw [(List.append_eq_nil_iff.1 htext).1] at hgood
      exact absurd hgood not_encodes_nil
    | cons ch chars =>
      rw [List.flatMap_cons] at htext
      obtain rfl := hgood.eq_of_append ⟨ch, rfl⟩ htext
      obtain ⟨hsame, hheld⟩ := ih (List.append_cancel_left htext)
      exact ⟨by rw [hsame], hheld⟩
  | replace _ hnone _ _ =>
    cases chars with
    | nil => cases htext
    | cons ch chars => exact absurd ⟨_, htext.symm⟩ (hnone _ ⟨ch, rfl⟩)

theorem isText_sanitized (raw : Bytes) : IsText (sanitized raw) :=
  (scanned raw).isText.append (isText_flush _)

theorem sanitized_of_isText {raw : Bytes} (h : IsText raw) : sanitized raw = raw := by
  obtain ⟨chars, hchars⟩ := h
  obtain ⟨hsame, hheld⟩ := (scanned raw).same hchars
  rw [sanitized, sanitizeUtf8Streaming, List.nil_append, hsame, hheld]
  exact List.append_nil raw

theorem streamed_sanitized (buffers : List Bytes) :
    streamed buffers [] = sanitized buffers.flatten := by
  rw [streamed_eq buffers [] rfl]
  rfl

/-- Buffers pass unchanged exactly when together they are a text, and a second pass changes
nothing. -/
theorem streamed_unchanged_iff (buffers : List Bytes) :
    (streamed buffers [] = buffers.flatten ↔ IsText buffers.flatten) ∧
      ∀ again : List Bytes, again.flatten = streamed buffers [] →
        streamed again [] = streamed buffers [] := by
  rw [streamed_sanitized]
  refine ⟨⟨fun hsame => hsame ▸ isText_sanitized _, sanitized_of_isText⟩, ?_⟩
  intro again hagain
  rw [streamed_sanitized, hagain]
  exact sanitized_of_isText (isText_sanitized _)

end EdgeLLM.Ports.Utf8
