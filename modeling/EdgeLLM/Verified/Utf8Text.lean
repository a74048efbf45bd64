import Mathlib.Data.Fintype.Basic

/-!
# UTF-8 texts as byte lists

The encoding of one character is core's `String.utf8EncodeChar`; a text is a
concatenation of such encodings.  `encodes_iff` reads the encodings off their
bytes, and `Repaired` says what it means to keep the well-formed sequences of
arbitrary bytes, found from the left, and to replace every other byte.
-/

namespace EdgeLLM.Verified.Utf8Text

/-- The bytes are the encoding of one character. -/
def Encodes (bytes : List UInt8) : Prop :=
  ∃ ch : Char, bytes = String.utf8EncodeChar ch

/-- The bytes are the encodings of some characters. -/
def IsText (bytes : List UInt8) : Prop :=
  ∃ chars : List Char, bytes = chars.flatMap String.utf8EncodeChar

/-- Scalar values: what a character can be. -/
def IsScalar (v : Nat) : Prop := v < 0xD800 ∨ 0xDFFF < v ∧ v < 0x110000

instance (v : Nat) : Decidable (IsScalar v) := inferInstanceAs (Decidable (_ ∨ _))

/-- A byte that continues a sequence. -/
def Continues (b : UInt8) : Prop := 0x80 ≤ b.toNat ∧ b.toNat < 0xC0

instance (b : UInt8) : Decidable (Continues b) := inferInstanceAs (Decidable (_ ∧ _))

theorem isScalar_toNat (ch : Char) : IsScalar ch.toNat := by
  have hvalid := ch.valid
  rcases hvalid with hlow | ⟨hlow, hhigh⟩
  · exact .inl hlow
  · exact .inr ⟨hlow, hhigh⟩

/-- Every scalar value is some character's. -/
theorem exists_char {v : Nat} (hv : IsScalar v) : ∃ ch : Char, ch.toNat = v := by
  have hvalid : v.isValidChar := by
    rcases hv with hlow | ⟨hlow, hhigh⟩
    · exact .inl hlow
    · exact .inr ⟨hlow, hhigh⟩
  refine ⟨Char.ofNat v, ?_⟩
  rw [Char.ofNat, dif_pos hvalid]
  rfl

theorem encodeChar_toNat (ch : Char) : (String.utf8EncodeChar ch).map UInt8.toNat =
      if ch.toNat ≤ 0x7F then [ch.toNat]
      else if ch.toNat ≤ 0x7FF then [ch.toNat / 64 % 32 + 0xC0, ch.toNat % 64 + 0x80]
      else if ch.toNat ≤ 0xFFFF then
        [ch.toNat / 4096 % 16 + 0xE0, ch.toNat / 64 % 64 + 0x80, ch.toNat % 64 + 0x80] else
        [ch.toNat / 262144 % 8 + 0xF0, ch.toNat / 4096 % 64 + 0x80,
          ch.toNat / 64 % 64 + 0x80, ch.toNat % 64 + 0x80] := by
  have hval : ch.val.toNat = ch.toNat := rfl
  rw [String.utf8EncodeChar, hval]
  split_ifs <;> simp <;> omega

/-- Bytes are compared through their values. -/
theorem map_toNat_inj {xs ys : List UInt8} : xs.map UInt8.toNat = ys.map UInt8.toNat ↔ xs = ys :=
  List.map_inj_right (fun _ _ h => UInt8.toNat_inj.1 h)

theorem encodes_iff_map (bytes : List UInt8) :
    Encodes bytes ↔ ∃ v, IsScalar v ∧ bytes.map UInt8.toNat = if v ≤ 0x7F then [v]
      else if v ≤ 0x7FF then [v / 64 % 32 + 0xC0, v % 64 + 0x80]
      else if v ≤ 0xFFFF then [v / 4096 % 16 + 0xE0, v / 64 % 64 + 0x80, v % 64 + 0x80] else
        [v / 262144 % 8 + 0xF0, v / 4096 % 64 + 0x80, v / 64 % 64 + 0x80, v % 64 + 0x80] := by
  constructor
  · intro h
    obtain ⟨ch, rfl⟩ := h
    exact ⟨ch.toNat, isScalar_toNat ch, encodeChar_toNat ch⟩
  · intro h
    obtain ⟨v, hv, hbytes⟩ := h
    obtain ⟨ch, rfl⟩ := exists_char hv
    rw [← encodeChar_toNat, map_toNat_inj] at hbytes
    exact ⟨ch, hbytes⟩

/-- One byte: the ASCII characters. -/
theorem encodes_one (a : UInt8) : Encodes [a] ↔ a.toNat < 0x80 := by
  rw [encodes_iff_map]
  constructor
  · intro h
    obtain ⟨v, hv, hbytes⟩ := h
    split_ifs at hbytes <;> simp at hbytes
    omega
  · intro h
    refine ⟨a.toNat, .inl (by omega), ?_⟩
    rw [if_pos (by omega)]
    rfl

/-- Two bytes: no overlong form. -/
theorem encodes_two (a b : UInt8) : Encodes [a, b] ↔
      (0xC0 ≤ a.toNat ∧ a.toNat < 0xE0) ∧ Continues b ∧
        0x80 ≤ a.toNat % 32 * 64 + b.toNat % 64 := by
  rw [encodes_iff_map]
  constructor
  · intro h
    obtain ⟨v, hv, hbytes⟩ := h
    split_ifs at hbytes <;> simp at hbytes
    unfold Continues
    omega
  · intro h
    obtain ⟨ha, hb, hv⟩ := h
    unfold Continues at hb
    refine ⟨a.toNat % 32 * 64 + b.toNat % 64, .inl (by omega), ?_⟩
    rw [if_neg (by omega), if_pos (by omega)]
    simp only [List.map_cons, List.map_nil, List.cons.injEq, and_true]
    omega

/-- Three bytes: no overlong form and no surrogate. -/
theorem encodes_three (a b c : UInt8) : Encodes [a, b, c] ↔
      (0xE0 ≤ a.toNat ∧ a.toNat < 0xF0) ∧ Continues b ∧ Continues c ∧
        0x800 ≤ a.toNat % 16 * 4096 + b.toNat % 64 * 64 + c.toNat % 64 ∧
        IsScalar (a.toNat % 16 * 4096 + b.toNat % 64 * 64 + c.toNat % 64) := by
  rw [encodes_iff_map]
  constructor
  · intro h
    obtain ⟨v, hv, hbytes⟩ := h
    split_ifs at hbytes <;> simp at hbytes
    have hvalue : a.toNat % 16 * 4096 + b.toNat % 64 * 64 + c.toNat % 64 = v := by omega
    rw [hvalue]
    unfold Continues
    refine ⟨?_, ?_, ?_, ?_, hv⟩ <;> omega
  · intro h
    obtain ⟨ha, hb, hc, hlong, hv⟩ := h
    unfold Continues at hb hc
    refine ⟨_, hv, ?_⟩
    rw [if_neg (by omega), if_neg (by omega), if_pos (by omega)]
    simp only [List.map_cons, List.map_nil, List.cons.injEq, and_true]
    omega

/-- Four bytes: no overlong form and nothing above U+10FFFF. -/
theorem encodes_four (a b c d : UInt8) : Encodes [a, b, c, d] ↔
      (0xF0 ≤ a.toNat ∧ a.toNat < 0xF8) ∧ Continues b ∧ Continues c ∧ Continues d ∧
        0x10000 ≤ a.toNat % 8 * 262144 + b.toNat % 64 * 4096 + c.toNat % 64 * 64 + d.toNat % 64 ∧
        IsScalar
          (a.toNat % 8 * 262144 + b.toNat % 64 * 4096 + c.toNat % 64 * 64 + d.toNat % 64) := by
  rw [encodes_iff_map]
  constructor
  · intro h
    obtain ⟨v, hv, hbytes⟩ := h
    split_ifs at hbytes <;> simp at hbytes
    have hbound : v < 0x110000 := by
      unfold IsScalar at hv
      omega
    have hvalue : a.toNat % 8 * 262144 + b.toNat % 64 * 4096 + c.toNat % 64 * 64 +
        d.toNat % 64 = v := by omega
    rw [hvalue]
    unfold Continues
    refine ⟨?_, ?_, ?_, ?_, ?_, hv⟩ <;> omega
  · intro h
    obtain ⟨ha, hb, hc, hd, hlong, hv⟩ := h
    unfold Continues at hb hc hd
    refine ⟨_, hv, ?_⟩
    rw [if_neg (by omega), if_neg (by omega), if_neg (by omega)]
    simp only [List.map_cons, List.map_nil, List.cons.injEq, and_true]
    omega

/-! ## Leaders and continuation bytes -/

/-- How many bytes the leader announces; 0 for a byte that leads nothing. -/
def announced (a : UInt8) : Nat :=
  if a.toNat < 0x80 then 1
  else if a.toNat < 0xC0 then 0
  else if a.toNat < 0xE0 then 2
  else if a.toNat < 0xF0 then 3
  else if a.toNat < 0xF8 then 4
  else 0

theorem announced_le_four (a : UInt8) : announced a ≤ 4 := by
  unfold announced
  split_ifs <;> omega

theorem announced_of_continues {a : UInt8} (h : Continues a) : announced a = 0 := by
  unfold Continues at h
  rw [announced, if_neg (by omega), if_pos (by omega)]

theorem not_encodes_nil : ¬ Encodes [] := by
  intro h
  obtain ⟨ch, hch⟩ := h
  have hlength := String.length_utf8EncodeChar ch
  rw [← hch, List.length_nil] at hlength
  have hpos := ch.utf8Size_pos
  omega

theorem Encodes.length_le_four {bytes : List UInt8} (h : Encodes bytes) : bytes.length ≤ 4 := by
  obtain ⟨ch, rfl⟩ := h
  rw [String.length_utf8EncodeChar]
  exact ch.utf8Size_le_four

/-- An encoding has the length its leader announces, and continuation bytes
follow. -/
theorem Encodes.shape {a : UInt8} {tail : List UInt8} (h : Encodes (a :: tail)) :
    tail.length + 1 = announced a ∧ ∀ b ∈ tail, Continues b := by
  have hlength := h.length_le_four
  match tail with
  | [] =>
    rw [encodes_one] at h
    exact ⟨by rw [announced, if_pos h]; rfl, by simp⟩
  | [b] =>
    rw [encodes_two] at h
    refine ⟨?_, by simpa using h.2.1⟩
    rw [announced, if_neg (by omega), if_neg (by omega), if_pos (by omega)]
    rfl
  | [b, c] =>
    rw [encodes_three] at h
    refine ⟨?_, by simpa using ⟨h.2.1, h.2.2.1⟩⟩
    rw [announced, if_neg (by omega), if_neg (by omega), if_neg (by omega), if_pos (by omega)]
    rfl
  | [b, c, d] =>
    rw [encodes_four] at h
    refine ⟨?_, by simpa using ⟨h.2.1, h.2.2.1, h.2.2.2.1⟩⟩
    rw [announced, if_neg (by omega), if_neg (by omega), if_neg (by omega), if_neg (by omega),
      if_pos (by omega)]
    rfl
  | b :: c :: d :: e :: rest =>
    simp only [List.length_cons] at hlength
    omega

/-- Two encodings at one position are the same. -/
theorem Encodes.eq_of_append {xs ys r s : List UInt8} (hx : Encodes xs) (hy : Encodes ys)
    (h : xs ++ r = ys ++ s) : xs = ys := by
  match xs, ys with
  | [], _ => exact absurd hx not_encodes_nil
  | _, [] => exact absurd hy not_encodes_nil
  | a :: xs, b :: ys =>
    rw [List.cons_append, List.cons_append, List.cons.injEq] at h
    obtain ⟨rfl, h⟩ := h
    have hlength := hx.shape.1.trans hy.shape.1.symm
    have hsame := List.append_inj_left h (by omega)
    rw [hsame]

theorem isText_nil : IsText [] := ⟨[], rfl⟩

theorem Encodes.isText {bytes : List UInt8} (h : Encodes bytes) : IsText bytes := by
  obtain ⟨ch, rfl⟩ := h
  exact ⟨[ch], by simp⟩

theorem IsText.append {xs ys : List UInt8} (hx : IsText xs) (hy : IsText ys) :
    IsText (xs ++ ys) := by
  obtain ⟨cs, rfl⟩ := hx
  obtain ⟨ds, rfl⟩ := hy
  exact ⟨cs ++ ds, by rw [List.flatMap_append]⟩

/-! ## Repairing bytes -/

/-- U+FFFD REPLACEMENT CHARACTER, encoded. -/
def replacement : List UInt8 := [0xEF, 0xBF, 0xBD]

theorem encodes_replacement : Encodes replacement := by
  rw [replacement, encodes_three]
  decide

/-- Reading from the left, encodings stay as they are and every other byte is
replaced. -/
inductive Repaired : List UInt8 → List UInt8 → Prop
  | nil : Repaired [] []
  | keep {good rest out : List UInt8} :
      Encodes good → Repaired rest out → Repaired (good ++ rest) (good ++ out)
  | replace {b : UInt8} {rest out : List UInt8} :
      (∀ good, Encodes good → ¬ good <+: b :: rest) → Repaired rest out →
        Repaired (b :: rest) (replacement ++ out)

/-- Where an encoding stands, the repair keeps it. -/
theorem Repaired.of_encodes {good rest out : List UInt8} (hgood : Encodes good)
    (h : Repaired (good ++ rest) out) : ∃ tail, out = good ++ tail ∧ Repaired rest tail := by
  generalize hbytes : good ++ rest = bytes at h
  cases h with
  | nil =>
    rw [List.append_eq_nil_iff] at hbytes
    rw [hbytes.1] at hgood
    exact absurd hgood not_encodes_nil
  | @keep other rest' out' hother hrest =>
    have hsame := hgood.eq_of_append hother hbytes
    rw [← hsame] at hbytes ⊢
    rw [List.append_cancel_left hbytes]
    exact ⟨out', rfl, hrest⟩
  | replace hnone _ => exact absurd ⟨rest, hbytes⟩ (hnone good hgood)

/-- Where none stands, the repair replaces a byte. -/
theorem Repaired.of_none {b : UInt8} {rest out : List UInt8}
    (hnone : ∀ good, Encodes good → ¬ good <+: b :: rest) (h : Repaired (b :: rest) out) :
    ∃ tail, out = replacement ++ tail ∧ Repaired rest tail := by
  generalize hbytes : b :: rest = bytes at h
  cases h with
  | nil => exact absurd hbytes (List.cons_ne_nil b rest)
  | keep hgood _ => exact absurd (hbytes ▸ List.prefix_append _ _) (hnone _ hgood)
  | replace _ hrest =>
    rw [List.cons.injEq] at hbytes
    rw [hbytes.2]
    exact ⟨_, rfl, hrest⟩

end EdgeLLM.Verified.Utf8Text
