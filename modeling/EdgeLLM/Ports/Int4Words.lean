import EdgeLLM.Verified.Placement
import Mathlib.Tactic.Ring

/-!
# Nibbles of a quantized checkpoint

A checkpoint packs eight 4-bit codes in a 32-bit word.  The kernels multiply
`(code - 8)` by a scale, so a code stored against another zero point is
re-centred and clamped before it is packed again.
-/

namespace EdgeLLM.Ports.Int4

open Verified

/-- `(word >> (4 * i)) & 0xF`, the shift of a signed word. -/
def nibble (word : BitVec 32) (i : Nat) : BitVec 32 := word.sshiftRight (4 * i) &&& 0xF#32

/-- `max(0, min(15, value))` of signed words. -/
def clampNibble (value : BitVec 32) : BitVec 32 :=
  if value.slt 0#32 then 0#32 else if (15#32).slt value then 15#32 else value

/-- The code against the midpoint 8 that stands for `value` against the zero
point `zero + zeroPointOffset`. -/
def recentre (zeroPointOffset value zero : BitVec 32) : BitVec 32 :=
  clampNibble (value - zero - zeroPointOffset + 8#32)

/-- A 4-bit code in a machine word. -/
abbrev Nibble := { value : BitVec 32 // value.toNat < 16 }

/-- `word |= digit << (4 * i)` for `i` below `n`. -/
def pack {w : Nat} (n : Nat) (digit : Nat → BitVec w) : BitVec w :=
  (List.range n).foldl (fun word i => word ||| digit i <<< (4 * i)) 0

/-! ## Codes stay codes -/

theorem nibble_lt (word : BitVec 32) (i : Nat) : (nibble word i).toNat < 16 := by
  unfold nibble
  rw [BitVec.toNat_and, show (15#32 : BitVec 32).toNat = 2 ^ 4 - 1 from rfl,
    Nat.and_two_pow_sub_one_eq_mod]
  omega

theorem clampNibble_lt (value : BitVec 32) : (clampNibble value).toNat < 16 := by
  unfold clampNibble
  by_cases hneg : value.slt 0#32
  · rw [if_pos hneg]
    decide
  · rw [if_neg hneg]
    by_cases hbig : (15#32).slt value
    · rw [if_pos hbig]
      decide
    · rw [if_neg hbig]
      simp only [BitVec.slt, BitVec.toInt_eq_toNat_cond] at hneg hbig
      simp at hneg hbig
      split at hneg <;> split at hbig <;> omega

theorem clampNibble_of_lt {value : BitVec 32} (h : value.toNat < 16) :
    clampNibble value = value := by
  have hint : value.toInt = value.toNat := by
    rw [BitVec.toInt_eq_toNat_cond, if_pos (by omega)]
  unfold clampNibble
  rw [if_neg (by simp [BitVec.slt, hint]), if_neg]
  simp only [BitVec.slt, hint, decide_eq_true_eq]
  simp
  omega

theorem recentre_lt (zeroPointOffset value zero : BitVec 32) :
    (recentre zeroPointOffset value zero).toNat < 16 :=
  clampNibble_lt _

/-- Re-centring from the midpoint changes nothing. -/
theorem recentre_midpoint {zeroPointOffset value : BitVec 32} (h : value.toNat < 16) :
    recentre zeroPointOffset value (8#32 - zeroPointOffset) = value := by
  have hcancel : value - (8#32 - zeroPointOffset) - zeroPointOffset + 8#32 = value := by
    ring
  rw [recentre, hcancel, clampNibble_of_lt h]

/-! ## Packing -/

section Pack

variable {w n : Nat} {digit digit' : Nat → BitVec w}

@[simp] theorem pack_zero : pack 0 digit = 0 := rfl

theorem pack_succ : pack (n + 1) digit = pack n digit ||| digit n <<< (4 * n) := by
  unfold pack
  rw [List.range_succ, List.foldl_append]
  rfl

theorem pack_congr (h : ∀ i < n, digit i = digit' i) : pack n digit = pack n digit' := by
  induction n with
  | zero => rfl
  | succ n ih => rw [pack_succ, pack_succ, ih fun i hi => h i (by omega), h n (by omega)]

/-- Truncating a packed word packs the truncated digits. -/
theorem pack_setWidth {v : Nat} (hv : v ≤ w) :
    (pack n digit).setWidth v = pack n fun i => (digit i).setWidth v := by
  induction n with
  | zero => simp
  | succ n ih =>
    rw [pack_succ, pack_succ, BitVec.setWidth_or, ih]
    congr 1
    apply BitVec.eq_of_getLsbD_eq
    intro j hj
    simp only [BitVec.getLsbD_setWidth, BitVec.getLsbD_shiftLeft, hj, decide_true, Bool.true_and]
    by_cases hsmall : j < 4 * n
    · simp [hsmall]
    · have hlt : j < w := by omega
      have hsub : j - 4 * n < v := by omega
      simp [hsmall, hlt, hsub]

theorem getLsbD_pack (hlt : ∀ i < n, (digit i).toNat < 16) {b : Nat} (hb : b < w) :
    (pack n digit).getLsbD b = (decide (b < 4 * n) && (digit (b / 4)).getLsbD (b % 4)) := by
  induction n with
  | zero => simp
  | succ n ih =>
    rw [pack_succ, BitVec.getLsbD_or, ih fun i hi => hlt i (by omega), BitVec.getLsbD_shiftLeft]
    have hdigit := hlt n (by omega)
    by_cases hbelow : b < 4 * n
    · simp [hbelow, show b < 4 * (n + 1) by omega]
    · by_cases hin : b < 4 * n + 4
      · have hdiv : b / 4 = n := by omega
        have hmod : b - 4 * n = b % 4 := by omega
        simp [hbelow, hb, hdiv, hmod, show b < 4 * (n + 1) by omega]
      · have hhigh : (digit n).getLsbD (b - 4 * n) = false := by
          rw [← BitVec.testBit_toNat]
          apply Nat.testBit_lt_two_pow
          have hpow : 2 ^ 4 ≤ 2 ^ (b - 4 * n) :=
            Nat.pow_le_pow_right Nat.two_pos (by omega)
          omega
        simp [hbelow, hhigh, show ¬b < 4 * (n + 1) by omega]

theorem field_pack (hlt : ∀ i < n, (digit i).toNat < 16) (hw : 4 * n ≤ w) {i : Nat} (hi : i < n) :
    field 4 (pack n digit) i = (digit i).setWidth 4 := by
  apply BitVec.eq_of_getLsbD_eq
  intro b hb
  have hdiv : (4 * i + b) / 4 = i := by omega
  have hmod : (4 * i + b) % 4 = b := by omega
  rw [getLsbD_field, getLsbD_pack hlt (by omega), hdiv, hmod, BitVec.getLsbD_setWidth]
  simp [hb, show 4 * i + b < 4 * n by omega]

end Pack

/-- A code survives the conversions to the narrower types it passes. -/
theorem setWidth_setWidth_of_lt {value : BitVec 32} (h : value.toNat < 16) (u v : Nat)
    (hu : 4 ≤ u) : (value.setWidth u).setWidth v = value.setWidth v := by
  have hpow : 2 ^ 4 ≤ 2 ^ u := Nat.pow_le_pow_right Nat.two_pos hu
  have hlt : value.toNat < 2 ^ u := Nat.lt_of_lt_of_le h hpow
  apply BitVec.eq_of_toNat_eq
  rw [BitVec.toNat_setWidth, BitVec.toNat_setWidth, BitVec.toNat_setWidth, Nat.mod_eq_of_lt hlt]

theorem setWidth_and_mask {value : BitVec 32} (h : value.toNat < 16) (u : Nat) (hu : 4 ≤ u) :
    value.setWidth u &&& BitVec.ofNat u 0xF = value.setWidth u := by
  have hpow : 2 ^ 4 ≤ 2 ^ u := Nat.pow_le_pow_right Nat.two_pos hu
  have hlt : value.toNat < 2 ^ u := by omega
  have hmask : 15 < 2 ^ u := by omega
  apply BitVec.eq_of_toNat_eq
  rw [BitVec.toNat_and, BitVec.toNat_setWidth, BitVec.toNat_ofNat, Nat.mod_eq_of_lt hlt,
    Nat.mod_eq_of_lt hmask, show 15 = 2 ^ 4 - 1 from rfl, Nat.and_two_pow_sub_one_eq_mod,
    Nat.mod_eq_of_lt h]

end EdgeLLM.Ports.Int4
