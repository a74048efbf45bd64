import Mathlib.Algebra.Order.Ring.Abs
import Mathlib.Data.Int.ModEq
import Mathlib.Data.Nat.Bitwise
import Mathlib.Tactic.NormNum

/-!
# Wrapping words

A machine word is an integer up to a multiple of its size, and so is every sum
and product of words.  What wrapped on the way does not matter when the exact
result fits in a word: then the word is the result.
-/

namespace EdgeLLM.Verified

/-! ## 64 bits -/

/-- A value of a signed 64-bit word. -/
def Fits64 (x : Int) : Prop := -2 ^ 63 ≤ x ∧ x < 2 ^ 63

/-- The word is `x`, up to a multiple of `2 ^ 64`. -/
def Wraps64 (a : Int64) (x : Int) : Prop := a.toInt ≡ x [ZMOD 2 ^ 64]

theorem bmod_modEq (x : Int) (n : Nat) : x.bmod n ≡ x [ZMOD n] := by
  unfold Int.ModEq
  exact Int.bmod_emod

section Words64

variable {a b : Int64} {x y : Int}

theorem wraps64 (a : Int64) : Wraps64 a a.toInt := Int.ModEq.refl _

theorem Wraps64.add (ha : Wraps64 a x) (hb : Wraps64 b y) : Wraps64 (a + b) (x + y) := by
  unfold Wraps64
  rw [Int64.toInt_add]
  exact (bmod_modEq _ (2 ^ 64)).trans (Int.ModEq.add ha hb)

theorem Wraps64.sub (ha : Wraps64 a x) (hb : Wraps64 b y) : Wraps64 (a - b) (x - y) := by
  unfold Wraps64
  rw [Int64.toInt_sub]
  exact (bmod_modEq _ (2 ^ 64)).trans (Int.ModEq.sub ha hb)

theorem Wraps64.mul (ha : Wraps64 a x) (hb : Wraps64 b y) : Wraps64 (a * b) (x * y) := by
  unfold Wraps64
  rw [Int64.toInt_mul]
  exact (bmod_modEq _ (2 ^ 64)).trans (Int.ModEq.mul ha hb)

/-- Only the result has to fit, not what it is computed from. -/
theorem Wraps64.eq_of_fits (h : Wraps64 a x) (hx : Fits64 x) : a.toInt = x := by
  have hlow := a.le_toInt
  have hhigh := a.toInt_lt
  unfold Wraps64 Int.ModEq at h
  unfold Fits64 at hx
  omega

theorem Wraps64.congr (h : Wraps64 a x) (heq : x = y) : Wraps64 a y := heq ▸ h

theorem max_le_iff64 {c : Int64} : max a b ≤ c ↔ a ≤ c ∧ b ≤ c := by
  show (if a ≤ b then b else a) ≤ c ↔ _
  simp only [Int64.le_iff_toInt_le]
  split <;> omega

/-- A running maximum bounds what it was taken of. -/
theorem foldl_max_le_iff64 {ι : Type*} {g : ι → Int64} {c : Int64} (xs : List ι) :
    xs.foldl (fun most i => max most (g i)) a ≤ c ↔ a ≤ c ∧ ∀ i ∈ xs, g i ≤ c := by
  induction xs generalizing a with
  | nil => simp only [List.foldl_nil, List.not_mem_nil, false_implies, implies_true, and_true]
  | cons i xs ih => rw [List.foldl_cons, ih, max_le_iff64, List.forall_mem_cons, and_assoc]

/-- Halving a word that is not negative. -/
theorem toInt_div_two64 (ha : 0 ≤ a.toInt) : (a / 2).toInt = a.toInt / 2 := by
  have hhigh := a.toInt_lt
  rw [Int64.toInt_div]
  show (a.toInt.tdiv 2).bmod (2 ^ 64) = _
  rw [Int.tdiv_eq_ediv_of_nonneg ha, Int.bmod_eq_of_le] <;> omega

end Words64

/-! ## Unsigned 64 bits -/

def WrapsU64 (a : UInt64) (x : Int) : Prop := (a.toNat : Int) ≡ x [ZMOD 2 ^ 64]

section UnsignedWords

variable {a b : UInt64} {x y : Int}

theorem wrapsU64 (a : UInt64) : WrapsU64 a a.toNat := Int.ModEq.refl _

theorem WrapsU64.add (ha : WrapsU64 a x) (hb : WrapsU64 b y) : WrapsU64 (a + b) (x + y) := by
  unfold WrapsU64
  rw [UInt64.toNat_add, Int.natCast_emod, Nat.cast_add]
  exact (Int.mod_modEq _ _).trans (Int.ModEq.add ha hb)

theorem WrapsU64.mul (ha : WrapsU64 a x) (hb : WrapsU64 b y) : WrapsU64 (a * b) (x * y) := by
  unfold WrapsU64
  rw [UInt64.toNat_mul, Int.natCast_emod, Nat.cast_mul]
  exact (Int.mod_modEq _ _).trans (Int.ModEq.mul ha hb)

theorem WrapsU64.eq_of_fits (h : WrapsU64 a x) (hlow : 0 ≤ x) (hhigh : x < 2 ^ 64) :
    (a.toNat : Int) = x := by
  have hlt := a.toNat_lt
  unfold WrapsU64 Int.ModEq at h
  omega

/-- The same bits, read without a sign. -/
theorem Wraps64.toUInt64 {a : Int64} (h : Wraps64 a x) : WrapsU64 a.toUInt64 x := by
  have hbits : a.toInt = (a.toUInt64.toNat : Int).bmod (2 ^ 64) :=
    BitVec.toInt_eq_toNat_bmod a.toBitVec
  unfold Wraps64 at h
  rw [hbits] at h
  exact (bmod_modEq _ (2 ^ 64)).symm.trans h

/-- The mask of a power of two takes the remainder. -/
theorem toNat_and_mask {p : UInt64} {bits : Nat} (hp : p.toNat = 2 ^ bits) (x : UInt64) :
    (x &&& (p - 1)).toNat = x.toNat % p.toNat := by
  have hone : (1 : UInt64) ≤ p := by
    rw [UInt64.le_iff_toNat_le, hp]
    exact Nat.two_pow_pos bits
  rw [UInt64.toNat_and, UInt64.toNat_sub_of_le _ _ hone, hp]
  exact Nat.and_two_pow_sub_one_eq_mod _ _

/-- The complement of the mask takes the rest away. -/
theorem toNat_and_not_mask {p : UInt64} {bits : Nat} (hp : p.toNat = 2 ^ bits) (x : UInt64) :
    (x &&& ~~~(p - 1)).toNat = x.toNat - x.toNat % p.toNat := by
  have hone : (1 : UInt64) ≤ p := by
    rw [UInt64.le_iff_toNat_le, hp]
    exact Nat.two_pow_pos bits
  have hlt := p.toNat_lt
  have hmask : (p - 1).toNat = 2 ^ bits - 1 := by
    rw [UInt64.toNat_sub_of_le _ _ hone, hp]
    rfl
  have hbits : x.toNat - x.toNat % 2 ^ bits = 2 ^ bits * (x.toNat / 2 ^ bits) := by
    have hsplit := Nat.div_add_mod x.toNat (2 ^ bits)
    omega
  rw [UInt64.toNat_and, UInt64.toNat_not, hmask, hp, hbits]
  apply Nat.eq_of_testBit_eq
  intro i
  have hcomplement : UInt64.size - 1 - (2 ^ bits - 1) = 2 ^ 64 - (2 ^ bits - 1 + 1) := by
    show 2 ^ 64 - 1 - (2 ^ bits - 1) = _
    omega
  rw [Nat.testBit_and, hcomplement, Nat.testBit_two_pow_sub_succ (by omega),
    Nat.testBit_two_pow_sub_one, Nat.testBit_two_pow_mul, Nat.testBit_div_two_pow]
  by_cases hlow : i < bits
  · rw [decide_eq_true hlow, decide_eq_false (Nat.not_le.2 hlow)]
    simp
  · rw [decide_eq_false hlow, decide_eq_true (Nat.not_lt.1 hlow), Nat.sub_add_cancel
      (Nat.not_lt.1 hlow)]
    by_cases hhigh : i < 64
    · simp [hhigh]
    · have hzero : x.toNat.testBit i = false := by
        apply Nat.testBit_lt_two_pow
        exact x.toNat_lt.trans_le (Nat.pow_le_pow_right (by decide) (Nat.not_lt.1 hhigh))
      simp [hzero]

end UnsignedWords

/-! ## 32 bits -/

def Fits32 (x : Int) : Prop := -2 ^ 31 ≤ x ∧ x < 2 ^ 31

def Wraps32 (a : Int32) (x : Int) : Prop := a.toInt ≡ x [ZMOD 2 ^ 32]

section Words32

variable {a b : Int32} {x y : Int}

theorem wraps32 (a : Int32) : Wraps32 a a.toInt := Int.ModEq.refl _

theorem Wraps32.add (ha : Wraps32 a x) (hb : Wraps32 b y) : Wraps32 (a + b) (x + y) := by
  unfold Wraps32
  rw [Int32.toInt_add]
  exact (bmod_modEq _ (2 ^ 32)).trans (Int.ModEq.add ha hb)

theorem Wraps32.sub (ha : Wraps32 a x) (hb : Wraps32 b y) : Wraps32 (a - b) (x - y) := by
  unfold Wraps32
  rw [Int32.toInt_sub]
  exact (bmod_modEq _ (2 ^ 32)).trans (Int.ModEq.sub ha hb)

theorem Wraps32.mul (ha : Wraps32 a x) (hb : Wraps32 b y) : Wraps32 (a * b) (x * y) := by
  unfold Wraps32
  rw [Int32.toInt_mul]
  exact (bmod_modEq _ (2 ^ 32)).trans (Int.ModEq.mul ha hb)

theorem Wraps32.eq_of_fits (h : Wraps32 a x) (hx : Fits32 x) : a.toInt = x := by
  have hlow := a.le_toInt
  have hhigh := a.toInt_lt
  unfold Wraps32 Int.ModEq at h
  unfold Fits32 at hx
  omega

/-- A narrowing cast. -/
theorem wraps32_toInt32 (a : Int64) : Wraps32 a.toInt32 a.toInt := by
  unfold Wraps32
  rw [Int64.toInt_toInt32]
  exact bmod_modEq _ (2 ^ 32)

theorem wraps32_ofInt (x : Int) : Wraps32 (Int32.ofInt x) x := by
  unfold Wraps32
  rw [Int32.toInt_ofInt]
  exact bmod_modEq _ (2 ^ 32)

theorem Wraps32.congr (h : Wraps32 a x) (heq : x = y) : Wraps32 a y := heq ▸ h

/-- A product of two 32-bit words is well within 64 bits. -/
theorem mul_toInt32_bounds (a b : Int32) :
    -2 ^ 62 ≤ a.toInt * b.toInt ∧ a.toInt * b.toInt ≤ 2 ^ 62 := by
  have ha : |a.toInt| ≤ 2 ^ 31 := abs_le.2 ⟨a.le_toInt, a.toInt_lt.le⟩
  have hb : |b.toInt| ≤ 2 ^ 31 := abs_le.2 ⟨b.le_toInt, b.toInt_lt.le⟩
  have hmul : |a.toInt * b.toInt| ≤ 2 ^ 62 := by
    rw [abs_mul]
    exact (mul_le_mul ha hb (abs_nonneg _) (by decide)).trans_eq (by norm_num)
  exact ⟨(abs_le.1 hmul).1, (abs_le.1 hmul).2⟩

theorem toInt_div_two32 (ha : 0 ≤ a.toInt) : (a / 2).toInt = a.toInt / 2 := by
  have hhigh := a.toInt_lt
  rw [Int32.toInt_div]
  show (a.toInt.tdiv 2).bmod (2 ^ 32) = _
  rw [Int.tdiv_eq_ediv_of_nonneg ha, Int.bmod_eq_of_le] <;> omega

end Words32

end EdgeLLM.Verified
