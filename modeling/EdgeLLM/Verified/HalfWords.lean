import Mathlib.Tactic.Ring

/-!
# Wide products on narrow words

Without a word of twice the width a product is taken of the two halves of a
factor, and what a wrapping sum loses is read off by comparing the sum with a
summand.  A word is a number below `M`, a half word a number below `B`.
-/

namespace EdgeLLM.Verified

section HalfWords

variable {M B : Nat}

/-- A sum of two words has wrapped exactly when it is below a summand. -/
theorem add_eq_carry {x y : Nat} (hx : x < M) (hy : y < M) :
    x + y = (if (x + y) % M < x then 1 else 0) * M + (x + y) % M := by
  by_cases hfits : x + y < M
  · rw [Nat.mod_eq_of_lt hfits, if_neg (by omega)]
    omega
  · have hwrapped : (x + y) % M = x + y - M := by
      rw [Nat.mod_eq_sub_mod (by omega), Nat.mod_eq_of_lt (by omega)]
    rw [hwrapped, if_pos (by omega)]
    omega

/-- Both words of a product, from the products of the halves: the upper one may
wrap when it is moved up, and its lost digits are those above the half word. -/
theorem mul_eq_halves {lo f : Nat} (hM : B * B = M) (hlow : lo % B * f < M) :
    let lowLow := lo % B * f
    let lowHigh := lo / B * f
    let productLow := (lowLow + lowHigh * B % M) % M
    lo * f = (lowHigh / B + if productLow < lowLow then 1 else 0) * M + productLow := by
  intro lowLow lowHigh productLow
  have hshifted : lowHigh * B % M = lowHigh % B * B := by
    rw [← hM, Nat.mul_mod_mul_right]
  have hword : lowHigh % B * B < M := by
    rw [← hshifted]
    exact Nat.mod_lt _ (Nat.zero_lt_of_lt hlow)
  have hsum := add_eq_carry hlow hword
  have hlo := Nat.div_add_mod lo B
  have hhigh := Nat.div_add_mod lowHigh B
  calc lo * f
      = (B * (lo / B) + lo % B) * f := by rw [hlo]
    _ = lowLow + lowHigh * B := by
        simp only [lowLow, lowHigh]
        ring
    _ = lowHigh / B * M + (lowLow + lowHigh % B * B) := by
        rw [← hM]
        nth_rewrite 1 [← hhigh]
        ring
    _ = (lowHigh / B + if productLow < lowLow then 1 else 0) * M + productLow := by
        simp only [productLow, hshifted]
        rw [add_mul, add_assoc, ← hsum]

/-- Two words times `s * M + f`, modulo two words, when the lower word times `f` is
`carry * M + productLow`. -/
theorem mul_two_words_mod {hi lo s f carry productLow : Nat}
    (hproduct : lo * f = carry * M + productLow) (hlt : productLow < M) :
    (hi * M + lo) * (s * M + f) % (M * M) = (hi * f + carry + lo * s) % M * M + productLow := by
  have hexpand : (hi * M + lo) * (s * M + f) =
      (hi * f + carry + lo * s) * M + productLow + M * M * (hi * s) := by
    calc (hi * M + lo) * (s * M + f)
        = hi * f * M + lo * s * M + lo * f + M * M * (hi * s) := by ring
      _ = (hi * f + carry + lo * s) * M + productLow + M * M * (hi * s) := by
        rw [hproduct]
        ring
  have hM : 0 < M := Nat.zero_lt_of_lt hlt
  rw [hexpand, Nat.add_mul_mod_self_left, Nat.mod_mul, Nat.add_comm (_ * M) productLow,
    Nat.add_mul_mod_self_right, Nat.mod_eq_of_lt hlt, Nat.add_mul_div_right _ _ hM,
    Nat.div_eq_of_lt hlt, Nat.zero_add, Nat.mul_comm M, Nat.add_comm]

end HalfWords

end EdgeLLM.Verified
