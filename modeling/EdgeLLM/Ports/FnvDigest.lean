import EdgeLLM.Ports.BlockHash
import EdgeLLM.Verified.HalfWords
import Mathlib.Tactic.NormNum

/-!
# The 128-bit FNV-1a of opaque bytes

`fnvByte` multiplies two 64-bit words by 2^88 + 0x13B from 32-bit limbs.  The module
compares it with FNV-1a over the numbers below 2^128, and with it the digests of
`hashOpaqueIdentityCpu`: those of the chunks and the one that is made of them.
-/

namespace EdgeLLM.Ports.BlockKey

open Verified

/-! ## Opaque identities -/

def kHASH_NUM_CHUNKS : Nat := 2048

/-- The bytes of chunk `c`; a `size_t` wraps. -/
def chunkBounds (totalSize : Nat) (c : Nat) : Nat × Nat :=
  let chunkSize := (totalSize + kHASH_NUM_CHUNKS - 1) % 2 ^ 64 / kHASH_NUM_CHUNKS
  let start := c * chunkSize % 2 ^ 64
  (start, min ((start + chunkSize) % 2 ^ 64) totalSize)

/-- The bytes that the loop from `start` to `stop` visits. -/
def chunkBytes (bytes : List Byte) (bounds : Nat × Nat) : List Byte :=
  (bytes.drop bounds.1).take (bounds.2 - bounds.1)

/-- Phase 1 for one chunk. -/
def chunkDigest (bytes : List Byte) (bounds : Nat × Nat) : FnvValue :=
  (chunkBytes bytes bounds).foldl fnvByte kFNV_OFFSET

def hashOpaqueIdentityCpu (bytes : List Byte) : Hash128 :=
  let partials := (List.range kHASH_NUM_CHUNKS).map fun c =>
    chunkDigest bytes (chunkBounds bytes.length c)
  finishHash ((fnvTag .kOpaqueIdentity ++ fnvCount bytes.length ++
    partials.flatMap fun part => fnvU64 part.hi ++ fnvU64 part.lo).foldl fnvByte kFNV_OFFSET)

/-! ## FNV-1a over numbers -/

namespace Fnv1a

def offsetBasis : Nat := 144066263297769815596495629667062367629

def prime : Nat := 309485009821345068724781371

theorem prime_eq : prime = 2 ^ 88 + 0x13B := by norm_num [prime]

def step (state : Nat) (value : Byte) : Nat := (state ^^^ value.toNat) * prime % 2 ^ 128

/-- The digest of a byte string. -/
def digest (bytes : List Byte) : Nat := bytes.foldl step offsetBasis

/-- The eight lowest digits in base 256, the lowest first. -/
def wordBytes (n : Nat) : List Byte := (List.range 8).map fun i => BitVec.ofNat 8 (n / 256 ^ i)

/-- What the identity of a byte string is the digest of: its tag and size, then the
digests of its chunks. -/
def identityStream (bytes : List Byte) : List Byte :=
  [18] ++ wordBytes bytes.length ++ (List.range kHASH_NUM_CHUNKS).flatMap fun c =>
    let chunk := digest (chunkBytes bytes (chunkBounds bytes.length c))
    wordBytes (chunk / 2 ^ 64) ++ wordBytes chunk

end Fnv1a

def FnvValue.toNat (state : FnvValue) : Nat := state.hi.toNat * 2 ^ 64 + state.lo.toNat

def Hash128.toNat (hash : Hash128) : Nat := hash.hi.toNat * 2 ^ 64 + hash.lo.toNat

/-! ## One byte -/

theorem xor_lower_word (hi lo : Nat) (hlo : lo < 2 ^ 64) {b : Nat} (hb : b < 2 ^ 64) :
    (hi * 2 ^ 64 + lo) ^^^ b = hi * 2 ^ 64 + (lo ^^^ b) := by
  have hdiv : ((hi * 2 ^ 64 + lo) ^^^ b) / 2 ^ 64 = hi := by
    rw [Nat.xor_div_two_pow, Nat.div_eq_of_lt hb, Nat.xor_zero]
    omega
  have hmod : ((hi * 2 ^ 64 + lo) ^^^ b) % 2 ^ 64 = lo ^^^ b := by
    rw [Nat.xor_mod_two_pow, Nat.mul_add_mod_self_right, Nat.mod_eq_of_lt hlo, Nat.mod_eq_of_lt hb]
  have hsplit := Nat.div_add_mod ((hi * 2 ^ 64 + lo) ^^^ b) (2 ^ 64)
  rw [hdiv, hmod] at hsplit
  omega

theorem fnvByte_toNat (state : FnvValue) (value : Byte) :
    (fnvByte state value).toNat = Fnv1a.step state.toNat value := by
  have hvalue : value.toNat < 2 ^ 64 := value.isLt.trans (by decide)
  let lo := state.lo ^^^ value.setWidth 64
  have hlo : lo.toNat = state.lo.toNat ^^^ value.toNat := by
    rw [BitVec.toNat_xor, BitVec.toNat_setWidth, Nat.mod_eq_of_lt hvalue]
  have hlt := lo.isLt
  let lowLow := (lo.setWidth 32).setWidth 64 * 0x13B#64
  let lowHigh := (lo >>> 32) * 0x13B#64
  let productLow := lowLow + (lowHigh <<< 32)
  have hlowLow : lowLow.toNat = lo.toNat % 2 ^ 32 * 0x13B := by
    simp only [lowLow, BitVec.toNat_mul, BitVec.toNat_setWidth, BitVec.toNat_ofNat]
    omega
  have hlowHigh : lowHigh.toNat = lo.toNat / 2 ^ 32 * 0x13B := by
    simp only [lowHigh, BitVec.toNat_mul, BitVec.toNat_ushiftRight, Nat.shiftRight_eq_div_pow,
      BitVec.toNat_ofNat]
    omega
  have hproductLow : productLow.toNat =
      (lo.toNat % 2 ^ 32 * 0x13B + lo.toNat / 2 ^ 32 * 0x13B * 2 ^ 32 % 2 ^ 64) % 2 ^ 64 := by
    simp only [productLow, BitVec.toNat_add, BitVec.toNat_shiftLeft, Nat.shiftLeft_eq, hlowLow,
      hlowHigh]
  let carry := (lowHigh >>> 32) + (if productLow < lowLow then 1 else 0)
  have hproduct : lo.toNat * 0x13B = carry.toNat * 2 ^ 64 + productLow.toNat := by
    have hhalves := mul_eq_halves (B := 2 ^ 32) (M := 2 ^ 64) (f := 0x13B) (by decide)
      (show lo.toNat % 2 ^ 32 * 0x13B < 2 ^ 64 by omega)
    have hcarry : carry.toNat = lo.toNat / 2 ^ 32 * 0x13B / 2 ^ 32 +
        if productLow.toNat < lowLow.toNat then 1 else 0 := by
      simp only [carry, BitVec.toNat_add, BitVec.toNat_ushiftRight, Nat.shiftRight_eq_div_pow,
        hlowHigh]
      by_cases hwrapped : productLow < lowLow
      · rw [if_pos hwrapped, if_pos (BitVec.lt_def.1 hwrapped)]
        show (_ + 1) % 2 ^ 64 = _
        omega
      · rw [if_neg hwrapped, if_neg (fun h => hwrapped (BitVec.lt_def.2 h))]
        show (_ + 0) % 2 ^ 64 = _
        omega
    rw [hcarry, hproductLow, hlowLow]
    exact hhalves
  have hhi : (state.hi * 0x13B#64 + carry + (lo <<< 24)).toNat =
      (state.hi.toNat * 0x13B + carry.toNat + lo.toNat * 2 ^ 24) % 2 ^ 64 := by
    simp only [BitVec.toNat_add, BitVec.toNat_mul, BitVec.toNat_shiftLeft, Nat.shiftLeft_eq,
      BitVec.toNat_ofNat]
    omega
  calc (fnvByte state value).toNat
      = (state.hi.toNat * 0x13B + carry.toNat + lo.toNat * 2 ^ 24) % 2 ^ 64 * 2 ^ 64 +
          productLow.toNat := by
        rw [← hhi]
        rfl
    _ = (state.hi.toNat * 2 ^ 64 + lo.toNat) * (2 ^ 24 * 2 ^ 64 + 0x13B) %
          (2 ^ 64 * 2 ^ 64) := (mul_two_words_mod hproduct productLow.isLt).symm
    _ = Fnv1a.step state.toNat value := by
        rw [hlo, ← xor_lower_word _ _ state.lo.isLt hvalue, Fnv1a.step, Fnv1a.prime_eq,
          FnvValue.toNat, ← pow_add, ← pow_add]

/-! ## Byte strings -/

theorem foldl_fnvByte_toNat (bytes : List Byte) (state : FnvValue) :
    (bytes.foldl fnvByte state).toNat = bytes.foldl Fnv1a.step state.toNat := by
  induction bytes generalizing state with
  | nil => rfl
  | cons value bytes ih => rw [List.foldl_cons, List.foldl_cons, ih, fnvByte_toNat]

theorem kFNV_OFFSET_toNat : kFNV_OFFSET.toNat = Fnv1a.offsetBasis := by decide

theorem digest_toNat (bytes : List Byte) :
    (bytes.foldl fnvByte kFNV_OFFSET).toNat = Fnv1a.digest bytes := by
  rw [foldl_fnvByte_toNat, kFNV_OFFSET_toNat, Fnv1a.digest]

theorem chunkDigest_toNat (bytes : List Byte) (bounds : Nat × Nat) :
    (chunkDigest bytes bounds).toNat = Fnv1a.digest (chunkBytes bytes bounds) :=
  digest_toNat _

theorem finishHash_toNat (state : FnvValue) : (finishHash state).toNat = state.toNat := by
  rw [finishHash, Hash128.toNat, FnvValue.toNat]

/-- The bytes of a word are those of any number that the word is the rest of. -/
theorem fnvU64_eq {value : BitVec 64} {n : Nat} (h : value.toNat = n % 2 ^ 64) :
    fnvU64 value = Fnv1a.wordBytes n := by
  unfold fnvU64 littleEndian Fnv1a.wordBytes
  apply List.map_congr_left
  intro i hi
  have hi8 := List.mem_range.1 hi
  apply BitVec.eq_of_toNat_eq
  have hsplit : 2 ^ 64 = 256 ^ i * 2 ^ (64 - 8 * i) := by
    rw [show 256 = 2 ^ 8 from rfl, ← pow_mul, ← pow_add]
    congr 1
    omega
  have hdigit : 2 ^ (64 - 8 * i) = 2 ^ 8 * 2 ^ (56 - 8 * i) := by
    rw [← pow_add]
    congr 1
    omega
  rw [BitVec.toNat_setWidth, BitVec.toNat_ushiftRight, Nat.shiftRight_eq_div_pow, h,
    BitVec.toNat_ofNat, pow_mul, show (2 : Nat) ^ 8 = 256 from rfl, hsplit,
    Nat.mod_mul_right_div_self, hdigit, show (2 : Nat) ^ 8 = 256 from rfl, Nat.mod_mul_right_mod]

theorem fnvU64_words (state : FnvValue) : fnvU64 state.hi ++ fnvU64 state.lo =
      Fnv1a.wordBytes (state.toNat / 2 ^ 64) ++ Fnv1a.wordBytes state.toNat := by
  have hhi := state.hi.isLt
  have hlo := state.lo.isLt
  rw [fnvU64_eq (n := state.toNat / 2 ^ 64), fnvU64_eq (n := state.toNat)] <;>
    simp only [FnvValue.toNat] <;> omega

theorem hashOpaqueIdentityCpu_toNat (bytes : List Byte) :
    (hashOpaqueIdentityCpu bytes).toNat = Fnv1a.digest (Fnv1a.identityStream bytes) := by
  have htag : fnvTag .kOpaqueIdentity = [18] := rfl
  have hstream : fnvTag .kOpaqueIdentity ++ fnvCount bytes.length ++
      ((List.range kHASH_NUM_CHUNKS).map fun c =>
        chunkDigest bytes (chunkBounds bytes.length c)).flatMap
        (fun part => fnvU64 part.hi ++ fnvU64 part.lo) = Fnv1a.identityStream bytes := by
    rw [List.flatMap_map, fnvCount, fnvU64_eq (BitVec.toNat_ofNat _ _)]
    simp only [fnvU64_words, chunkDigest_toNat, htag, Fnv1a.identityStream]
  simp only [hashOpaqueIdentityCpu]
  rw [finishHash_toNat, hstream, digest_toNat]

/-- `fnvByte` multiplies exactly, so every loop over bytes computes FNV-1a: the digest
of a chunk, whatever its bounds, and the identity that is made of the chunks. -/
theorem fnv_exact :
    (∀ (hi lo : BitVec 64) (b : Byte), (fnvByte ⟨hi, lo⟩ b).toNat =
      ((hi.toNat * 2 ^ 64 + lo.toNat) ^^^ b.toNat) * (2 ^ 88 + 0x13B) % 2 ^ 128) ∧
    (∀ bytes, (bytes.foldl fnvByte kFNV_OFFSET).toNat = Fnv1a.digest bytes) ∧
    (∀ bytes bounds,
      (chunkDigest bytes bounds).toNat = Fnv1a.digest (chunkBytes bytes bounds)) ∧
    ∀ bytes, (hashOpaqueIdentityCpu bytes).toNat = Fnv1a.digest (Fnv1a.identityStream bytes) :=
  ⟨fun hi lo b => by rw [fnvByte_toNat, Fnv1a.step, Fnv1a.prime_eq, FnvValue.toNat],
    digest_toNat, chunkDigest_toNat, hashOpaqueIdentityCpu_toNat⟩

end EdgeLLM.Ports.BlockKey
