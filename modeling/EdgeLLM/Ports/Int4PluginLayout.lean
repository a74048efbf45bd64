import EdgeLLM.Ports.Int4Words
import EdgeLLM.Verified.Tensor
import EdgeLLM.Verified.Writes
import Mathlib.Data.List.Find
import Mathlib.Data.List.GetD

/-!
# The two weight layouts of the INT4 GEMM plugin

The first version of the plugin reads 16-bit words of four codes, permuted
along the input channels and interleaved over four output channels; the second
reads fragments of 128 32-bit words, padded to blocks of 128 output channels.
The runtime computes each word of either layout from its index, the exporter
builds the buffer by reshapes and transpositions or by nested loops.
-/

namespace EdgeLLM.Ports.Int4

open Verified

/-- The code at an output and an input channel. -/
abbrev Accessor := Nat → Nat → BitVec 8

/-! ## The kernels -/

/-- `k & ~31` is `k - (k & 31)`. -/
def permuteKForward (k : Nat) : Nat :=
  let block := k - (k &&& 31)
  let offset := k &&& 31
  let a := offset >>> 3
  let b := (offset >>> 1) &&& 3
  let c := offset &&& 1
  let permuted := block + ((((b <<< 2) ||| a) <<< 1) ||| c)
  let reorder := [0, 4, 1, 5, 2, 6, 3, 7]
  (permuted - (permuted &&& 7)) + reorder.getD (permuted &&& 7) 0

def permuteKInverse (destination : Nat) : Nat :=
  let block := destination - (destination &&& 31)
  match (List.range 32).find? fun offset => permuteKForward (block + offset) = destination with
  | some offset => block + offset
  | none => destination

/-- The word a thread of the first kernel writes at `index`. -/
def pluginV1Word (accessor : Accessor) (K index : Nat) : BitVec 16 :=
  let n4 := index / K
  let k := index % K
  let kTile := k / 64
  let kOffset := k % 64
  let n := n4 * 4 + kOffset / 16
  let sourceK0 := kTile * 64 + kOffset % 16 * 4
  pack 4 fun i => (accessor n (permuteKInverse (sourceK0 + i)) &&& 0xF#8).setWidth 16

def directInt4PluginV1RepackKernel (blocks threads : Nat) (accessor : Accessor) (K wordCount : Nat)
    (packedWords : Nat → BitVec 16) : Nat → BitVec 16 :=
  writeAll ((List.range (blocks * threads)).filterMap fun index =>
    if index < wordCount then some (index, pluginV1Word accessor K index) else none) packedWords

/-- `none` is `cudaErrorInvalidValue`. -/
def launchDirectInt4PluginV1Repack (accessor : Accessor) (N K : Nat)
    (packedWords : Nat → BitVec 16) : Option (Nat → BitVec 16) :=
  if N = 0 ∨ K = 0 ∨ N % 4 ≠ 0 ∨ K % 64 ≠ 0 then none
  else
    let words := N / 4 * K
    let threads := 256
    let blocks := (words + threads - 1) / threads
    some (directInt4PluginV1RepackKernel blocks threads accessor K words packedWords)

/-- The word thread `thread` of the second kernel writes in row `outputRow`. -/
def directFragmentWord (accessor : Accessor) (N K outputRow thread : Nat) : BitVec 32 :=
  let kTiles := K / 64
  let fragment := outputRow % 8
  let tile := outputRow / 8
  let kTile := tile % kTiles
  let nBlock := tile / kTiles
  let kBlock := fragment / 2
  let nPair := fragment % 2
  let nLo := nBlock * 128 + thread / 4 + nPair * 64
  let nHi := nLo + 32
  let k0 := kTile * 64 + kBlock * 16 + 2 * (thread % 4)
  let ns := [nLo, nLo, nHi, nHi, nLo, nLo, nHi, nHi]
  let ks := [k0, k0 + 8, k0, k0 + 8, k0 + 1, k0 + 9, k0 + 1, k0 + 9]
  pack 8 fun index =>
    (if ns.getD index 0 < N then accessor (ns.getD index 0) (ks.getD index 0) else 8#8).setWidth 32

def directInt4CuteDslRepackKernel (accessor : Accessor) (N K rows : Nat)
    (fragmentWords : Nat → BitVec 32) : Nat → BitVec 32 :=
  writeAll ((List.range rows).flatMap fun row => (List.range 128).map fun thread =>
    (row * 128 + thread, directFragmentWord accessor N K row thread)) fragmentWords

def int4CuteDslFragmentRows (N K : Nat) : Nat := (N + 127) / 128 * ((K + 63) / 64) * 8

/-- `none` is `cudaErrorInvalidValue`. -/
def launchDirectInt4CuteDslRepack (accessor : Accessor) (N K : Nat)
    (fragmentWords : Nat → BitVec 32) : Option (Nat → BitVec 32) :=
  if N = 0 ∨ K = 0 ∨ K % 64 ≠ 0 then none
  else some (directInt4CuteDslRepackKernel accessor N K (int4CuteDslFragmentRows N K) fragmentWords)

/-! ## The exporter -/

/-- What the exporter raises. -/
inductive RepackError where
  /-- The fragment layout needs `N` and `K` to be multiples of 64. -/
  | misaligned
  /-- `Group number != max(g_idx)+1` -/
  | groupNumber
  /-- An index of `g_idx` beyond the rows of the zero points. -/
  | groupIndex
  /-- `8 - zero_point_offset` is no 32-bit integer. -/
  | offsetOverflow

/-- Step 1: permute within K-blocks of 32. -/
def permuteKBlocks (N K : Nat) (unpacked : Tensor (BitVec 16)) : Tensor (BitVec 16) :=
  ((unpacked.reshape [N, K / 32, 4, 4, 2]).permute [0, 1, 3, 2, 4]).reshape [N, K / 32, 32]

/-- Step 2: within each group of 8, `[0,1,2,3,4,5,6,7]` to `[0,2,4,6,1,3,5,7]`. -/
def reorderEights (N K : Nat) (pk : Tensor (BitVec 16)) : Tensor (BitVec 16) :=
  ((pk.reshape [N, K / 32, 4, 4, 2]).permute [0, 1, 2, 4, 3]).reshape [N, K]

/-- Step 3: interleave every 4 rows across K-blocks of 64. -/
def interleaveRows (N K : Nat) (pk : Tensor (BitVec 16)) : Tensor (BitVec 16) :=
  let interleave := 4
  let kstride := 64
  ((pk.reshape [N / interleave, interleave, K / kstride, kstride]).permute [0, 2, 1, 3]).reshape
    [N / interleave, K / kstride, kstride, interleave]

/-- Step 4: pack 4 nibbles per int16. -/
def packFours (N K : Nat) (pk : Tensor (BitVec 16)) : Tensor (BitVec 16) :=
  let packed : Tensor (BitVec 16) :=
    { shape := [N / 4, K / 64, 64]
      get idx := pk.get (idx ++ [0]) ||| pk.get (idx ++ [1]) <<< 4 ||| pk.get (idx ++ [2]) <<< 8 |||
        pk.get (idx ++ [3]) <<< 12 }
  packed.reshape [N / 4, K]

def packIntweights (unpacked : Tensor (BitVec 16)) : Tensor (BitVec 16) :=
  let N := unpacked.dim 0
  let K := unpacked.dim 1
  packFours N K (interleaveRows N K (reorderEights N K (permuteKBlocks N K unpacked)))

/-- Bit shift, high half of the rows, input channel offset of each nibble of a
32-bit word. -/
def cutedslNibbles : List (Nat × Bool × Nat) :=
  [(0, false, 0), (4, false, 8), (8, true, 0), (12, true, 8), (16, false, 1), (20, false, 9),
    (24, true, 1), (28, true, 9)]

/-- The codes padded with the midpoint 8. -/
def padded (nibbles : Tensor (BitVec 16)) (n k : Nat) : BitVec 64 :=
  if n < nibbles.dim 0 ∧ k < nibbles.dim 1 then (nibbles.get [n, k]).signExtend 64 &&& 0xF#64
  else 8#64

/-- The eight codes of a word. -/
def fragmentWord (nibbles : Tensor (BitVec 16)) (nLo k0 : Nat) : BitVec 64 :=
  cutedslNibbles.foldl (fun word x =>
    word ||| padded nibbles (if x.2.1 then nLo + 32 else nLo) (k0 + x.2.2) <<< x.1) 0#64

/-- The assignments of the loops over `t`, `kbl` and `p`, each over all blocks
of rows and tiles of columns. -/
def fragmentWrites (nibbles : Tensor (BitVec 16)) (numNBlocks numKTiles : Nat) :
    List ((Nat × Nat) × BitVec 64) :=
  let bN := 128
  let bK := 64
  let kBlocks := bK / 16
  let nPairs := bN / 64
  let kn := kBlocks * nPairs
  (List.range 128).flatMap fun t => (List.range kBlocks).flatMap fun kbl =>
    (List.range nPairs).flatMap fun p => (List.range numNBlocks).flatMap fun nb =>
      (List.range numKTiles).map fun kt =>
        let nBase := t / 4
        let kb := 2 * (t % 4)
        let idx := kbl * nPairs + p
        (((nb * numKTiles + kt) * kn + idx, t),
          fragmentWord nibbles (nb * bN + (nBase + 64 * p)) (kt * bK + (16 * kbl + kb)))

def repackToCutedslFragment (nibbles : Tensor (BitVec 16)) :
    Except RepackError (Tensor (BitVec 32)) :=
  let n := nibbles.dim 0
  let k := nibbles.dim 1
  if n % 64 ≠ 0 ∨ k % 64 ≠ 0 then .error .misaligned
  else
    let bN := 128
    let bK := 64
    let kn := bK / 16 * (bN / 64)
    let numNBlocks := (n + bN - 1) / bN
    let numKTiles := (k + bK - 1) / bK
    let out := writeAll (fragmentWrites nibbles numNBlocks numKTiles) fun _ => 0#64
    .ok { shape := [numNBlocks * numKTiles * kn, 128]
          get := fun idx => (out (idx.getD 0 0, idx.getD 1 0)).setWidth 32 }

/-- The accessor and the tensor hold the same codes. -/
structure SameCodes (N K : Nat) (accessor : Accessor) (nibbles : Tensor (BitVec 16)) : Prop where
  shape : nibbles.shape = [N, K]
  code : ∀ n < N, ∀ k < K, ∃ value : Nibble,
    accessor n k = value.1.setWidth 8 ∧ nibbles.get [n, k] = value.1.setWidth 16

/-! ## The first layout -/

/-- The input channel whose code `_pack_intweights` puts at `k`, before the
rows are interleaved. -/
def packSource (k : Nat) : Nat :=
  let o := k % 32 / 8 * 8 + (k % 4 * 2 + k % 8 / 4)
  k / 32 * 32 + (o % 8 / 2 * 8 + o / 8 * 2 + o % 2)

section PluginV1

variable {N K n k q : Nat} {t pk : Tensor (BitVec 16)}

theorem packSource_lt (hK : K % 32 = 0) (hk : k < K) : packSource k < K := by
  have ho : k % 32 / 8 * 8 + (k % 4 * 2 + k % 8 / 4) < 32 := by omega
  simp only [packSource]
  generalize k % 32 / 8 * 8 + (k % 4 * 2 + k % 8 / 4) = o at ho ⊢
  omega

theorem permuteKBlocks_get (ht : t.shape = [N, K]) (hK : K = 32 * q) {b o : Nat} (hn : n < N)
    (hb : b < q) (ho : o < 32) : (permuteKBlocks N K t).get [n, b, o] =
      t.get [n, b * 32 + (o % 8 / 2 * 8 + o / 8 * 2 + o % 2)] := by
  have hdiv : K / 32 = q := by omega
  unfold permuteKBlocks
  rw [hdiv, Tensor.get_reshape [n, b, o / 8, o % 8 / 2, o % 2]]
  · change (t.reshape [N, q, 4, 4, 2]).get [n, b, o % 8 / 2, o / 8, o % 2] = _
    apply Tensor.get_reshape
    · rw [ht]
      simp only [inShape_cons, inShape_nil, and_true]
      omega
    · rw [ht, hK]
      simp only [offset_cons, offset_nil, List.prod_cons, List.prod_nil]
      ring
  · change InShape [N, q, 4, 4, 2] [n, b, o / 8, o % 8 / 2, o % 2]
    simp only [inShape_cons, inShape_nil, and_true]
    omega
  · change offset [N, q, 32] [n, b, o] = offset [N, q, 4, 4, 2] [n, b, o / 8, o % 8 / 2, o % 2]
    simp only [offset_cons, offset_nil, List.prod_cons, List.prod_nil, Nat.reduceMul, Nat.mul_one]
    omega

theorem reorderEights_get (ht : pk.shape = [N, K / 32, 32]) (hK : K = 32 * q) (hn : n < N)
    (hk : k < K) : (reorderEights N K pk).get [n, k] =
      pk.get [n, k / 32, k % 32 / 8 * 8 + (k % 4 * 2 + k % 8 / 4)] := by
  have hdiv : K / 32 = q := by omega
  unfold reorderEights
  rw [hdiv] at ht ⊢
  rw [Tensor.get_reshape [n, k / 32, k % 32 / 8, k % 8 / 4, k % 4]]
  · change (pk.reshape [N, q, 4, 4, 2]).get [n, k / 32, k % 32 / 8, k % 4, k % 8 / 4] = _
    apply Tensor.get_reshape
    · rw [ht]
      simp only [inShape_cons, inShape_nil, and_true]
      omega
    · rw [ht]
      simp only [offset_cons, offset_nil, List.prod_cons, List.prod_nil, Nat.reduceMul, Nat.mul_one]
      omega
  · change InShape [N, q, 4, 2, 4] [n, k / 32, k % 32 / 8, k % 8 / 4, k % 4]
    simp only [inShape_cons, inShape_nil, and_true]
    omega
  · change offset [N, K] [n, k] = offset [N, q, 4, 2, 4] [n, k / 32, k % 32 / 8, k % 8 / 4, k % 4]
    have hrow : n * K = n * (q * 32) := by rw [hK, Nat.mul_comm 32 q]
    simp only [offset_cons, offset_nil, List.prod_cons, List.prod_nil, Nat.reduceMul, Nat.mul_one]
    omega

theorem interleaveRows_get (ht : pk.shape = [N, K]) {m : Nat} (hN : N = 4 * m) (hK : K = 64 * q)
    {r b s j : Nat} (hr : r < m) (hb : b < q) (hs : s < 64) (hj : j < 4) :
    (interleaveRows N K pk).get [r, b, s, j] =
      pk.get [4 * r + s / 16, b * 64 + (s % 16 * 4 + j)] := by
  have hdivN : N / 4 = m := by omega
  have hdivK : K / 64 = q := by omega
  have hcell : (4 * s + j) / 64 = s / 16 ∧ (4 * s + j) % 64 = s % 16 * 4 + j := by omega
  unfold interleaveRows
  dsimp only
  rw [hdivN, hdivK, Tensor.get_reshape [r, b, s / 16, s % 16 * 4 + j]]
  · change (pk.reshape [m, 4, q, 64]).get [r, s / 16, b, s % 16 * 4 + j] = _
    apply Tensor.get_reshape
    · rw [ht]
      simp only [inShape_cons, inShape_nil, and_true]
      omega
    · rw [ht, hK]
      simp only [offset_cons, offset_nil, List.prod_cons, List.prod_nil]
      ring
  · change InShape [m, q, 4, 64] [r, b, s / 16, s % 16 * 4 + j]
    simp only [inShape_cons, inShape_nil, and_true]
    omega
  · change offset [m, q, 64, 4] [r, b, s, j] = offset [m, q, 4, 64] [r, b, s / 16, s % 16 * 4 + j]
    simp only [offset_cons, offset_nil, List.prod_cons, List.prod_nil, Nat.reduceMul, Nat.mul_one]
    omega

theorem packFours_flat (hK : K = 64 * q) {r c : Nat} (hr : r < N / 4) (hc : c < K) :
    (packFours N K pk).flat (r * K + c) = pack 4 fun j => pk.get [r, c / 64, c % 64, j] := by
  have hdivK : K / 64 = q := by omega
  have hsize : r * K + c < [N / 4, K].prod := by
    have hin : InShape [N / 4, K] [r, c] := by
      simp only [inShape_cons, inShape_nil, and_true]
      omega
    have := offset_lt hin
    simpa only [offset_cons, offset_nil, List.prod_cons, List.prod_nil, Nat.mul_one, Nat.add_zero]
      using this
  have hoff : r * K + c = offset [N / 4, q, 64] [r, c / 64, c % 64] := by
    have hrow : r * K = r * (q * 64) := by rw [hK, Nat.mul_comm 64 q]
    simp only [offset_cons, offset_nil, List.prod_cons, List.prod_nil, Nat.mul_one]
    omega
  unfold packFours
  rw [hdivK, Tensor.flat_reshape hsize, hoff, Tensor.flat_offset]
  · simp [pack_succ]
  · simp only [inShape_cons, inShape_nil, and_true]
    omega

theorem packIntweights_flat (ht : t.shape = [N, K]) (hN : N % 4 = 0) (hK : K % 64 = 0) {r c : Nat}
    (hr : r < N / 4) (hc : c < K) : (packIntweights t).flat (r * K + c) = pack 4 fun j =>
      t.get [4 * r + c % 64 / 16, packSource (c / 64 * 64 + (c % 64 % 16 * 4 + j))] := by
  have hdimN : t.dim 0 = N := by rw [Tensor.dim, ht]; rfl
  have hdimK : t.dim 1 = K := by rw [Tensor.dim, ht]; rfl
  obtain ⟨q, rfl⟩ := Nat.dvd_of_mod_eq_zero hK
  obtain ⟨m, rfl⟩ := Nat.dvd_of_mod_eq_zero hN
  simp only [packIntweights, hdimN, hdimK]
  rw [packFours_flat rfl hr hc]
  apply pack_congr
  intro j hj
  have hn : 4 * r + c % 64 / 16 < 4 * m := by omega
  have hk : c / 64 * 64 + (c % 64 % 16 * 4 + j) < 64 * q := by omega
  rw [interleaveRows_get rfl rfl rfl (by omega) (by omega) (by omega) hj,
    reorderEights_get rfl (by omega : 64 * q = 32 * (2 * q)) hn hk,
    permuteKBlocks_get ht (by omega : 64 * q = 32 * (2 * q)) hn (by omega) (by omega)]
  rfl

/-- The forward permutation moves a block of 32 as it moves the first one. -/
theorem permuteKForward_add {o : Nat} (ho : o < 32) :
    permuteKForward (32 * q + o) = 32 * q + permuteKForward o := by
  have hand : ∀ x, x &&& 31 = x % 32 := fun x => Nat.and_two_pow_sub_one_eq_mod x 5
  have hand7 : ∀ x, x &&& 7 = x % 8 := fun x => Nat.and_two_pow_sub_one_eq_mod x 3
  have hoffset : (32 * q + o) % 32 = o := by omega
  have hself : o % 32 = o := Nat.mod_eq_of_lt ho
  simp only [permuteKForward, hand, hand7, hoffset, hself, Nat.add_sub_cancel, Nat.sub_self,
    Nat.zero_add]
  generalize ((((o >>> 1) &&& 3) <<< 2 ||| o >>> 3) <<< 1 ||| o &&& 1) = p
  have hp : (32 * q + p) % 8 = p % 8 := by omega
  rw [hp]
  omega

/-- The channel the kernel finds is the one the exporter's shuffles bring. -/
theorem permuteKInverse_eq (k : Nat) : permuteKInverse k = packSource k := by
  obtain ⟨q, o, ho, rfl⟩ : ∃ q o, o < 32 ∧ k = 32 * q + o :=
    ⟨k / 32, k % 32, Nat.mod_lt k (by omega), (Nat.div_add_mod k 32).symm⟩
  have hblock : 32 * q + o - ((32 * q + o) &&& 31) = 32 * q := by
    rw [show 31 = 2 ^ 5 - 1 from rfl, Nat.and_two_pow_sub_one_eq_mod]
    omega
  have hfind : ((List.range 32).find? fun offset =>
      permuteKForward (32 * q + offset) = 32 * q + o) =
      (List.range 32).find? fun offset => permuteKForward offset = o := by
    apply List.find?_congr
    intro x hx
    rw [permuteKForward_add (List.mem_range.1 hx)]
    simp
  have hblocks : packSource (32 * q + o) = 32 * q + packSource o := by
    simp only [packSource, show (32 * q + o) % 32 = o % 32 by omega,
      show (32 * q + o) % 4 = o % 4 by omega, show (32 * q + o) % 8 = o % 8 by omega]
    omega
  have hfirst : ∀ o < 32, ((List.range 32).find? fun offset => permuteKForward offset = o) =
      some (packSource o) := by
    decide
  simp only [permuteKInverse, hblock, hfind, hfirst o ho, hblocks]

variable {accessor : Accessor}

theorem pluginV1Word_eq (h : SameCodes N K accessor t) (hN : N % 4 = 0) (hK : K % 64 = 0)
    {index : Nat} (hindex : index < N / 4 * K) :
    pluginV1Word accessor K index = (packIntweights t).flat index := by
  have hpos : 0 < K := Nat.pos_of_mul_pos_left (Nat.zero_lt_of_lt hindex)
  have hr : index / K < N / 4 := Nat.div_lt_of_lt_mul (by rwa [Nat.mul_comm] at hindex)
  have hc : index % K < K := Nat.mod_lt index hpos
  have hsplit : index / K * K + index % K = index := by
    rw [Nat.mul_comm]
    exact Nat.div_add_mod index K
  have hflat := packIntweights_flat h.shape hN hK hr hc
  rw [hsplit] at hflat
  rw [hflat]
  unfold pluginV1Word
  apply pack_congr
  intro j hj
  have hn : 4 * (index / K) + index % K % 64 / 16 < N := by omega
  have hk : index % K / 64 * 64 + (index % K % 64 % 16 * 4 + j) < K := by omega
  have hswap : index / K * 4 + index % K % 64 / 16 = 4 * (index / K) + index % K % 64 / 16 := by
    omega
  obtain ⟨value, haccessor, hget⟩ := h.code _ hn _ (packSource_lt (by omega) hk)
  rw [permuteKInverse_eq, hswap, Nat.add_assoc, haccessor, hget,
    setWidth_and_mask value.2 8 (by omega), setWidth_setWidth_of_lt value.2 8 16 (by omega)]

/-- The first kernel writes the words of the exporter's buffer. -/
theorem launchPluginV1_agrees (h : SameCodes N K accessor t) {old buffer : Nat → BitVec 16}
    (hlaunch : launchDirectInt4PluginV1Repack accessor N K old = some buffer) :
    ∀ index < N / 4 * K, buffer index = (packIntweights t).flat index := by
  unfold launchDirectInt4PluginV1Repack at hlaunch
  split at hlaunch
  · cases hlaunch
  · rename_i hvalid
    cases hlaunch
    intro index hindex
    have hthread : index < (N / 4 * K + 256 - 1) / 256 * 256 := by omega
    rw [← pluginV1Word_eq h (by omega) (by omega) hindex]
    apply writeAll_of_mem
    · refine ⟨(index, pluginV1Word accessor K index), ?_, rfl⟩
      exact List.mem_filterMap.2 ⟨index, List.mem_range.2 hthread, if_pos hindex⟩
    · rintro w hw rfl
      obtain ⟨thread, -, hthread'⟩ := List.mem_filterMap.1 hw
      split at hthread'
      · cases hthread'
        rfl
      · cases hthread'

/-! ## The second layout -/

/-- A padded code of the exporter is the code the kernel reads, or its padding. -/
theorem padded_setWidth (h : SameCodes N K accessor t) {n k : Nat} (hk : k < K) :
    (padded t n k).setWidth 32 = (if n < N then accessor n k else 8#8).setWidth 32 := by
  have hdimN : t.dim 0 = N := by rw [Tensor.dim, h.shape]; rfl
  have hdimK : t.dim 1 = K := by rw [Tensor.dim, h.shape]; rfl
  unfold padded
  rw [hdimN, hdimK]
  by_cases hn : n < N
  · obtain ⟨value, haccessor, hget⟩ := h.code n hn k hk
    have hlt := value.2
    have hmsb : (value.1.setWidth 16).msb = false := by
      rw [BitVec.msb_eq_false_iff_two_mul_lt, BitVec.toNat_setWidth]
      omega
    rw [if_pos ⟨hn, hk⟩, if_pos hn, haccessor, hget,
      BitVec.signExtend_eq_setWidth_of_msb_false hmsb,
      setWidth_setWidth_of_lt hlt 16 64 (by omega), setWidth_and_mask hlt 64 (by omega),
      setWidth_setWidth_of_lt hlt 64 32 (by omega), setWidth_setWidth_of_lt hlt 8 32 (by omega)]
  · rw [if_neg (fun hand => hn hand.1), if_neg hn]
    rfl

/-- A word of the exporter, truncated, packs the codes the kernel reads. -/
theorem fragmentWord_setWidth (h : SameCodes N K accessor t) {nLo k0 : Nat} (hk0 : k0 + 9 < K) :
    (fragmentWord t nLo k0).setWidth 32 = pack 8 fun index =>
      let ns := [nLo, nLo, nLo + 32, nLo + 32, nLo, nLo, nLo + 32, nLo + 32]
      let ks := [k0, k0 + 8, k0, k0 + 8, k0 + 1, k0 + 9, k0 + 1, k0 + 9]
      (if ns.getD index 0 < N then accessor (ns.getD index 0) (ks.getD index 0)
        else 8#8).setWidth 32 := by
  have hpack : fragmentWord t nLo k0 = pack 8 fun index =>
      padded t ([nLo, nLo, nLo + 32, nLo + 32, nLo, nLo, nLo + 32, nLo + 32].getD index 0)
        ([k0, k0 + 8, k0, k0 + 8, k0 + 1, k0 + 9, k0 + 1, k0 + 9].getD index 0) := rfl
  rw [hpack, pack_setWidth (by omega)]
  apply pack_congr
  intro index hindex
  have hk : [k0, k0 + 8, k0, k0 + 8, k0 + 1, k0 + 9, k0 + 1, k0 + 9].getD index 0 < K := by
    have hall : ∀ k ∈ [k0, k0 + 8, k0, k0 + 8, k0 + 1, k0 + 9, k0 + 1, k0 + 9], k < K := by
      simp
      omega
    rw [List.getD_eq_getElem _ _ (by simpa using hindex)]
    exact hall _ (List.getElem_mem _)
  exact padded_setWidth h hk

theorem row_split {tiles nb kt kbl p row : Nat} (hkt : kt < tiles) (hkbl : kbl < 4) (hp : p < 2)
    (hrow : (nb * tiles + kt) * 8 + (kbl * 2 + p) = row) :
    row / 8 / tiles = nb ∧ row / 8 % tiles = kt ∧ row % 8 / 2 = kbl ∧ row % 8 % 2 = p := by
  have htile : row / 8 = tiles * nb + kt := by
    rw [Nat.mul_comm tiles nb]
    omega
  have hlow : row % 8 = kbl * 2 + p := by omega
  rw [htile, hlow, Nat.mul_add_div (by omega), Nat.mul_add_mod, Nat.div_eq_of_lt hkt,
    Nat.mod_eq_of_lt hkt]
  omega

theorem mem_fragmentWrites {blocks tiles : Nat} {w : (Nat × Nat) × BitVec 64} :
    w ∈ fragmentWrites t blocks tiles ↔ ∃ thread < 128, ∃ kbl < 4, ∃ p < 2, ∃ nb < blocks,
      ∃ kt < tiles, w = (((nb * tiles + kt) * 8 + (kbl * 2 + p), thread),
        fragmentWord t (nb * 128 + (thread / 4 + 64 * p))
          (kt * 64 + (16 * kbl + 2 * (thread % 4)))) := by
  simp only [fragmentWrites, List.mem_flatMap, List.mem_map, List.mem_range, eq_comm (b := w)]

/-- The exporter's buffer holds at every row and thread the word the kernel
computes there. -/
theorem fragment_get (h : SameCodes N K accessor t) (hN : N % 64 = 0) (hK : K % 64 = 0)
    (hpos : 0 < K) :
    ∃ out, repackToCutedslFragment t = .ok out ∧ out.shape = [int4CuteDslFragmentRows N K, 128] ∧
      ∀ row < int4CuteDslFragmentRows N K, ∀ thread < 128,
        out.get [row, thread] = directFragmentWord accessor N K row thread := by
  have hdimN : t.dim 0 = N := by rw [Tensor.dim, h.shape]; rfl
  have hdimK : t.dim 1 = K := by rw [Tensor.dim, h.shape]; rfl
  unfold repackToCutedslFragment
  rw [hdimN, hdimK, if_neg (by omega)]
  refine ⟨_, rfl, rfl, fun row hrow thread hthread => ?_⟩
  have htiles : (K + 64 - 1) / 64 = K / 64 := by omega
  have htilePos : 0 < K / 64 := by omega
  have hlast : K = K / 64 * 64 := by omega
  have hblocks : row / 8 < (N + 128 - 1) / 128 * (K / 64) := by
    rw [int4CuteDslFragmentRows, show (K + 63) / 64 = K / 64 from htiles] at hrow
    change row / 8 < (N + 127) / 128 * (K / 64)
    omega
  change (writeAll (fragmentWrites t ((N + 128 - 1) / 128) ((K + 64 - 1) / 64)) (fun _ => 0#64)
    (row, thread)).setWidth 32 = _
  rw [htiles]
  set tiles := K / 64 with htilesDef
  have hfilled : writeAll (fragmentWrites t ((N + 128 - 1) / 128) tiles) (fun _ => 0#64)
      (row, thread) = fragmentWord t (row / 8 / tiles * 128 + (thread / 4 + 64 * (row % 8 % 2)))
        (row / 8 % tiles * 64 + (16 * (row % 8 / 2) + 2 * (thread % 4))) := by
    apply writeAll_of_mem
    · refine ⟨_, mem_fragmentWrites.2 ⟨thread, hthread, row % 8 / 2, by omega, row % 8 % 2,
        by omega, row / 8 / tiles, ?_, row / 8 % tiles, Nat.mod_lt _ htilePos, rfl⟩, ?_⟩
      · exact Nat.div_lt_of_lt_mul (by rwa [Nat.mul_comm] at hblocks)
      · have hsplit := Nat.div_add_mod (row / 8) tiles
        rw [Nat.mul_comm] at hsplit
        simp only [hsplit, Prod.mk.injEq, and_true]
        omega
    · intro w hw hkey
      obtain ⟨thread', -, kbl, hkbl, p, hp, nb, -, kt, hkt, rfl⟩ := mem_fragmentWrites.1 hw
      obtain ⟨hrow', rfl⟩ := Prod.mk.inj hkey
      obtain ⟨hnb, hkt', hkbl', hp'⟩ := row_split hkt hkbl hp hrow'
      simp only [hnb, hkt', hkbl', hp']
  have hcolumn : row / 8 % tiles * 64 + (16 * (row % 8 / 2) + 2 * (thread % 4)) + 9 < K := by
    have := Nat.mod_lt (row / 8) htilePos
    omega
  have hlo : row / 8 / tiles * 128 + (thread / 4 + 64 * (row % 8 % 2)) =
      row / 8 / tiles * 128 + thread / 4 + row % 8 % 2 * 64 := by omega
  have hk0 : row / 8 % tiles * 64 + (16 * (row % 8 / 2) + 2 * (thread % 4)) =
      row / 8 % tiles * 64 + row % 8 / 2 * 16 + 2 * (thread % 4) := by omega
  rw [hfilled, fragmentWord_setWidth h hcolumn, hlo, hk0]
  rfl

/-- The second kernel writes the words of the exporter's buffer. -/
theorem launchCuteDsl_agrees (h : SameCodes N K accessor t) (hN : N % 64 = 0)
    {old buffer : Nat → BitVec 32}
    (hlaunch : launchDirectInt4CuteDslRepack accessor N K old = some buffer) :
    ∃ out, repackToCutedslFragment t = .ok out ∧
      ∀ index < int4CuteDslFragmentRows N K * 128, buffer index = out.flat index := by
  unfold launchDirectInt4CuteDslRepack at hlaunch
  split at hlaunch
  · cases hlaunch
  · rename_i hvalid
    cases hlaunch
    obtain ⟨out, hout, hshape, hget⟩ := fragment_get h hN (by omega) (by omega)
    refine ⟨out, hout, fun index hindex => ?_⟩
    have hrow : index / 128 < int4CuteDslFragmentRows N K := by omega
    have hthread : index % 128 < 128 := Nat.mod_lt index (by omega)
    have hflat : out.flat index = out.get [index / 128, index % 128] := by
      have hoff : index = offset out.shape [index / 128, index % 128] := by
        rw [hshape]
        simp only [offset_cons, offset_nil, List.prod_cons, List.prod_nil, Nat.mul_one]
        omega
      nth_rewrite 1 [hoff]
      apply Tensor.flat_offset
      rw [hshape]
      simp only [inShape_cons, inShape_nil, and_true]
      omega
    rw [hflat, hget _ hrow _ hthread]
    apply writeAll_of_mem
    · refine ⟨(index, directFragmentWord accessor N K (index / 128) (index % 128)), ?_, rfl⟩
      refine List.mem_flatMap.2 ⟨index / 128, List.mem_range.2 hrow, ?_⟩
      refine List.mem_map.2 ⟨index % 128, List.mem_range.2 hthread, ?_⟩
      rw [show index / 128 * 128 + index % 128 = index by omega]
    · intro w hw hkey
      obtain ⟨row, -, hw⟩ := List.mem_flatMap.1 hw
      obtain ⟨thread, hlt, rfl⟩ := List.mem_map.1 hw
      have hlt' := List.mem_range.1 hlt
      have hkey' : row * 128 + thread = index := hkey
      rw [show index / 128 = row by omega, show index % 128 = thread by omega]

end PluginV1

end EdgeLLM.Ports.Int4
