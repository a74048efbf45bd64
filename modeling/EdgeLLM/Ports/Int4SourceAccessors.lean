import EdgeLLM.Ports.GptqActivationPermutation
import EdgeLLM.Ports.Int4PluginLayout

/-!
# Codes of the three INT4 checkpoint formats

A GPTQ checkpoint packs eight input channels in a word, an AWQ checkpoint
eight output channels in an order of its own, a ModelOpt checkpoint two output
channels in a byte as signed numbers.  The runtime reads one code at a time
through an accessor; the exporter unpacks whole tensors.
-/

namespace EdgeLLM.Ports.Int4

open Verified

/-- `weight` is `[N/2, K]`, even output channels in the low nibble. -/
def modelOptInt4Accessor (weight : Nat → BitVec 8) (K : Nat) : Accessor := fun n k =>
  let packed := weight (n / 2 * K + k)
  let nibble := if n % 2 = 1 then packed >>> 4 else packed &&& 0xF#8
  let signedValue : Int := if nibble.toNat < 8 then nibble.toNat else (nibble.toNat : Int) - 16
  BitVec.ofInt 8 (signedValue + 8)

/-- `qweight` is `[K/8, N]`, `qzeros` is `[groups, N/8]` or null, the
permutation null without activation order. -/
def gptqInt4Accessor (qweight : Nat → BitVec 32) (qzeros : Option (Nat → BitVec 32))
    (activationPermutation : Option (Nat → Nat)) (N groupSize : Nat)
    (zeroPointOffset : BitVec 32) : Accessor := fun n k =>
  let sourceK := match activationPermutation with
    | none => k
    | some permutation => permutation k
  let word := qweight (sourceK / 8 * N + n)
  let value := nibble word (sourceK % 8)
  match qzeros with
  | none => value.setWidth 8
  | some qzeros =>
    let zeroWord := qzeros (k / groupSize * (N / 8) + n / 8)
    let zero := nibble zeroWord (n % 8)
    (recentre zeroPointOffset value zero).setWidth 8

/-- `qweight` is `[K, N/8]`, `qzeros` is `[groups, N/8]`. -/
def awqInt4Accessor (qweight qzeros : Nat → BitVec 32) (N groupSize : Nat) : Accessor := fun n k =>
  let reverseOrder := [0, 4, 1, 5, 2, 6, 3, 7]
  let packedIndex := reverseOrder.getD (n % 8) 0
  let word := qweight (k * (N / 8) + n / 8)
  let zeroWord := qzeros (k / groupSize * (N / 8) + n / 8)
  let value := nibble word packedIndex
  let zero := nibble zeroWord packedIndex
  (clampNibble (value - zero + 8#32)).setWidth 8

/-! ## The exporter's matrices `[N, K]` -/

/-- The tail of each repack: transpose to `[N, K]`, as 16-bit integers. -/
def transposed (nibbles : Tensor (BitVec 32)) : Tensor (BitVec 16) :=
  (nibbles.permute [1, 0]).map fun v => v.setWidth 16

/-- `repack_awq_to_plugin` up to the layout; bit position `k` of a word holds
output channel `bitToCh[k]`. -/
def awqNibbles (qweight qzeros : Tensor (BitVec 32)) : Tensor (BitVec 16) :=
  let inFeatures := qweight.dim 0
  let outFeatures := qweight.dim 1 * 8
  let groupSize := inFeatures / qzeros.dim 0
  let bitToCh := [0, 2, 4, 6, 1, 3, 5, 7]
  let nibbles := Tensor.assignAll 1 8 (List.range 8) (fun k => bitToCh.getD k 0)
    (fun k => qweight.map fun word => nibble word k) (.full [inFeatures, outFeatures] 0)
  let zeros := Tensor.assignAll 1 8 (List.range 8) (fun k => bitToCh.getD k 0)
    (fun k => qzeros.map fun word => nibble word k)
    (.full [inFeatures / groupSize, outFeatures] 0)
  -- `repeat_interleave` along the rows
  let zerosExpanded : Tensor (BitVec 32) :=
    { shape := [zeros.dim 0 * groupSize, outFeatures]
      get := fun idx => zeros.get (idx.headD 0 / groupSize :: idx.tail) }
  transposed (Tensor.zipWith (fun v z => clampNibble (v - z + 8#32)) nibbles zerosExpanded)

/-- The unpacking of `_cast_modelopt_awq_prepacked`. -/
def modelOptNibbles (w : Tensor (BitVec 8)) : Tensor (BitVec 16) :=
  let nHalf := w.dim 0
  let K := w.dim 1
  let N := nHalf * 2
  let wI16 := w.map fun byte => byte.setWidth 16
  let nibbles := Tensor.assignAll 0 2 [0, 1] id
    (fun k => if k = 0 then wI16.map fun v => v &&& 0xF#16
      else wI16.map fun v => v.sshiftRight 4 &&& 0xF#16) (.full [N, K] 0)
  nibbles.map fun v => (v + 8#16) % 16#16

/-- `max(g_idx)` -/
def maxGroup (groupIndex : Nat → Nat) (K : Nat) : Nat :=
  (List.range K).foldl (fun largest k => max largest (groupIndex k)) 0

def gatherRowsByGidxOrder (weight : Tensor (BitVec 32)) (groupIndex : Nat → Nat)
    (groupSize : Nat) : Except RepackError (Tensor (BitVec 32) × List Nat) :=
  let groupNum := weight.dim 0 / groupSize
  let gmax := maxGroup groupIndex (weight.dim 0)
  if groupNum ≠ gmax + 1 then .error .groupNumber
  else
    let rows := permuteIdx groupIndex (weight.dim 0) groupNum
    .ok (weight.selectRows rows, rows)

/-- A GPTQ projection: `qweight` is `[K/8, N]`, `qzeros` is `[groups, N/8]` or
has no element, `gIdx` gives the group of each input channel. -/
structure GptqCheckpoint where
  qweight : Tensor (BitVec 32)
  qzeros : Tensor (BitVec 32)
  gIdx : Option (Nat → Nat)
  zeroPointOffset : BitVec 32

namespace GptqCheckpoint

/-- Without zero points the midpoint 8 is implied. -/
def symmetric (c : GptqCheckpoint) : Bool := c.qzeros.numel = 0

/-- The exporter's `num_groups`. -/
def numGroups (c : GptqCheckpoint) : Nat :=
  let inFeatures := c.qweight.dim 0 * 8
  if c.symmetric then
    if c.qzeros.shape ≠ [] ∧ 0 < c.qzeros.dim 0 then c.qzeros.dim 0
    else match c.gIdx with
      | some groupIndex => maxGroup groupIndex inFeatures + 1
      | none => 1
  else c.qzeros.dim 0

/-- `g_idx_t` -/
def groupIndex (c : GptqCheckpoint) (groupSize : Nat) : Nat → Nat :=
  c.gIdx.getD fun k => k / groupSize

/-- The exporter's zero points `[groups, N]`. -/
def zeros (c : GptqCheckpoint) : Except RepackError (Tensor (BitVec 32)) :=
  let outFeatures := c.qweight.dim 1
  if c.symmetric then
    let midpoint := 8 - c.zeroPointOffset.toInt
    if 2 ^ 31 ≤ midpoint then .error .offsetOverflow
    else .ok (.full [c.numGroups, outFeatures] (BitVec.ofInt 32 midpoint))
  else
    .ok (Tensor.assignAll 1 8 (List.range 8) id (fun k => c.qzeros.map fun word => nibble word k)
      (.full [c.numGroups, outFeatures] 0))

end GptqCheckpoint

/-- `repack_gptq_to_plugin` up to the layout: the matrix and `permute_idx`. -/
def gptqNibbles (c : GptqCheckpoint) : Except RepackError (Tensor (BitVec 16) × List Nat) := do
  let outFeatures := c.qweight.dim 1
  let inFeatures := c.qweight.dim 0 * 8
  let groupSize := inFeatures / c.numGroups
  let nibbles := Tensor.assignAll 0 8 (List.range 8) id
    (fun k => c.qweight.map fun word => nibble word k) (.full [inFeatures, outFeatures] 0)
  let zeros ← c.zeros
  let groupIndex := c.groupIndex groupSize
  if ∃ k < inFeatures, c.numGroups ≤ groupIndex k then throw .groupIndex
  let zerosExpanded : Tensor (BitVec 32) :=
    { shape := [inFeatures, outFeatures]
      get := fun idx => zeros.get (groupIndex (idx.headD 0) :: idx.tail) }
  let adjusted := Tensor.zipWith (recentre c.zeroPointOffset) nibbles zerosExpanded
  let (gathered, rows) ← gatherRowsByGidxOrder adjusted groupIndex groupSize
  pure (transposed gathered, rows)

section Unpack

variable {i j : Nat} {t z : Tensor (BitVec 32)}

/-- Words packed along the rows, unpacked in order. -/
theorem unpackRows_get :
    (Tensor.assignAll 0 8 (List.range 8) id (fun k => t.map fun word => nibble word k)
      z).get [i, j] = nibble (t.get [i / 8, j]) (i % 8) := by
  apply Tensor.get_assignAll (k := i % 8) (i := i)
  · intro k hk
    exact List.mem_range.1 hk
  · intro k _ hk
    exact hk
  · exact List.mem_range.2 (Nat.mod_lt i (by omega))
  · rfl
  · rfl

/-- Words packed along the columns, unpacked in order. -/
theorem unpackColumns_get :
    (Tensor.assignAll 1 8 (List.range 8) id (fun k => t.map fun word => nibble word k)
      z).get [i, j] = nibble (t.get [i, j / 8]) (j % 8) := by
  apply Tensor.get_assignAll (k := j % 8) (i := j)
  · intro k hk
    exact List.mem_range.1 hk
  · intro k _ hk
    exact hk
  · exact List.mem_range.2 (Nat.mod_lt j (by omega))
  · rfl
  · rfl

/-- Words packed along the columns in the order of AWQ. -/
theorem unpackAwq_get :
    (Tensor.assignAll 1 8 (List.range 8) (fun k => [0, 2, 4, 6, 1, 3, 5, 7].getD k 0)
      (fun k => t.map fun word => nibble word k) z).get [i, j] =
      nibble (t.get [i, j / 8]) ([0, 4, 1, 5, 2, 6, 3, 7].getD (j % 8) 0) := by
  have hbits : ∀ c < 8, [0, 4, 1, 5, 2, 6, 3, 7].getD c 0 < 8 ∧
      [0, 2, 4, 6, 1, 3, 5, 7].getD ([0, 4, 1, 5, 2, 6, 3, 7].getD c 0) 0 = c := by
    decide
  have hinj : ∀ k < 8, ∀ l < 8, [0, 2, 4, 6, 1, 3, 5, 7].getD k 0 =
      [0, 2, 4, 6, 1, 3, 5, 7].getD l 0 → k = l := by
    decide
  have hstart : ∀ k < 8, [0, 2, 4, 6, 1, 3, 5, 7].getD k 0 < 8 := by
    decide
  have hj : j % 8 < 8 := Nat.mod_lt j (by omega)
  apply Tensor.get_assignAll (k := [0, 4, 1, 5, 2, 6, 3, 7].getD (j % 8) 0) (i := j)
  · intro k hk
    exact hstart k (List.mem_range.1 hk)
  · intro k hk
    exact hinj k (List.mem_range.1 hk) _ (hbits _ hj).1
  · exact List.mem_range.2 (hbits _ hj).1
  · rfl
  · exact (hbits _ hj).2.symm

end Unpack

section Formats

variable {N K numGroups groupSize : Nat}

/-- An AWQ projection: `qweight` is `[K, N/8]`, `qzeros` is `[groups, N/8]`. -/
structure AwqShapes (qweight qzeros : Tensor (BitVec 32)) (N K numGroups groupSize : Nat) :
    Prop where
  columns : N % 8 = 0
  groups : numGroups * groupSize = K
  positive : 0 < K
  qweight : qweight.shape = [K, N / 8]
  qzeros : qzeros.shape = [numGroups, N / 8]

theorem awq_sameCodes {qweight qzeros : Tensor (BitVec 32)}
    (h : AwqShapes qweight qzeros N K numGroups groupSize) :
    SameCodes N K (awqInt4Accessor qweight.flat qzeros.flat N groupSize)
      (awqNibbles qweight qzeros) := by
  have hgroups := h.groups
  have hpos := h.positive
  have hgroupSize : 0 < groupSize := Nat.pos_of_mul_pos_left (by rw [hgroups]; exact hpos)
  have hnumGroups : 0 < numGroups := Nat.pos_of_mul_pos_right (by rw [hgroups]; exact hpos)
  have hdimK : qweight.dim 0 = K := by rw [Tensor.dim, h.qweight]; rfl
  have hdimN : qweight.dim 1 = N / 8 := by rw [Tensor.dim, h.qweight]; rfl
  have hdimG : qzeros.dim 0 = numGroups := by rw [Tensor.dim, h.qzeros]; rfl
  have hN : N / 8 * 8 = N := Nat.div_mul_cancel (Nat.dvd_of_mod_eq_zero h.columns)
  have hsize : K / numGroups = groupSize := by
    rw [← hgroups, Nat.mul_div_cancel_left _ hnumGroups]
  constructor
  · change [qweight.dim 1 * 8, qweight.dim 0] = [N, K]
    rw [hdimK, hdimN, hN]
  · intro n hn k hk
    have hcolumn : n / 8 < N / 8 := by omega
    have hgroup : k / groupSize < numGroups :=
      Nat.div_lt_of_lt_mul (by rw [Nat.mul_comm, hgroups]; exact hk)
    let position := [0, 4, 1, 5, 2, 6, 3, 7].getD (n % 8) 0
    refine ⟨⟨clampNibble (nibble (qweight.get [k, n / 8]) position -
      nibble (qzeros.get [k / groupSize, n / 8]) position + 8#32), clampNibble_lt _⟩, ?_, ?_⟩
    · unfold awqInt4Accessor
      simp only [Tensor.flat_matrix h.qweight hk hcolumn, Tensor.flat_matrix h.qzeros hgroup hcolumn]
      rfl
    · have hnibble := unpackAwq_get (t := qweight) (i := k) (j := n)
        (z := .full [qweight.dim 0, qweight.dim 1 * 8] 0)
      have hzero := unpackAwq_get (t := qzeros) (i := k / groupSize) (j := n)
        (z := .full [qweight.dim 0 / groupSize, qweight.dim 1 * 8] 0)
      rw [← hsize, ← hdimK, ← hdimG] at hzero
      rw [← hsize, ← hdimK, ← hdimG]
      exact congrArg (BitVec.setWidth 16) (congrArg clampNibble
        (congrArg (· + 8#32) (congrArg₂ (· - ·) hnibble hzero)))

/-- The code of a signed nibble, as both sides compute it. -/
theorem signed_nibble (byte : BitVec 8) (r : Nat) (hr : r < 2) :
    ∃ value : Nibble, (let nibble := if r = 1 then byte >>> 4 else byte &&& 0xF#8
       let signedValue : Int :=
         if nibble.toNat < 8 then nibble.toNat else (nibble.toNat : Int) - 16
       BitVec.ofInt 8 (signedValue + 8)) = value.1.setWidth 8 ∧
      ((if r = 0 then byte.setWidth 16 &&& 0xF#16
        else (byte.setWidth 16).sshiftRight 4 &&& 0xF#16) + 8#16) % 16#16 =
        value.1.setWidth 16 := by
  have hall : ∀ byte : BitVec 8, ∀ r < 2,
      let value : BitVec 32 := BitVec.ofNat 32 ((byte.toNat / 16 ^ r + 8) % 16)
      value.toNat < 16 ∧ (let nibble := if r = 1 then byte >>> 4 else byte &&& 0xF#8
       let signedValue : Int :=
         if nibble.toNat < 8 then nibble.toNat else (nibble.toNat : Int) - 16
       BitVec.ofInt 8 (signedValue + 8)) = value.setWidth 8 ∧
      ((if r = 0 then byte.setWidth 16 &&& 0xF#16
        else (byte.setWidth 16).sshiftRight 4 &&& 0xF#16) + 8#16) % 16#16 = value.setWidth 16 := by
    decide +kernel
  obtain ⟨hlt, h8, h16⟩ := hall byte r hr
  exact ⟨⟨_, hlt⟩, h8, h16⟩

theorem modelOpt_sameCodes {weight : Tensor (BitVec 8)} (hN : N % 2 = 0)
    (h : weight.shape = [N / 2, K]) :
    SameCodes N K (modelOptInt4Accessor weight.flat K) (modelOptNibbles weight) := by
  have hdimN : weight.dim 0 = N / 2 := by rw [Tensor.dim, h]; rfl
  have hdimK : weight.dim 1 = K := by rw [Tensor.dim, h]; rfl
  constructor
  · change [weight.dim 0 * 2, weight.dim 1] = [N, K]
    rw [hdimN, hdimK, Nat.div_mul_cancel (Nat.dvd_of_mod_eq_zero hN)]
  · intro n hn k hk
    have hrow : n / 2 < N / 2 := by omega
    obtain ⟨value, haccessor, htensor⟩ :=
      signed_nibble (weight.get [n / 2, k]) (n % 2) (Nat.mod_lt n (by omega))
    refine ⟨value, ?_, ?_⟩
    · unfold modelOptInt4Accessor
      simp only [Tensor.flat_matrix h hrow hk]
      exact haccessor
    · let wI16 := weight.map fun byte => byte.setWidth 16
      have hget : (Tensor.assignAll 0 2 [0, 1] id
          (fun k => if k = 0 then wI16.map fun v => v &&& 0xF#16
            else wI16.map fun v => v.sshiftRight 4 &&& 0xF#16)
          (.full [weight.dim 0 * 2, weight.dim 1] 0)).get [n, k] =
          (if n % 2 = 0 then wI16.map fun v => v &&& 0xF#16
            else wI16.map fun v => v.sshiftRight 4 &&& 0xF#16).get [n / 2, k] := by
        apply Tensor.get_assignAll (k := n % 2) (i := n)
        · simp
        · simp
        · simp
          omega
        · rfl
        · rfl
      rw [← htensor]
      refine congrArg (fun v : BitVec 16 => (v + 8#16) % 16#16) (hget.trans ?_)
      split <;> rfl

end Formats

/-! ## GPTQ -/

theorem sequential_equalGroups {K numGroups groupSize : Nat} (h : numGroups * groupSize = K)
    (hpos : 0 < K) : EqualGroups (fun k => k / groupSize) K numGroups groupSize := by
  have hsize : 0 < groupSize := Nat.pos_of_mul_pos_left (by rw [h]; exact hpos)
  refine ⟨h, fun k hk => Nat.div_lt_of_lt_mul (by rw [Nat.mul_comm, h]; exact hk), ?_⟩
  subst h
  clear hpos
  intro group hgroup
  induction numGroups with
  | zero => omega
  | succ numGroups ih =>
    have hblock : ((List.range groupSize).map (numGroups * groupSize + ·)).filter
        (fun k => k / groupSize = group) =
        if group = numGroups then (List.range groupSize).map (numGroups * groupSize + ·)
        else [] := by
      have hdiv : ∀ i < groupSize, (numGroups * groupSize + i) / groupSize = numGroups := by
        intro i hi
        rw [Nat.mul_comm, Nat.mul_add_div hsize, Nat.div_eq_of_lt hi, Nat.add_zero]
      split
      · rename_i heq
        apply List.filter_eq_self.2
        intro k hk
        obtain ⟨i, hi, rfl⟩ := List.mem_map.1 hk
        simp [hdiv i (List.mem_range.1 hi), heq]
      · rename_i hne
        apply List.filter_eq_nil_iff.2
        intro k hk
        obtain ⟨i, hi, rfl⟩ := List.mem_map.1 hk
        simp [hdiv i (List.mem_range.1 hi), Ne.symm hne]
    rw [Nat.add_mul, Nat.one_mul, List.range_add, List.filter_append, List.length_append, hblock]
    rcases Nat.lt_or_ge group numGroups with hlt | hge
    · rw [ih hlt, if_neg (by omega), List.length_nil, Nat.add_zero]
    · obtain rfl : group = numGroups := by omega
      have hnone : (List.range (group * groupSize)).filter (fun k => k / groupSize = group) =
          [] := by
        apply List.filter_eq_nil_iff.2
        intro k hk
        have hlt : k / groupSize < group :=
          Nat.div_lt_of_lt_mul (by rw [Nat.mul_comm]; exact List.mem_range.1 hk)
        simp
        omega
      rw [hnone, if_pos rfl, List.length_nil, Nat.zero_add, List.length_map, List.length_range]

theorem maxGroup_succ (groupIndex : Nat → Nat) (K : Nat) :
    maxGroup groupIndex (K + 1) = max (maxGroup groupIndex K) (groupIndex K) := by
  unfold maxGroup
  rw [List.range_succ, List.foldl_append]
  rfl

theorem le_maxGroup (groupIndex : Nat → Nat) {K k : Nat} (hk : k < K) :
    groupIndex k ≤ maxGroup groupIndex K := by
  induction K with
  | zero => omega
  | succ K ih =>
    rw [maxGroup_succ]
    rcases Nat.lt_or_ge k K with hlt | hge
    · exact (ih hlt).trans (Nat.le_max_left _ _)
    · obtain rfl : k = K := by omega
      exact Nat.le_max_right _ _

theorem maxGroup_lt {groupIndex : Nat → Nat} {K bound : Nat} (hpos : 0 < bound)
    (h : ∀ k < K, groupIndex k < bound) : maxGroup groupIndex K < bound := by
  induction K with
  | zero => exact hpos
  | succ K ih =>
    rw [maxGroup_succ]
    exact Nat.max_lt.2 ⟨ih fun k hk => h k (by omega), h K (by omega)⟩

/-- With groups of one size the last group is the largest index. -/
theorem EqualGroups.maxGroup_eq {groupIndex : Nat → Nat} {K numGroups groupSize : Nat}
    (h : EqualGroups groupIndex K numGroups groupSize) (hpos : 0 < K) :
    maxGroup groupIndex K + 1 = numGroups := by
  have htotal := h.total
  have hnumGroups : 0 < numGroups := Nat.pos_of_mul_pos_right (by rw [htotal]; exact hpos)
  have hlt := maxGroup_lt hnumGroups h.bound
  have hlast := h.size (numGroups - 1) (by omega)
  have hne : ((List.range K).filter fun k => groupIndex k = numGroups - 1) ≠ [] := by
    intro hnil
    rw [hnil, List.length_nil] at hlast
    have := h.pos hpos
    omega
  obtain ⟨k, hk⟩ := List.exists_mem_of_ne_nil _ hne
  obtain ⟨hrange, hgroup⟩ := List.mem_filter.1 hk
  have hle := le_maxGroup groupIndex (List.mem_range.1 hrange)
  rw [of_decide_eq_true hgroup] at hle
  omega

section Gptq

variable {c : GptqCheckpoint} {N K numGroups groupSize : Nat}

/-- The tensors of a GPTQ checkpoint; without zero points their tensor has no
element, and its rows are the groups or none. -/
structure GptqShapes (c : GptqCheckpoint) (N K numGroups groupSize : Nat) : Prop where
  rows : K % 8 = 0
  width : 0 < N
  positive : 0 < K
  groups : numGroups * groupSize = K
  qweight : c.qweight.shape = [K / 8, N]
  qzeros : N % 8 = 0 ∧ c.qzeros.shape = [numGroups, N / 8] ∨
    c.qzeros.shape = [numGroups, 0] ∨ c.qzeros.shape = [0, 0]
  gIdx : ∀ groupIndex, c.gIdx = some groupIndex → EqualGroups groupIndex K numGroups groupSize

namespace GptqShapes

theorem numGroups_pos (h : GptqShapes c N K numGroups groupSize) : 0 < numGroups :=
  Nat.pos_of_mul_pos_right (by rw [h.groups]; exact h.positive)

theorem groupSize_eq (h : GptqShapes c N K numGroups groupSize) : K / numGroups = groupSize := by
  rw [← h.groups, Nat.mul_div_cancel_left _ h.numGroups_pos]

theorem inFeatures (h : GptqShapes c N K numGroups groupSize) : c.qweight.dim 0 * 8 = K := by
  have hdim : c.qweight.dim 0 = K / 8 := by rw [Tensor.dim, h.qweight]; rfl
  rw [hdim, Nat.div_mul_cancel (Nat.dvd_of_mod_eq_zero h.rows)]

theorem outFeatures (h : GptqShapes c N K numGroups groupSize) : c.qweight.dim 1 = N := by
  rw [Tensor.dim, h.qweight]
  rfl

/-- Zero points are stored exactly when their tensor has a row per group of
`N / 8` words. -/
theorem symmetric_iff (h : GptqShapes c N K numGroups groupSize) :
    c.symmetric = false ↔ N % 8 = 0 ∧ c.qzeros.shape = [numGroups, N / 8] := by
  have hwidth := h.width
  have hpos := h.numGroups_pos
  unfold GptqCheckpoint.symmetric
  rw [decide_eq_false_iff_not]
  constructor
  · intro hne
    rcases h.qzeros with hz | hz | hz
    · exact hz
    · exact absurd (by rw [Tensor.numel, hz]; rfl) hne
    · exact absurd (by rw [Tensor.numel, hz]; rfl) hne
  · rintro ⟨hmod, hz⟩ hzero
    rw [Tensor.numel, hz] at hzero
    simp only [List.prod_cons, List.prod_nil, Nat.mul_one, Nat.mul_eq_zero] at hzero
    omega

/-- The exporter numbers the groups as the checkpoint does, unless neither zero
points nor `g_idx` tell it any. -/
theorem numGroups_eq (h : GptqShapes c N K numGroups groupSize) :
    c.numGroups = numGroups ∨ c.symmetric = true ∧ c.gIdx = none ∧ c.numGroups = 1 := by
  have hpos := h.numGroups_pos
  have hrow : ∀ m, c.qzeros.shape = [numGroups, m] → c.numGroups = numGroups := by
    intro m hz
    have hdim : c.qzeros.dim 0 = numGroups := by rw [Tensor.dim, hz]; rfl
    unfold GptqCheckpoint.numGroups
    simp only [hdim, hz, ne_eq, reduceCtorEq, not_false_eq_true, hpos, and_self, if_true, ite_self]
  rcases h.qzeros with ⟨-, hz⟩ | hz | hz
  · exact Or.inl (hrow _ hz)
  · exact Or.inl (hrow _ hz)
  · have hdim : c.qzeros.dim 0 = 0 := by rw [Tensor.dim, hz]; rfl
    have hsymmetric : c.symmetric = true := by
      unfold GptqCheckpoint.symmetric
      rw [Tensor.numel, hz]
      rfl
    have hvalue : c.numGroups = match c.gIdx with
        | some groupIndex => maxGroup groupIndex K + 1
        | none => 1 := by
      unfold GptqCheckpoint.numGroups
      simp only [hsymmetric, hdim, h.inFeatures, if_true, Nat.lt_irrefl, and_false, if_false]
    cases hg : c.gIdx with
    | some groupIndex =>
      left
      rw [hvalue, hg]
      exact (h.gIdx groupIndex hg).maxGroup_eq h.positive
    | none => exact Or.inr ⟨hsymmetric, rfl, by rw [hvalue, hg]⟩

/-- The groups the exporter assumes are of one size. -/
theorem exporterGroups (h : GptqShapes c N K numGroups groupSize) :
    EqualGroups (c.groupIndex (K / c.numGroups)) K c.numGroups (K / c.numGroups) := by
  unfold GptqCheckpoint.groupIndex
  rcases h.numGroups_eq with heq | ⟨-, hg, hone⟩
  · rw [heq, h.groupSize_eq]
    cases hg : c.gIdx with
    | some groupIndex => exact h.gIdx groupIndex hg
    | none => exact sequential_equalGroups h.groups h.positive
  · rw [hone, hg, Nat.div_one]
    exact sequential_equalGroups (Nat.one_mul K) h.positive

end GptqShapes

/-- The code of an output channel and an unpermuted input channel, of group
`group`. -/
def gptqCode (c : GptqCheckpoint) (n source group : Nat) : BitVec 32 :=
  let value := nibble (c.qweight.get [source / 8, n]) (source % 8)
  if c.symmetric then value
  else recentre c.zeroPointOffset value (nibble (c.qzeros.get [group, n / 8]) (n % 8))

theorem gptqCode_lt (n source group : Nat) : (gptqCode c n source group).toNat < 16 := by
  unfold gptqCode
  split
  · exact nibble_lt _ _
  · exact recentre_lt _ _ _

/-- Re-centring against the exporter's zero points gives the code. -/
theorem zeros_eq (hoffset : c.symmetric = true → 8 - c.zeroPointOffset.toInt < 2 ^ 31) :
    ∃ zeros, c.zeros = .ok zeros ∧ ∀ n source group,
      recentre c.zeroPointOffset (nibble (c.qweight.get [source / 8, n]) (source % 8))
        (zeros.get [group, n]) = gptqCode c n source group := by
  unfold GptqCheckpoint.zeros gptqCode
  by_cases hsymmetric : c.symmetric = true
  · have hfits := hoffset hsymmetric
    simp only [hsymmetric, if_true, if_neg (Int.not_le.2 hfits)]
    refine ⟨_, rfl, fun n source group => ?_⟩
    have hmidpoint : BitVec.ofInt 32 (8 - c.zeroPointOffset.toInt) = 8#32 - c.zeroPointOffset := by
      rw [Int.sub_eq_add_neg, BitVec.ofInt_add, BitVec.ofInt_neg, BitVec.ofInt_toInt,
        ← BitVec.sub_eq_add_neg]
      rfl
    rw [Tensor.get_full, hmidpoint, recentre_midpoint (nibble_lt _ _)]
  · simp only [hsymmetric, if_false, Bool.false_eq_true]
    refine ⟨_, rfl, fun n source group => ?_⟩
    rw [unpackColumns_get]

/-- Groups of one size are gathered without complaint. -/
theorem gatherRows_eq {weight : Tensor (BitVec 32)} {groupIndex : Nat → Nat}
    (h : EqualGroups groupIndex K numGroups groupSize) (hpos : 0 < K) (hdim : weight.dim 0 = K) :
    gatherRowsByGidxOrder weight groupIndex groupSize =
      .ok (weight.selectRows (permuteIdx groupIndex K numGroups),
        permuteIdx groupIndex K numGroups) := by
  have hgroupNum : K / groupSize = numGroups :=
    Nat.div_eq_of_eq_mul_left (h.pos hpos) h.total.symm
  unfold gatherRowsByGidxOrder
  simp only [hdim, hgroupNum, h.maxGroup_eq hpos, ne_eq, not_true_eq_false, if_false]

theorem transposed_selectRows {weight : Tensor (BitVec 32)} (rows : List Nat)
    (hshape : weight.shape = [K, N]) :
    (transposed (weight.selectRows rows)).shape = [N, rows.length] ∧
      ∀ n k source, rows[k]? = some source → (transposed (weight.selectRows rows)).get [n, k] =
          (weight.get [source, n]).setWidth 16 := by
  constructor
  · change [(rows.length :: weight.shape.tail).getD 1 1, rows.length] = _
    rw [hshape]
    rfl
  · intro n k source hsource
    change (weight.get [rows.getD k 0, n]).setWidth 16 = _
    rw [List.getD_eq_getElem?_getD, hsource]
    rfl

/-- The exporter's matrix: channel `k` is the one `permute_idx` puts there. -/
theorem gptqNibbles_eq (h : GptqShapes c N K numGroups groupSize)
    (hoffset : c.symmetric = true → 8 - c.zeroPointOffset.toInt < 2 ^ 31) : ∃ t, gptqNibbles c =
        .ok (t, permuteIdx (c.groupIndex (K / c.numGroups)) K c.numGroups) ∧ t.shape = [N, K] ∧
      ∀ n k source, (permuteIdx (c.groupIndex (K / c.numGroups)) K c.numGroups)[k]? = some source →
        t.get [n, k] = (gptqCode c n source (c.groupIndex (K / c.numGroups) source)).setWidth 16 := by
  have hgroups := h.exporterGroups
  obtain ⟨zeros, hzeros, hcode⟩ := zeros_eq hoffset
  unfold gptqNibbles
  simp only [hzeros, h.inFeatures, h.outFeatures]
  set groupIndex := c.groupIndex (K / c.numGroups) with hindex
  have hbound : ¬∃ k < K, c.numGroups ≤ groupIndex k := by
    rintro ⟨k, hk, hle⟩
    have := hgroups.bound k hk
    omega
  simp only [bind, Except.bind, if_neg hbound, pure, Except.pure]
  set nibbles := Tensor.assignAll 0 8 (List.range 8) id
    (fun k => c.qweight.map fun word => nibble word k) (.full [K, N] 0) with hnibbles
  set adjusted := Tensor.zipWith (recentre c.zeroPointOffset) nibbles
    { shape := [K, N], get := fun idx => zeros.get (groupIndex (idx.headD 0) :: idx.tail) }
    with hadjusted
  have hshape : adjusted.shape = [K, N] := by
    rw [hadjusted, Tensor.shape_zipWith, hnibbles, Tensor.shape_assignAll]
    rfl
  have hget : ∀ n source, adjusted.get [source, n] = gptqCode c n source (groupIndex source) := by
    intro n source
    rw [hadjusted, Tensor.get_zipWith, hnibbles, unpackRows_get, ← hcode]
    rfl
  have hdim : adjusted.dim 0 = K := by
    rw [Tensor.dim, hshape]
    rfl
  have hlength : (permuteIdx groupIndex K c.numGroups).length = K := by
    rw [(permuteIdx_perm hgroups.bound).length_eq, List.length_range]
  obtain ⟨hrows, hselect⟩ :=
    transposed_selectRows (permuteIdx groupIndex K c.numGroups) hshape
  rw [gatherRows_eq hgroups h.positive hdim]
  refine ⟨_, rfl, by rw [hrows, hlength], fun n k source hsource => ?_⟩
  rw [hselect n k source hsource, hget]

/-- The permutation the exporter gathers by. -/
def GptqCheckpoint.permutation (c : GptqCheckpoint) (K : Nat) : List Nat :=
  permuteIdx (c.groupIndex (K / c.numGroups)) K c.numGroups

/-- Reading through the exporter's permutation, or directly where it is the
identity, the accessor and the exporter's matrix hold the same codes. -/
theorem gptq_sameCodes (h : GptqShapes c N K numGroups groupSize)
    (hoffset : c.symmetric = true → 8 - c.zeroPointOffset.toInt < 2 ^ 31)
    {permutation : Option (Nat → Nat)}
    (hpermutation : ∀ k < K, (c.permutation K)[k]? =
      some (match permutation with
        | none => k
        | some permutation => permutation k)) :
    ∃ t, gptqNibbles c = .ok (t, c.permutation K) ∧ SameCodes N K (gptqInt4Accessor c.qweight.flat
        (if c.symmetric then none else some c.qzeros.flat) permutation N groupSize
        c.zeroPointOffset) t := by
  obtain ⟨t, ht, hshape, hget⟩ := gptqNibbles_eq h hoffset
  refine ⟨t, ht, hshape, fun n hn k hk => ?_⟩
  have hsource := hpermutation k hk
  obtain ⟨source, hfound, hlt, hgroup, -⟩ := h.exporterGroups.exists_getElem? hk
  obtain rfl : source = _ := Option.some.inj (hfound.symm.trans hsource)
  set source := (match permutation with
    | none => k
    | some permutation => permutation k) with hsourceDef
  refine ⟨⟨gptqCode c n source (c.groupIndex (K / c.numGroups) source), gptqCode_lt _ _ _⟩, ?_,
    hget n k source hfound⟩
  have hrow : source / 8 < K / 8 := by
    have := h.rows
    omega
  unfold gptqInt4Accessor gptqCode
  simp only [← hsourceDef, Tensor.flat_matrix h.qweight hrow hn, hgroup]
  by_cases hsymmetric : c.symmetric = true
  · simp only [hsymmetric, if_true]
  · obtain ⟨hcolumns, hz⟩ := h.symmetric_iff.1 (by simpa using hsymmetric)
    have heq : c.numGroups = numGroups := by
      rcases h.numGroups_eq with heq | ⟨hcontra, -⟩
      · exact heq
      · exact absurd hcontra hsymmetric
    have hgroupLt : k / groupSize < numGroups :=
      Nat.div_lt_of_lt_mul (by rw [Nat.mul_comm, h.groups]; exact hk)
    have hcolumn : n / 8 < N / 8 := by omega
    simp only [hsymmetric, if_false, Bool.false_eq_true, heq, h.groupSize_eq,
      Tensor.flat_matrix hz hgroupLt hcolumn]

end Gptq

end EdgeLLM.Ports.Int4
