import EdgeLLM.Ports.Int4CheckpointRepack
import EdgeLLM.Ports.Int4Layouts

/-!
# What an exported INT4 projection stands for

The plugin multiplies `code - 8` by the scale of the group.  A checkpoint means
`stored - zero`, so the exporter re-centres each code and clamps it to four
bits.  Read back through the layout, the buffer gives the weights of the
checkpoint exactly when no re-centred code is clamped.
-/

namespace EdgeLLM.Ports.Int4

open Verified

/-! ## Weights -/

/-- The bit position of an output channel in an AWQ word. -/
def awqPosition (n : Nat) : Nat := [0, 4, 1, 5, 2, 6, 3, 7].getD (n % 8) 0

/-- The weight of an output and an input channel over the scale of its group:
the stored code less the actual zero point, or the signed code. -/
def Checkpoint.weight : Checkpoint → Nat → Nat → Int
  | .gptq c _, n, k =>
    let stored := nibble (c.qweight.get [k / 8, n]) (k % 8)
    let group := c.groupIndex (c.qweight.dim 0 * 8 / c.numGroups) k
    let zero : Int := if c.symmetric then 8
      else (nibble (c.qzeros.get [group, n / 8]) (n % 8)).toNat + c.zeroPointOffset.toInt
    stored.toNat - zero
  | .awq qweight qzeros, n, k =>
    let stored := nibble (qweight.get [k, n / 8]) (awqPosition n)
    let zero := nibble (qzeros.get [k / (qweight.dim 0 / qzeros.dim 0), n / 8]) (awqPosition n)
    stored.toNat - zero.toNat
  | .modelOpt w, n, k => (field 4 (w.get [n / 2, k]) (n % 2)).toInt

/-- The code of a buffer at output channel `n` and input channel `k`. -/
def readCode (version : PluginVersion) (K : Nat) (words : Words version) (n k : Nat) : BitVec 4 :=
  match version with
  | .v1 => field 4 (words (packPlace K n k).1) (packPlace K n k).2
  | .v2 => field 4 (words (fragmentPlace ((K + 63) / 64) n k).1) (fragmentPlace ((K + 63) / 64) n k).2

/-- The exported buffer keeps the weights: channel `k` of it stands for the
channel that the activation permutation puts there. -/
def Checkpoint.Preserved (version : PluginVersion) (N K : Nat) (checkpoint : Checkpoint) : Prop :=
  ∃ exported, checkpoint.repack version = .ok exported ∧ ∀ n < N, ∀ k < K,
    ((readCode version K exported.words n k).toNat : Int) - 8 =
      checkpoint.weight n (exported.permutation.getD k k)

/-- A weight that a code can stand for. -/
def Representable (weight : Int) : Prop := -8 ≤ weight ∧ weight ≤ 7

section Clamping

theorem toNat_clampNibble {x : Int} (hx : 0 ≤ x) (hx' : x < 16) :
    ((clampNibble (BitVec.ofInt 32 x)).toNat : Int) = x := by
  obtain ⟨m, rfl⟩ := Int.eq_ofNat_of_zero_le hx
  have hm : m < 16 := by omega
  have hall : ∀ m < 16, ((clampNibble (BitVec.ofInt 32 (m : Nat))).toNat) = m := by decide
  exact congrArg Nat.cast (hall m hm)

/-- A clamped code stands for the weight exactly when nothing was clamped. -/
theorem clampNibble_iff (weight : Int) :
    ((clampNibble (BitVec.ofInt 32 (weight + 8))).toNat : Int) - 8 = weight ↔
      Representable weight := by
  have hlt := clampNibble_lt (BitVec.ofInt 32 (weight + 8))
  unfold Representable
  constructor
  · intro h
    omega
  · rintro ⟨hlow, hhigh⟩
    rw [toNat_clampNibble (by omega) (by omega)]
    omega

theorem recentred_iff (offset value zero : BitVec 32) :
    ((recentre offset value zero).toNat : Int) - 8 =
        (value.toNat : Int) - (zero.toNat + offset.toInt) ↔
      Representable ((value.toNat : Int) - (zero.toNat + offset.toInt)) := by
  have hword : value - zero - offset + 8#32 =
      BitVec.ofInt 32 ((value.toNat : Int) - (zero.toNat + offset.toInt) + 8) := by
    rw [BitVec.ofInt_add, Int.sub_eq_add_neg, BitVec.ofInt_add, BitVec.ofInt_neg, BitVec.ofInt_add,
      BitVec.ofInt_toInt, BitVec.ofInt_natCast, BitVec.ofInt_natCast, BitVec.ofNat_toNat,
      BitVec.ofNat_toNat, BitVec.setWidth_eq, BitVec.setWidth_eq, BitVec.neg_add,
      BitVec.sub_eq_add_neg, BitVec.sub_eq_add_neg, BitVec.sub_eq_add_neg, BitVec.add_assoc value]
    rfl
  rw [recentre, hword, clampNibble_iff]

end Clamping

section Read

variable {version : PluginVersion} {N K : Nat} {t : Tensor (BitVec 16)}

theorem packed_read (h : Codes N K t) (hN : N % 64 = 0) (hK : K % 64 = 0) :
    ∃ words, packed version t = .ok words ∧
      ∀ n < N, ∀ k < K, readCode version K words n k = codeOf t n k := by
  cases version with
  | v1 =>
    have hlossless := (packIntweights_lossless h (packAccepts_of_blocks (by omega) hK)).2
    exact ⟨_, rfl, fun n hn k hk => hlossless.holds n hn k hk⟩
  | v2 =>
    obtain ⟨out, hout, -, hlossless⟩ := repackToCutedslFragment_lossless h hN hK
    refine ⟨out.flat, ?_, ?_⟩
    · simp only [packed, hout]
      rfl
    · intro n hn k hk
      exact (hlossless.holds n (by omega) k (by omega)).trans (if_pos ⟨hn, hk⟩)

/-- The codes of an accessor are those of the matrix. -/
theorem SameCodes.codes {accessor : Accessor} (h : SameCodes N K accessor t) :
    Codes N K t ∧ ∀ n < N, ∀ k < K, codeOf t n k = (accessor n k).setWidth 4 := by
  refine ⟨⟨h.shape, ?_⟩, ?_⟩
  · intro n hn k hk
    obtain ⟨value, -, htensor⟩ := h.code n hn k hk
    have hlt := value.2
    rw [htensor, BitVec.toNat_setWidth]
    omega
  · intro n hn k hk
    obtain ⟨value, haccessor, htensor⟩ := h.code n hn k hk
    rw [codeOf, haccessor, htensor, BitVec.setWidth_setWidth_of_le _ (by omega),
      BitVec.setWidth_setWidth_of_le _ (by omega)]

theorem toNat_code {value : BitVec 32} (h : value.toNat < 16) (w : Nat) (hw : 4 ≤ w) :
    ((value.setWidth w).setWidth 4).toNat = value.toNat := by
  rw [BitVec.setWidth_setWidth_of_le _ hw, BitVec.toNat_setWidth]
  omega

/-- A projection whose codes are re-centred one by one. -/
theorem preserved_iff {checkpoint : Checkpoint} {rows : List Nat} (h : Codes N K t)
    (hN : N % 64 = 0) (hK : K % 64 = 0)
    (hrepack : checkpoint.repack version = (packed version t).map fun words => ⟨words, rows⟩)
    (hlt : ∀ k < K, rows.getD k k < K) (hsurj : ∀ k < K, ∃ j < K, rows.getD j j = k)
    (hcode : ∀ n < N, ∀ k < K, ((codeOf t n k).toNat : Int) - 8 =
      checkpoint.weight n (rows.getD k k) ↔ Representable (checkpoint.weight n (rows.getD k k))) :
    checkpoint.Preserved version N K ↔ ∀ n < N, ∀ k < K, Representable (checkpoint.weight n k) := by
  obtain ⟨words, hwords, hread⟩ := @packed_read version _ _ _ h hN hK
  rw [hwords] at hrepack
  constructor
  · rintro ⟨exported, hexported, hweights⟩ n hn k hk
    obtain rfl := Except.ok.inj (hrepack.symm.trans hexported)
    obtain ⟨j, hj, rfl⟩ := hsurj k hk
    apply (hcode n hn j hj).1
    rw [← hread n hn j hj]
    exact hweights n hn j hj
  · intro hrepresentable
    refine ⟨_, hrepack, ?_⟩
    intro n hn k hk
    rw [hread n hn k hk]
    exact (hcode n hn k hk).2 (hrepresentable n hn _ (hlt k hk))

end Read

/-! ## The formats -/

section Formats

variable {version : PluginVersion} {N K numGroups groupSize : Nat}

theorem awq_preserved_iff {qweight qzeros : Tensor (BitVec 32)}
    (h : AwqShapes qweight qzeros N K numGroups groupSize) (hN : N % 64 = 0) (hK : K % 64 = 0) :
    (Checkpoint.awq qweight qzeros).Preserved version N K ↔
      ∀ n < N, ∀ k < K, Representable ((Checkpoint.awq qweight qzeros).weight n k) := by
  obtain ⟨hcodes, haccessor⟩ := (awq_sameCodes h).codes
  apply @preserved_iff version _ _ _ _ [] hcodes hN hK rfl (fun k hk => hk)
    (fun k hk => ⟨k, hk, rfl⟩)
  intro n hn k hk
  have hgroups := h.groups
  have hpos := h.positive
  have hnumGroups : 0 < numGroups := Nat.pos_of_mul_pos_right (by rw [hgroups]; exact hpos)
  have hsize : qweight.dim 0 / qzeros.dim 0 = groupSize := by
    rw [Tensor.dim, Tensor.dim, h.qweight, h.qzeros]
    change K / numGroups = groupSize
    rw [← hgroups, Nat.mul_div_cancel_left _ hnumGroups]
  have hcolumn : n / 8 < N / 8 := by
    have := h.columns
    omega
  have hgroup : k / groupSize < numGroups :=
    Nat.div_lt_of_lt_mul (by rw [Nat.mul_comm, hgroups]; exact hk)
  have hzeroOffset : ∀ value zero : BitVec 32, clampNibble (value - zero + 8#32) =
      recentre 0#32 value zero := by
    intro value zero
    rw [recentre, BitVec.sub_zero]
  rw [haccessor n hn k hk]
  unfold awqInt4Accessor
  simp only [Tensor.flat_matrix h.qweight hk hcolumn, Tensor.flat_matrix h.qzeros hgroup hcolumn,
    hzeroOffset, toNat_code (recentre_lt _ _ _) 8 (by omega), Checkpoint.weight, hsize,
    List.getD_nil, awqPosition]
  exact recentred_iff 0#32 _ _

/-- Without stored zero points the midpoint has to be a 32-bit integer. -/
def MidpointFits (c : GptqCheckpoint) : Prop :=
  c.symmetric = true → 8 - c.zeroPointOffset.toInt < 2 ^ 31

section Gptq

variable {c : GptqCheckpoint} {size : Option Nat}

/-- Without the midpoint nothing is exported. -/
theorem not_preserved_of_midpoint (hmidpoint : ¬MidpointFits c) :
    ¬(Checkpoint.gptq c size).Preserved version N K := by
  obtain ⟨hsymmetric, hlarge⟩ := Classical.not_imp.1 hmidpoint
  have hzeros : c.zeros = .error .offsetOverflow := by
    unfold GptqCheckpoint.zeros
    simp only [hsymmetric, if_true]
    exact if_pos (Int.not_lt.1 hlarge)
  rintro ⟨exported, hexported, -⟩
  simp only [Checkpoint.repack, gptqNibbles, hzeros, bind, Except.bind] at hexported
  cases hexported

/-- The channels of the permutation are all channels. -/
theorem permutation_getD (h : GptqShapes c N K numGroups groupSize) :
    (∀ k < K, (c.permutation K)[k]? = some ((c.permutation K).getD k k) ∧
      (c.permutation K).getD k k < K) ∧ ∀ k < K, ∃ j < K, (c.permutation K).getD j j = k := by
  have hperm := permuteIdx_perm h.exporterGroups.bound
  have hlength : (c.permutation K).length = K := by
    rw [GptqCheckpoint.permutation, hperm.length_eq, List.length_range]
  constructor
  · intro k hk
    obtain ⟨source, hsource, hlt, -, -⟩ := h.exporterGroups.exists_getElem? hk
    rw [List.getD_eq_getElem?_getD, GptqCheckpoint.permutation, hsource]
    exact ⟨rfl, hlt⟩
  · intro k hk
    have hmem : k ∈ c.permutation K := hperm.mem_iff.2 (List.mem_range.2 hk)
    obtain ⟨j, hj, hget⟩ := List.mem_iff_getElem.1 hmem
    refine ⟨j, by omega, ?_⟩
    rw [List.getD_eq_getElem?_getD, List.getElem?_eq_getElem hj, hget]
    rfl

/-- A code of a GPTQ projection keeps its weight unless it is clamped. -/
theorem gptqCode_iff (n source : Nat) :
    ((gptqCode c n source (c.groupIndex (c.qweight.dim 0 * 8 / c.numGroups) source)).toNat : Int) -
        8 = (Checkpoint.gptq c size).weight n source ↔
      Representable ((Checkpoint.gptq c size).weight n source) := by
  unfold gptqCode
  simp only [Checkpoint.weight]
  by_cases hsymmetric : c.symmetric = true
  · have hlt := nibble_lt (c.qweight.get [source / 8, n]) (source % 8)
    simp only [hsymmetric, if_true, true_iff]
    unfold Representable
    omega
  · simp only [hsymmetric, if_false, Bool.false_eq_true]
    exact recentred_iff _ _ _

theorem gptq_preserved_iff (h : GptqShapes c N K numGroups groupSize) (hN : N % 64 = 0)
    (hK : K % 64 = 0) : (Checkpoint.gptq c size).Preserved version N K ↔
      (∀ n < N, ∀ k < K, Representable ((Checkpoint.gptq c size).weight n k)) ∧ MidpointFits c := by
  by_cases hmidpoint : MidpointFits c
  · rw [and_iff_left hmidpoint]
    obtain ⟨t, ht, hshape, hget⟩ := gptqNibbles_eq h hmidpoint
    obtain ⟨hrows, hsurj⟩ := permutation_getD h
    have hvalue : ∀ n, ∀ k < K, t.get [n, k] = (gptqCode c n ((c.permutation K).getD k k)
        (c.groupIndex (c.qweight.dim 0 * 8 / c.numGroups)
          ((c.permutation K).getD k k))).setWidth 16 := by
      intro n k hk
      rw [h.inFeatures]
      exact hget n k _ (hrows k hk).1
    have hcodes : Codes N K t := by
      refine ⟨hshape, ?_⟩
      intro n hn k hk
      have hlt := gptqCode_lt (c := c) n ((c.permutation K).getD k k)
        (c.groupIndex (c.qweight.dim 0 * 8 / c.numGroups) ((c.permutation K).getD k k))
      rw [hvalue n k hk, BitVec.toNat_setWidth]
      omega
    apply preserved_iff hcodes hN hK _ (fun k hk => (hrows k hk).2) hsurj
    · intro n hn k hk
      rw [codeOf, hvalue n k hk, toNat_code (gptqCode_lt _ _ _) 16 (by omega)]
      exact gptqCode_iff n _
    · simp only [Checkpoint.repack, ht, Except.bind]
      rfl
  · constructor
    · intro hpreserved
      exact absurd hpreserved (not_preserved_of_midpoint hmidpoint)
    · intro h'
      exact absurd h'.2 hmidpoint

end Gptq

theorem modelOpt_code (byte : BitVec 8) : ∀ r < 2,
    ((let nibble := if r = 1 then byte >>> 4 else byte &&& 0xF#8
      let signedValue : Int :=
        if nibble.toNat < 8 then nibble.toNat else (nibble.toNat : Int) - 16
      (BitVec.ofInt 8 (signedValue + 8)).setWidth 4).toNat : Int) - 8 = (field 4 byte r).toInt := by
  revert byte
  decide +kernel

theorem modelOpt_preserved {weight : Tensor (BitVec 8)} (hN2 : N % 2 = 0)
    (h : weight.shape = [N / 2, K]) (hN : N % 64 = 0) (hK : K % 64 = 0) :
    (Checkpoint.modelOpt weight).Preserved version N K ↔
      ∀ n < N, ∀ k < K, Representable ((Checkpoint.modelOpt weight).weight n k) := by
  obtain ⟨hcodes, haccessor⟩ := (modelOpt_sameCodes hN2 h).codes
  apply @preserved_iff version _ _ _ _ [] hcodes hN hK rfl (fun k hk => hk)
    (fun k hk => ⟨k, hk, rfl⟩)
  intro n hn k hk
  have hrow : n / 2 < N / 2 := by omega
  have hcode := modelOpt_code (weight.get [n / 2, k]) (n % 2) (Nat.mod_lt n (by omega))
  have hbounds : ∀ x : BitVec 4, -8 ≤ x.toInt ∧ x.toInt ≤ 7 := by decide
  rw [haccessor n hn k hk]
  unfold modelOptInt4Accessor
  simp only [Tensor.flat_matrix h hrow hk, Checkpoint.weight, List.getD_nil]
  exact iff_of_true hcode (hbounds _)

end Formats

/-- An exported projection keeps every weight of its checkpoint exactly when
each is one that a code stands for, and without stored zero points the midpoint
fits in a word. -/
theorem repack_preserves_iff {version : PluginVersion} {checkpoint : Checkpoint} {N K : Nat}
    (h : checkpoint.Shapes N K) (hN : N % 64 = 0) (hK : K % 64 = 0) :
    checkpoint.Preserved version N K ↔
      (∀ n < N, ∀ k < K, Representable (checkpoint.weight n k)) ∧
        ∀ c size, checkpoint = .gptq c size → MidpointFits c := by
  cases checkpoint with
  | gptq c size =>
    obtain ⟨numGroups, groupSize, hshapes⟩ := h
    rw [gptq_preserved_iff hshapes hN hK]
    apply and_congr_right
    intro _
    constructor
    · intro hmidpoint c' size' hc
      obtain ⟨rfl, -⟩ := Checkpoint.gptq.inj hc
      exact hmidpoint
    · intro hall
      exact hall c size rfl
  | awq qweight qzeros =>
    obtain ⟨numGroups, groupSize, hshapes⟩ := h
    rw [awq_preserved_iff hshapes hN hK]
    exact (and_iff_left fun c size hc => by cases hc).symm
  | modelOpt weight =>
    rw [modelOpt_preserved h.1 h.2 hN hK]
    exact (and_iff_left fun c size hc => by cases hc).symm

/-- An AWQ projection of one group whose words and zero points are constant. -/
def constantAwq (word zeros : BitVec 32) : Checkpoint :=
  .awq (.full [64, 8] word) (.full [1, 8] zeros)

theorem constantAwq_shapes (word zeros : BitVec 32) :
    AwqShapes (.full [64, 8] word) (.full [1, 8] zeros) 64 64 1 64 :=
  ⟨rfl, rfl, by decide, rfl, rfl⟩

/-- Against the midpoint every code keeps its weight. -/
theorem repack_preserves_midpoint :
    (constantAwq 0xFEDCBA98#32 0x88888888#32).Preserved .v2 64 64 := by
  have hshapes : (constantAwq 0xFEDCBA98#32 0x88888888#32).Shapes 64 64 :=
    ⟨1, 64, constantAwq_shapes _ _⟩
  apply (repack_preserves_iff hshapes rfl rfl).2
  refine ⟨?_, ?_⟩
  · intro n _ k _
    have hall : ∀ r < 8, Representable
        (((nibble 0xFEDCBA98#32 ([0, 4, 1, 5, 2, 6, 3, 7].getD r 0)).toNat : Int) -
          ((nibble 0x88888888#32 ([0, 4, 1, 5, 2, 6, 3, 7].getD r 0)).toNat : Int)) := by
      unfold Representable
      decide
    exact hall (n % 8) (Nat.mod_lt n (by omega))
  · intro c size hc
    cases hc

/-- A code of 15 against a zero point of 0 stands for 15, and is exported as 7. -/
theorem repack_clamps :
    (constantAwq 0xFFFFFFFF#32 0#32).Shapes 64 64 ∧
      (constantAwq 0xFFFFFFFF#32 0#32).weight 0 0 = 15 ∧
      ¬(constantAwq 0xFFFFFFFF#32 0#32).Preserved .v1 64 64 := by
  refine ⟨⟨1, 64, constantAwq_shapes _ _⟩, by decide, ?_⟩
  intro hpreserved
  have hall := (awq_preserved_iff (constantAwq_shapes 0xFFFFFFFF#32 0#32) rfl rfl).1 hpreserved
  have hweight := hall 0 (by decide) 0 (by decide)
  revert hweight
  unfold Representable
  decide

end EdgeLLM.Ports.Int4
