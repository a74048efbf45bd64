import EdgeLLM.Ports.Int4SourceAccessors

/-!
# Loading an INT4 projection, and exporting it

The exporter can bake the weights of a projection into the engine, or leave
them to the runtime, which packs them from the checkpoint when it starts.
Either way the plugin reads the same buffer.
-/

namespace EdgeLLM.Ports.Int4

open Verified

/-- `int4_gemm_plugin_version` -/
inductive PluginVersion where
  | v1
  | v2

/-- The bits of a word of the layout. -/
def PluginVersion.width : PluginVersion → Nat
  | .v1 => 16
  | .v2 => 32

/-- The words of a weight buffer. -/
abbrev Words (version : PluginVersion) := Nat → BitVec version.width

/-- The number of words of a weight buffer. -/
def wordCount (version : PluginVersion) (N K : Nat) : Nat :=
  match version with
  | .v1 => N / 4 * K
  | .v2 => int4CuteDslFragmentRows N K * 128

/-! ## The loader -/

/-- The repack of one projection; `none` is an error status. -/
def launchRepack (version : PluginVersion) (accessor : Accessor) (N K : Nat)
    (output : Words version) : Option (Words version) :=
  match version with
  | .v1 => launchDirectInt4PluginV1Repack accessor N K output
  | .v2 => launchDirectInt4CuteDslRepack accessor N K output

/-- Whether the groups are sequential; `none` is a failed check. -/
def validateGptqGroups (values : Nat → Nat) (K numGroups groupSize : Nat) : Option Bool :=
  if 0 < numGroups ∧ 0 < groupSize ∧ numGroups * groupSize = K ∧
      (∀ k < K, values k < numGroups) ∧
      ∀ group < numGroups, (List.range K).countP (fun k => values k = group) = groupSize then
    some (decide (∀ k < K, values k = k / groupSize))
  else none

/-- The permutation of an engine whose binding names `groupSize`. -/
def assembleGptqActivationPermutation (c : GptqCheckpoint) (groupSize : Nat)
    (output : Nat → Nat) : Option (Nat → Nat) :=
  match c.gIdx with
  | none => none
  | some values =>
    let K := c.qweight.dim 0 * 8
    if 0 < groupSize ∧ K % groupSize = 0 then
      (validateGptqGroups values K (K / groupSize) groupSize).map fun _ =>
        gptqActivationPermutationKernel values K (K / groupSize) groupSize output
    else none

/-- The number of groups and the group size; `none` is a failed check. -/
def gptqGeometry (c : GptqCheckpoint) (K N : Nat) : Option (Nat × Nat) :=
  if c.symmetric then
    match c.gIdx with
    | none => some (0, K)
    | some values =>
      let numGroups := maxGroup values K + 1
      if K % numGroups = 0 then some (numGroups, K / numGroups) else none
  else
    let numGroups := c.qzeros.dim 0
    if c.qzeros.shape.length = 2 ∧ c.qzeros.dim 1 * 8 = N ∧ 0 < numGroups ∧ K % numGroups = 0 then
      some (numGroups, K / numGroups)
    else none

def assembleGptqFfnQweight (version : PluginVersion) (c : GptqCheckpoint)
    (activationPermutation : Option (Nat → Nat)) (output : Words version) :
    Option (Words version) :=
  let K := c.qweight.dim 0 * 8
  let N := c.qweight.dim 1
  if c.qweight.shape.length ≠ 2 then none
  else
    (gptqGeometry c K N).bind fun geometry =>
      let sequential := match c.gIdx with
        | none => some true
        | some values => validateGptqGroups values K geometry.1 geometry.2
      sequential.bind fun sequential =>
        if sequential = false ∧ activationPermutation.isNone then none
        else
          let zeros := if c.symmetric then none else some c.qzeros.flat
          if zeros.isSome ∧ (geometry.1 = 0 ∨ geometry.1 * geometry.2 ≠ K) then none
          else launchRepack version (gptqInt4Accessor c.qweight.flat zeros activationPermutation N
            geometry.2 c.zeroPointOffset) N K output

def assembleAwqFfnQweight (version : PluginVersion) (qweight qzeros : Tensor (BitVec 32))
    (output : Words version) : Option (Words version) :=
  if qweight.shape.length = 2 ∧ qzeros.shape.length = 2 ∧ qzeros.dim 1 = qweight.dim 1 then
    let K := qweight.dim 0
    let N := qweight.dim 1 * 8
    let numGroups := qzeros.dim 0
    if 0 < numGroups ∧ K % numGroups = 0 then
      launchRepack version (awqInt4Accessor qweight.flat qzeros.flat N (K / numGroups)) N K output
    else none
  else none

def assembleModelOptAwqFfnQweight (version : PluginVersion) (source : Tensor (BitVec 8))
    (output : Words version) : Option (Words version) :=
  if source.shape.length = 2 then
    let K := source.dim 1
    let N := 2 * source.dim 0
    launchRepack version (modelOptInt4Accessor source.flat K) N K output
  else none

/-- A projection of a checkpoint; an engine for a GPTQ projection may have an
activation permutation input, whose binding names a group size. -/
inductive Checkpoint where
  | gptq (c : GptqCheckpoint) (permutationGroupSize : Option Nat)
  | awq (qweight qzeros : Tensor (BitVec 32))
  | modelOpt (weight : Tensor (BitVec 8))

/-- What the runtime prepares for a projection. -/
structure Prepared (version : PluginVersion) where
  words : Words version
  permutation : Option (Nat → Nat)

namespace Checkpoint

/-- The runtime fills buffers it has allocated. -/
def load (version : PluginVersion) (output : Words version) (permutationOutput : Nat → Nat) :
    Checkpoint → Option (Prepared version)
  | .gptq c none => (assembleGptqFfnQweight version c none output).map fun words => ⟨words, none⟩
  | .gptq c (some groupSize) =>
    (assembleGptqActivationPermutation c groupSize permutationOutput).bind fun permutation =>
      (assembleGptqFfnQweight version c (some permutation) output).map fun words =>
        ⟨words, some permutation⟩
  | .awq qweight qzeros =>
    (assembleAwqFfnQweight version qweight qzeros output).map fun words => ⟨words, none⟩
  | .modelOpt weight =>
    (assembleModelOptAwqFfnQweight version weight output).map fun words => ⟨words, none⟩

end Checkpoint

/-- The layout of the version the exporter targets. -/
def packed (version : PluginVersion) (nibbles : Tensor (BitVec 16)) :
    Except RepackError (Words version) :=
  match version with
  | .v1 => .ok (packIntweights nibbles).flat
  | .v2 => (repackToCutedslFragment nibbles).map Tensor.flat

/-- What the exporter stores for a projection, with `int4_act_perm` for GPTQ. -/
structure Exported (version : PluginVersion) where
  words : Words version
  permutation : List Nat

/-- `repack_gptq_to_plugin`, `repack_awq_to_plugin` and the ModelOpt cast. -/
def Checkpoint.repack (version : PluginVersion) : Checkpoint → Except RepackError (Exported version)
  | .gptq c _ =>
    (gptqNibbles c).bind fun gathered =>
      (packed version gathered.1).map fun words => ⟨words, gathered.2⟩
  | .awq qweight qzeros => (packed version (awqNibbles qweight qzeros)).map fun words => ⟨words, []⟩
  | .modelOpt weight => (packed version (modelOptNibbles weight)).map fun words => ⟨words, []⟩

/-! ## The two agree -/

/-- The tensors of the projection have the shapes of its format. -/
def Checkpoint.Shapes (N K : Nat) : Checkpoint → Prop
  | .gptq c _ => ∃ numGroups groupSize, GptqShapes c N K numGroups groupSize
  | .awq qweight qzeros => ∃ numGroups groupSize, AwqShapes qweight qzeros N K numGroups groupSize
  | .modelOpt weight => N % 2 = 0 ∧ weight.shape = [N / 2, K]

/-- What the exporter asks for beyond the loader: a width the fragment layout
covers, and a midpoint that is a 32-bit integer where no zero points are stored. -/
def Checkpoint.Exports (version : PluginVersion) (N : Nat) (checkpoint : Checkpoint) : Prop :=
  (version = .v2 → N % 64 = 0) ∧
    ∀ c size, checkpoint = .gptq c size → c.symmetric = true →
      8 - c.zeroPointOffset.toInt < 2 ^ 31

section Agree

variable {version : PluginVersion} {N K : Nat} {accessor : Accessor} {t : Tensor (BitVec 16)}

variable {output words : Words version}

/-- The launch writes the words the exporter packs. -/
theorem launchRepack_agrees (h : SameCodes N K accessor t) (hN : version = .v2 → N % 64 = 0)
    (hlaunch : launchRepack version accessor N K output = some words) :
    ∃ exported, packed version t = .ok exported ∧
      ∀ index < wordCount version N K, words index = exported index := by
  cases version with
  | v1 => exact ⟨_, rfl, launchPluginV1_agrees h hlaunch⟩
  | v2 =>
    obtain ⟨out, hout, hagree⟩ := launchCuteDsl_agrees h (hN rfl) hlaunch
    refine ⟨out.flat, ?_, hagree⟩
    simp only [packed, hout]
    rfl

theorem validateGptqGroups_some {values : Nat → Nat} {numGroups groupSize : Nat} {sequential : Bool}
    (h : validateGptqGroups values K numGroups groupSize = some sequential) :
    EqualGroups values K numGroups groupSize ∧
      (sequential = true → ∀ k < K, values k = k / groupSize) := by
  unfold validateGptqGroups at h
  split at h
  · rename_i hvalid
    obtain ⟨-, -, htotal, hbound, hsize⟩ := hvalid
    obtain rfl := Option.some.inj h
    refine ⟨⟨htotal, hbound, fun group hgroup => ?_⟩, of_decide_eq_true⟩
    rw [← List.countP_eq_length_filter]
    exact hsize group hgroup
  · cases h

variable {c : GptqCheckpoint} {numGroups groupSize : Nat}

theorem EqualGroups.unique {values : Nat → Nat} {numGroups' groupSize' : Nat}
    (h : EqualGroups values K numGroups groupSize)
    (h' : EqualGroups values K numGroups' groupSize') (hpos : 0 < K) :
    numGroups = numGroups' ∧ groupSize = groupSize' := by
  have hgroups : numGroups = numGroups' := by rw [← h.maxGroup_eq hpos, h'.maxGroup_eq hpos]
  have htotal := h.total
  rw [← h'.total, hgroups] at htotal
  have hnumGroups : 0 < numGroups' :=
    Nat.pos_of_mul_pos_right (by rw [h'.total]; exact hpos)
  exact ⟨hgroups, Nat.eq_of_mul_eq_mul_left hnumGroups htotal⟩

theorem groupIndex_some {values : Nat → Nat} (hg : c.gIdx = some values) (size : Nat) :
    c.groupIndex size = values := by
  rw [GptqCheckpoint.groupIndex, hg]
  rfl

/-- With `g_idx` the exporter counts its groups. -/
theorem GptqShapes.numGroups_of_gIdx (h : GptqShapes c N K numGroups groupSize)
    {values : Nat → Nat} (hg : c.gIdx = some values) : c.numGroups = numGroups := by
  rcases h.numGroups_eq with heq | ⟨-, hnone, -⟩
  · exact heq
  · rw [hg] at hnone
    cases hnone

/-- The permutation the runtime assembles is the exporter's. -/
theorem assembleGptqActivationPermutation_some (h : GptqShapes c N K numGroups groupSize)
    {size : Nat} {output permutation : Nat → Nat}
    (hload : assembleGptqActivationPermutation c size output = some permutation) :
    ∀ k < K, (c.permutation K)[k]? = some (permutation k) := by
  unfold assembleGptqActivationPermutation at hload
  cases hg : c.gIdx with
  | none =>
    rw [hg] at hload
    cases hload
  | some values =>
    simp only [hg, h.inFeatures] at hload
    split at hload
    · obtain ⟨sequential, hvalid, rfl⟩ := Option.map_eq_some_iff.1 hload
      have hgroups := (validateGptqGroups_some hvalid).1
      have hnumber := (hgroups.unique (h.gIdx values hg) h.positive).1
      intro k hk
      rw [GptqCheckpoint.permutation, groupIndex_some hg, h.numGroups_of_gIdx hg, ← hnumber]
      exact hgroups.kernel_getElem? hk
    · cases hload

/-- Without activation order the exporter gathers nothing. -/
theorem permutation_sequential (h : GptqShapes c N K numGroups groupSize)
    (hseq : ∀ values, c.gIdx = some values → ∀ k < K, values k = k / groupSize) :
    c.permutation K = List.range K := by
  apply h.exporterGroups.sequential
  intro k hk
  cases hg : c.gIdx with
  | none =>
    rw [GptqCheckpoint.groupIndex, hg]
    rfl
  | some values =>
    rw [groupIndex_some hg, h.numGroups_of_gIdx hg, h.groupSize_eq]
    exact hseq values hg k hk

/-- The geometry the loader derives, where it uses one. -/
theorem gptqGeometry_some (h : GptqShapes c N K numGroups groupSize) {geometry : Nat × Nat}
    (hgeometry : gptqGeometry c K N = some geometry)
    (hused : c.symmetric = false ∨ c.gIdx.isSome) : geometry.2 = groupSize := by
  unfold gptqGeometry at hgeometry
  split at hgeometry
  · rename_i hsymmetric
    cases hg : c.gIdx with
    | none => simp [hsymmetric, hg] at hused
    | some values =>
      simp only [hg, (h.gIdx values hg).maxGroup_eq h.positive] at hgeometry
      split at hgeometry
      · obtain rfl := Option.some.inj hgeometry
        exact h.groupSize_eq
      · cases hgeometry
  · rename_i hsymmetric
    obtain ⟨-, hz⟩ := h.symmetric_iff.1 (by simpa using hsymmetric)
    have hdim : c.qzeros.dim 0 = numGroups := by rw [Tensor.dim, hz]; rfl
    simp only [hdim] at hgeometry
    split at hgeometry
    · obtain rfl := Option.some.inj hgeometry
      exact h.groupSize_eq
    · cases hgeometry

/-- A projection that is assembled without a permutation is sequential, and
its words are launched over the checkpoint's codes. -/
theorem assembleGptqFfnQweight_some (h : GptqShapes c N K numGroups groupSize)
    {permutation : Option (Nat → Nat)}
    (hload : assembleGptqFfnQweight version c permutation output = some words) :
    (permutation = none → ∀ values, c.gIdx = some values → ∀ k < K, values k = k / groupSize) ∧
      launchRepack version (gptqInt4Accessor c.qweight.flat
        (if c.symmetric then none else some c.qzeros.flat) permutation N groupSize
        c.zeroPointOffset) N K output = some words := by
  unfold assembleGptqFfnQweight at hload
  simp only [h.inFeatures, h.outFeatures] at hload
  set zeros := (if c.symmetric then none else some c.qzeros.flat) with hzeros
  split at hload
  · cases hload
  · obtain ⟨geometry, hgeometry, hload⟩ := Option.bind_eq_some_iff.1 hload
    obtain ⟨sequential, hvalid, hload⟩ := Option.bind_eq_some_iff.1 hload
    split at hload
    · cases hload
    · rename_i hordered
      split at hload
      · cases hload
      · refine ⟨?_, ?_⟩
        · intro hnone values hg
          simp only [hg] at hvalid
          have hsize := gptqGeometry_some h hgeometry (Or.inr (by rw [hg]; rfl))
          have hsequential : sequential = true := by
            simpa [hnone] using hordered
          rw [← hsize]
          exact (validateGptqGroups_some hvalid).2 hsequential
        · by_cases hsymmetric : c.symmetric = true
          · rw [hzeros, if_pos hsymmetric] at hload ⊢
            exact hload
          · rw [← gptqGeometry_some h hgeometry (Or.inl (by simpa using hsymmetric))]
            exact hload

theorem assembleAwqFfnQweight_some {qweight qzeros : Tensor (BitVec 32)}
    (h : AwqShapes qweight qzeros N K numGroups groupSize)
    (hload : assembleAwqFfnQweight version qweight qzeros output = some words) :
    launchRepack version (awqInt4Accessor qweight.flat qzeros.flat N groupSize) N K output =
      some words := by
  have hdimK : qweight.dim 0 = K := by rw [Tensor.dim, h.qweight]; rfl
  have hdimN : qweight.dim 1 * 8 = N := by
    have hdim : qweight.dim 1 = N / 8 := by rw [Tensor.dim, h.qweight]; rfl
    rw [hdim, Nat.div_mul_cancel (Nat.dvd_of_mod_eq_zero h.columns)]
  have hdimG : qzeros.dim 0 = numGroups := by rw [Tensor.dim, h.qzeros]; rfl
  unfold assembleAwqFfnQweight at hload
  simp only [hdimK, hdimN, hdimG] at hload
  split at hload
  · split at hload
    · rename_i hgroups
      have hsize : K / numGroups = groupSize := by
        rw [← h.groups, Nat.mul_div_cancel_left _ hgroups.1]
      rw [← hsize]
      exact hload
    · cases hload
  · cases hload

theorem assembleModelOptAwqFfnQweight_some {weight : Tensor (BitVec 8)} (hN : N % 2 = 0)
    (h : weight.shape = [N / 2, K])
    (hload : assembleModelOptAwqFfnQweight version weight output = some words) :
    launchRepack version (modelOptInt4Accessor weight.flat K) N K output = some words := by
  have hdimN : 2 * weight.dim 0 = N := by
    have hdim : weight.dim 0 = N / 2 := by rw [Tensor.dim, h]; rfl
    rw [hdim, Nat.mul_div_cancel' (Nat.dvd_of_mod_eq_zero hN)]
  have hdimK : weight.dim 1 = K := by rw [Tensor.dim, h]; rfl
  unfold assembleModelOptAwqFfnQweight at hload
  simp only [hdimN, hdimK] at hload
  split at hload
  · exact hload
  · cases hload

end Agree

/-- The runtime writes the words the exporter stores, and builds its activation
permutation: a stable sort of the input channels by group. -/
theorem load_eq_repack {version : PluginVersion} {checkpoint : Checkpoint} {N K : Nat}
    (h : checkpoint.Shapes N K) (hexports : checkpoint.Exports version N)
    {output : Words version} {permutationOutput : Nat → Nat} {prepared : Prepared version}
    (hload : checkpoint.load version output permutationOutput = some prepared) :
    ∃ exported, checkpoint.repack version = .ok exported ∧
      (∀ index < wordCount version N K, prepared.words index = exported.words index) ∧
      (∀ permutation, prepared.permutation = some permutation →
        (List.range K).map permutation = exported.permutation) ∧
      ∀ c size values, checkpoint = .gptq c size → c.gIdx = some values →
        exported.permutation.Perm (List.range K) ∧
        exported.permutation.Pairwise fun a b =>
          values a < values b ∨ values a = values b ∧ a < b := by
  obtain ⟨hN, hoffset⟩ := hexports
  cases checkpoint with
  | gptq c size =>
    obtain ⟨numGroups, groupSize, hshapes⟩ := h
    -- the permutation and the words of the loader, bound or not
    obtain ⟨hcodes, hassemble⟩ : (∀ k < K, (c.permutation K)[k]? =
          some (match prepared.permutation with
            | none => k
            | some permutation => permutation k)) ∧
        assembleGptqFfnQweight version c prepared.permutation output =
          some prepared.words := by
      cases size with
      | none =>
        obtain ⟨words, hwords, rfl⟩ := Option.map_eq_some_iff.1 hload
        refine ⟨fun k hk => ?_, hwords⟩
        rw [permutation_sequential hshapes ((assembleGptqFfnQweight_some hshapes hwords).1 rfl),
          List.getElem?_range hk]
      | some size =>
        obtain ⟨permutation, hpermutation, hrest⟩ := Option.bind_eq_some_iff.1 hload
        obtain ⟨words, hwords, rfl⟩ := Option.map_eq_some_iff.1 hrest
        exact ⟨assembleGptqActivationPermutation_some hshapes hpermutation, hwords⟩
    obtain ⟨t, ht, hsame⟩ := gptq_sameCodes hshapes (hoffset c size rfl) hcodes
    obtain ⟨exported, hexported, hagree⟩ :=
      launchRepack_agrees hsame hN (assembleGptqFfnQweight_some hshapes hassemble).2
    refine ⟨⟨exported, c.permutation K⟩, ?_, hagree, ?_, ?_⟩
    · simp only [Checkpoint.repack, ht, Except.bind, hexported]
      rfl
    · intro permutation hpermutation
      have hlength : (c.permutation K).length = K := by
        rw [GptqCheckpoint.permutation, (permuteIdx_perm hshapes.exporterGroups.bound).length_eq,
          List.length_range]
      apply List.ext_getElem?
      intro k
      rcases Nat.lt_or_ge k K with hk | hk
      · rw [hcodes k hk, hpermutation, List.getElem?_map, List.getElem?_range hk]
        rfl
      · rw [List.getElem?_eq_none (by rw [List.length_map, List.length_range]; exact hk),
          List.getElem?_eq_none (by rw [hlength]; exact hk)]
    · intro c' size' values hc hg
      obtain ⟨rfl, -⟩ := Checkpoint.gptq.inj hc
      rw [← groupIndex_some hg (K / c.numGroups)]
      exact ⟨permuteIdx_perm hshapes.exporterGroups.bound, permuteIdx_stable⟩
  | awq qweight qzeros =>
    obtain ⟨numGroups, groupSize, hshapes⟩ := h
    obtain ⟨words, hwords, rfl⟩ := Option.map_eq_some_iff.1 hload
    obtain ⟨exported, hexported, hagree⟩ := launchRepack_agrees (awq_sameCodes hshapes) hN
      (assembleAwqFfnQweight_some hshapes hwords)
    refine ⟨⟨exported, []⟩, ?_, hagree, fun _ hnone => ?_, fun _ _ _ hc => ?_⟩
    · simp only [Checkpoint.repack, hexported]
      rfl
    · cases hnone
    · cases hc
  | modelOpt weight =>
    obtain ⟨words, hwords, rfl⟩ := Option.map_eq_some_iff.1 hload
    obtain ⟨exported, hexported, hagree⟩ := launchRepack_agrees (modelOpt_sameCodes h.1 h.2) hN
      (assembleModelOptAwqFfnQweight_some h.1 h.2 hwords)
    refine ⟨⟨exported, []⟩, ?_, hagree, fun _ hnone => ?_, fun _ _ _ hc => ?_⟩
    · simp only [Checkpoint.repack, hexported]
      rfl
    · cases hnone
    · cases hc

/-- Eight output and 64 input channels, the even channels in one group and the
odd ones in another. -/
theorem load_eq_repack_interleaved :
    ∃ (checkpoint : Checkpoint) (prepared : Prepared .v1) (exported : Exported .v1),
      checkpoint.load .v1 (fun _ => 0) (fun _ => 0) = some prepared ∧
      checkpoint.repack .v1 = .ok exported ∧
      (∀ index < 128, prepared.words index = exported.words index) ∧
      exported.permutation.take 4 = [0, 2, 4, 6] := by
  let c : GptqCheckpoint :=
    { qweight := ⟨[8, 8], fun idx => BitVec.ofNat 32 (idx.getD 0 0 * 305419896 + idx.getD 1 0)⟩
      qzeros := ⟨[2, 1], fun _ => 0x77777777#32⟩
      gIdx := some fun k => k % 2
      zeroPointOffset := 1 }
  have hgroups : EqualGroups (fun k => k % 2) 64 2 32 :=
    ⟨rfl, fun k _ => Nat.mod_lt k (by omega), by decide +kernel⟩
  have hshapes : (Checkpoint.gptq c (some 32)).Shapes 8 64 :=
    ⟨2, 32,
      { rows := rfl, width := by decide, positive := by decide, groups := rfl, qweight := rfl
        qzeros := Or.inl ⟨rfl, rfl⟩
        gIdx := fun values hvalues => by
          obtain rfl := Option.some.inj hvalues
          exact hgroups }⟩
  have hexports : (Checkpoint.gptq c (some 32)).Exports .v1 8 := by
    refine ⟨(fun hv => by cases hv), fun c' size hc hsymmetric => ?_⟩
    obtain ⟨rfl, -⟩ := Checkpoint.gptq.inj hc
    cases hsymmetric
  have hsome : ((Checkpoint.gptq c (some 32)).load .v1 (fun _ => 0) (fun _ => 0)).isSome := by
    decide +kernel
  obtain ⟨prepared, hload⟩ := Option.isSome_iff_exists.1 hsome
  obtain ⟨exported, hexported, hwords, -, -⟩ := load_eq_repack hshapes hexports hload
  have hpermutation : ((Checkpoint.gptq c (some 32)).repack .v1).toOption.map
      (fun e => e.permutation.take 4) = some [0, 2, 4, 6] := by
    decide +kernel
  refine ⟨_, prepared, exported, hload, hexported, hwords, ?_⟩
  rw [hexported] at hpermutation
  exact Option.some.inj hpermutation

/-- Half a fragment block of output channels: the runtime pads it, the exporter
refuses the width. -/
theorem load_without_repack :
    ∃ (checkpoint : Checkpoint) (prepared : Prepared .v2), checkpoint.Shapes 32 64 ∧
      checkpoint.load .v2 (fun _ => 0) (fun _ => 0) = some prepared ∧
      checkpoint.repack .v2 = .error .misaligned ∧
      ¬∃ exported, checkpoint.repack .v2 = .ok exported := by
  let weight : Tensor (BitVec 8) := ⟨[16, 64], fun _ => 0⟩
  have hrefused : (Checkpoint.modelOpt weight).repack .v2 = .error .misaligned := rfl
  have hsome : ((Checkpoint.modelOpt weight).load .v2 (fun _ => 0) (fun _ => 0)).isSome := by
    decide +kernel
  obtain ⟨prepared, hload⟩ := Option.isSome_iff_exists.1 hsome
  refine ⟨.modelOpt weight, prepared, ⟨rfl, rfl⟩, hload, hrefused, ?_⟩
  rintro ⟨exported, hexported⟩
  rw [hrefused] at hexported
  cases hexported

end EdgeLLM.Ports.Int4
