import EdgeLLM.Ports.VisualSubset

/-!
# Every input agrees with the published lists

`pruneBatchForPrefill` followed by `compactAuxiliaryInputs`, for one slot and
for several: what the engine and the draft model read is the subset that the
pass publishes.
-/

namespace EdgeLLM.Ports.VisualPruner

open Verified

section Passes

variable {α β : Type} {config : Config} {prune : Nat → Prune} {state : PrunerState}
  {hostTokenIds : List (List Int)} {io : PipelineIo α β} {effectiveLens : List Nat} {maxLen : Nat}
  {pruned : PruneResult α β}

theorem getD_of_forall₂ {γ δ : Type} {R : γ → δ → Prop} {xs : List γ} {ys : List δ}
    (h : List.Forall₂ R xs ys) (x : γ) (y : δ) {i : Nat} (hi : i < xs.length) :
    R (xs.getD i x) (ys.getD i y) := by
  induction h generalizing i with
  | nil => cases hi
  | cons hhead _ ih =>
    cases i with
    | zero => exact hhead
    | succ i => exact ih (Nat.lt_of_succ_lt_succ hi)

theorem pruneSlots_consistent (hfits : maxLen ≤ config.maxInputLength)
    (hcover : covers hostTokenIds effectiveLens maxLen io.inputsEmbeds.batch)
    (hbatch : io.inputsEmbeds.batch ≤ effectiveLens.length)
    (h : pruneSlots config prune state hostTokenIds io effectiveLens maxLen
      io.inputsEmbeds.batch = .ok pruned) :
    pruned.Consistent config prune hostTokenIds io effectiveLens maxLen := by
  unfold pruneSlots at h
  rw [bind_eq_ok] at h
  obtain ⟨selections, hselections, h⟩ := h
  have hselected := mapM_forall₂ hselections
  have hslots : SelectedSlots config prune hostTokenIds (fun i => effectiveLens.getD i 0)
      (fun i => (selections.getD i default).prunedLen)
      (fun i => if i < io.inputsEmbeds.batch then (selections.getD i default).keepList
        else state.slotKeepLists i) maxLen io.inputsEmbeds.batch := by
    refine ⟨hfits, fun i hi => (hcover i hi).1, fun i hi => (hcover i hi).2, ?_⟩
    intro i hi
    have hselect := getD_of_forall₂ hselected 0 default
      (by rw [List.length_range]; exact hi)
    rw [List.getD_eq_getElem _ _ (by rwa [List.length_range]), List.getElem_range] at hselect
    exact ⟨_, hselect, if_pos hi, rfl⟩
  dsimp only at h
  rw [publishKeepMap_eq] at h
  dsimp only at h
  by_cases hany : ∃ i < io.inputsEmbeds.batch,
      (selections.getD i default).prunedLen < effectiveLens.getD i 0
  · rw [if_pos hany, bind_eq_ok] at h
    obtain ⟨io', hcompact, h⟩ := h
    cases h
    apply hslots.consistent
    · rfl
    · intro _
      exact ⟨rfl, hcompact⟩
    · intro hnone
      exact absurd hany hnone
    · rw [List.length_map, List.length_range]
    · intro i hi
      dsimp only
      rw [getD_map_range (Nat.lt_of_lt_of_le hi hbatch), if_pos hi]
    · intro i hi
      dsimp only
      by_cases hlt : i < effectiveLens.length
      · rw [getD_map_range hlt, if_neg (Nat.not_lt.2 hi)]
      · rw [List.getD_eq_default _ _ (by rw [List.length_map, List.length_range]; omega),
          List.getD_eq_default _ _ (Nat.not_lt.1 hlt)]
    · rfl
  · rw [if_neg hany] at h
    cases h
    have hsame : ∀ i < io.inputsEmbeds.batch,
        effectiveLens.getD i 0 = (selections.getD i default).prunedLen := by
      intro i hi
      have hle := hslots.newLens_le hi
      have hnot := fun hlt => hany ⟨i, hi, hlt⟩
      exact Nat.le_antisymm (Nat.not_lt.1 hnot) hle
    apply hslots.consistent
    · rfl
    · intro hsome
      exact absurd hsome hany
    · intro _
      exact ⟨rfl, rfl⟩
    · rfl
    · exact hsame
    · intro _ _
      rfl
    · apply List.ext_getElem
      · rw [List.length_replicate, List.length_map, List.length_range]
      · intro i hi _
        rw [List.length_replicate] at hi
        rw [List.getElem_replicate, List.getElem_map, List.getElem_range, hsame i hi, Nat.sub_self]

theorem pruneForPrefill_consistent {result : PrunerState × PipelineIo α β × Nat}
    (hfits : maxLen ≤ config.maxInputLength) (hbatch : io.inputsEmbeds.batch = 1)
    (hlens : 1 ≤ effectiveLens.length)
    (h : pruneForPrefill config prune state hostTokenIds io maxLen = .ok result) :
    PruneResult.Consistent
      { state := result.1
        io := result.2.1
        effectiveLens := effectiveLens.set 0 result.2.2
        prunedTokens := [maxLen - result.2.2]
        width := result.2.2 } config prune hostTokenIds io effectiveLens maxLen := by
  unfold pruneForPrefill at h
  rw [check_bind_eq_ok, requireThat_eq_ok] at h
  obtain ⟨hids, h⟩ := h
  rw [check_bind_eq_ok, check_bind_eq_ok] at h
  replace h := h.2.2
  rw [bind_eq_ok] at h
  obtain ⟨selection, hselect, h⟩ := h
  dsimp only at h
  rw [publishKeepMap_eq] at h
  have hslots : SelectedSlots config prune hostTokenIds (fun _ => maxLen)
      (fun _ => selection.prunedLen)
      (Function.update state.slotKeepLists 0 selection.keepList) maxLen 1 := by
    refine ⟨hfits, ?_, fun _ _ => Nat.le_refl maxLen, ?_⟩
    · intro i hi
      rw [Nat.lt_one_iff.1 hi]
      exact hids
    · intro i hi
      rw [Nat.lt_one_iff.1 hi]
      exact ⟨selection, hselect, Function.update_self _ _ _, rfl⟩
  rw [← hbatch] at hslots
  have hmost : selection.prunedLen = (List.range io.inputsEmbeds.batch).foldl
      (fun most i => max most selection.prunedLen) 0 := by
    rw [hbatch]
    exact (Nat.zero_max _).symm
  have heffective : ∀ i < io.inputsEmbeds.batch,
      (effectiveLens.set 0 selection.prunedLen).getD i 0 = selection.prunedLen := by
    intro i hi
    rw [hbatch] at hi
    rw [getD_set hlens, if_pos (Nat.lt_one_iff.1 hi)]
  have hothers : ∀ i, io.inputsEmbeds.batch ≤ i →
      (effectiveLens.set 0 selection.prunedLen).getD i 0 = effectiveLens.getD i 0 := by
    intro i hi
    rw [getD_set hlens, if_neg (by omega)]
  by_cases hpruned : selection.prunedLen < maxLen
  · rw [if_pos hpruned, bind_eq_ok] at h
    obtain ⟨io', hcompact, h⟩ := h
    cases h
    rw [← hbatch] at hcompact
    apply hslots.consistent
    · rw [hbatch]
    · intro _
      exact ⟨hmost, hcompact⟩
    · intro hnone
      exact absurd ⟨0, by rw [hbatch]; exact Nat.zero_lt_one, hpruned⟩ hnone
    · exact List.length_set
    · exact heffective
    · exact hothers
    · rw [hbatch]
      rfl
  · rw [if_neg hpruned] at h
    cases h
    have hsame : selection.prunedLen = maxLen := by
      have hle := @SelectedSlots.newLens_le _ _ _ _ _ _ _ _ hslots 0
        (by rw [hbatch]; exact Nat.zero_lt_one)
      omega
    apply hslots.consistent
    · rw [hbatch]
    · intro hsome
      obtain ⟨i, -, hlt⟩ := hsome
      exact absurd hlt hpruned
    · intro _
      exact ⟨hsame, rfl⟩
    · exact List.length_set
    · exact heffective
    · exact hothers
    · rw [hbatch]
      rfl

/-- The batch is left alone. -/
def Skips (hostTokenIds : List (List Int)) (effectiveLens : List Nat) (maxLen batch : Nat) :
    Prop := batch ≠ 1 ∧ ¬covers hostTokenIds effectiveLens maxLen batch

theorem pruneBatch_skipped (hskips : Skips hostTokenIds effectiveLens maxLen io.inputsEmbeds.batch)
    (h : pruneBatchForPrefill config prune state hostTokenIds io effectiveLens maxLen =
      .ok pruned) :
    pruned = ⟨state, io, effectiveLens, List.replicate io.inputsEmbeds.batch 0, maxLen⟩ := by
  unfold pruneBatchForPrefill at h
  dsimp only at h
  rw [check_bind_eq_ok, check_bind_eq_ok, check_bind_eq_ok] at h
  replace h := h.2.2.2
  rw [if_neg hskips.1, if_neg hskips.2] at h
  cases h
  rfl

theorem pruneBatch_consistent (hfits : maxLen ≤ config.maxInputLength)
    (hcovered : ¬Skips hostTokenIds effectiveLens maxLen io.inputsEmbeds.batch)
    (h : pruneBatchForPrefill config prune state hostTokenIds io effectiveLens maxLen =
      .ok pruned) : io.inputsEmbeds.batch ≤ hostTokenIds.length ∧
      pruned.Consistent config prune hostTokenIds io effectiveLens maxLen := by
  unfold pruneBatchForPrefill at h
  dsimp only at h
  rw [check_bind_eq_ok, check_bind_eq_ok, check_bind_eq_ok, requireThat_eq_ok] at h
  obtain ⟨-, hcount, -, h⟩ := h
  rw [requireThat_eq_ok] at hcount
  refine ⟨hcount.1, ?_⟩
  by_cases hone : io.inputsEmbeds.batch = 1
  · rw [if_pos hone, bind_eq_ok] at h
    obtain ⟨result, hprune, h⟩ := h
    cases h
    apply pruneForPrefill_consistent hfits hone _ hprune
    rw [← hone]
    exact hcount.2
  · have hcover : covers hostTokenIds effectiveLens maxLen io.inputsEmbeds.batch := by
      by_contra hnot
      exact hcovered ⟨hone, hnot⟩
    rw [if_neg hone, if_pos hcover] at h
    exact pruneSlots_consistent hfits hcover hcount.2 h

/-- The published lists are those that the auxiliary inputs are compacted to. -/
theorem PruneResult.Consistent.keepsSlots
    (h : pruned.Consistent config prune hostTokenIds io effectiveLens maxLen)
    (hbatch : io.inputsEmbeds.batch ≤ hostTokenIds.length) :
    KeepsSlots hostTokenIds pruned.state.slotKeepLists pruned.prunedTokens
      io.inputsEmbeds.batch where
  batch_le := hbatch
  length_eq := by rw [h.prunedTokens, List.length_map, List.length_range]
  ascending := by
    intro i hi
    rw [h.slotKeepLists i hi]
    exact (h.slot i hi).ascending
  lt := by
    intro i hi p hp
    rw [h.slotKeepLists i hi] at hp
    exact (((h.slot i hi).mem_iff p).1 hp).1
  pruned := by
    intro i hi
    rw [h.prunedTokens, getD_map_range hi, h.slotKeepLists i hi]

variable {keep keep' : Nat → List Nat} {batch : Nat}

theorem compactedIds_congr (h : ∀ i < batch, keep i = keep' i) :
    compactedIds hostTokenIds keep batch = compactedIds hostTokenIds keep' batch := by
  unfold compactedIds
  apply List.map_congr_left
  intro i _
  by_cases hi : i < batch
  · rw [if_pos hi, if_pos hi, h i hi]
  · rw [if_neg hi, if_neg hi]

theorem keptOrdinals_congr {imageTokenId : Int} (h : ∀ i < batch, keep i = keep' i) :
    keptOrdinals imageTokenId hostTokenIds keep batch =
      keptOrdinals imageTokenId hostTokenIds keep' batch := by
  unfold keptOrdinals
  apply List.flatMap_congr
  intro i hi
  rw [h i (List.mem_range.1 hi)]

end Passes

/-- Visual-token pruning is one subset everywhere: after a pass that does not leave the
batch alone, the planes, the lengths, the token ids and the visual features all agree
with the published keep lists. -/
theorem visualPruning_consistent {α β γ : Type} (config : Config) (prune : Nat → Prune)
    (state : PrunerState) (hostTokenIds : List (List Int)) (io : PipelineIo α β)
    (effectiveLens : List Nat) (maxLen : Nat) (visualFeatures : Option (List γ))
    (pruned : PruneResult α β) (auxiliary : List (List Int) × Option (List γ))
    (hfits : maxLen ≤ config.maxInputLength)
    (hfeatures : ∀ rows ∈ visualFeatures, rows.length =
      blockStart (slotVisuals config.imageTokenId hostTokenIds) io.inputsEmbeds.batch)
    (hprune : pruneBatchForPrefill config prune state hostTokenIds io effectiveLens maxLen =
      .ok pruned)
    (hauxiliary : compactAuxiliaryInputs config pruned.state hostTokenIds io.inputsEmbeds.batch
      pruned.prunedTokens visualFeatures = .ok auxiliary) :
    (Skips hostTokenIds effectiveLens maxLen io.inputsEmbeds.batch →
      pruned = ⟨state, io, effectiveLens, List.replicate io.inputsEmbeds.batch 0, maxLen⟩ ∧
        auxiliary = (hostTokenIds, visualFeatures)) ∧
    (¬Skips hostTokenIds effectiveLens maxLen io.inputsEmbeds.batch →
      pruned.Consistent config prune hostTokenIds io effectiveLens maxLen ∧
        auxiliary.1 = compactedIds hostTokenIds (publishedKeep pruned.state)
          io.inputsEmbeds.batch ∧
        ServesOrdinals (keptOrdinals config.imageTokenId hostTokenIds
          (publishedKeep pruned.state) io.inputsEmbeds.batch) visualFeatures auxiliary.2) := by
  constructor
  · intro hskips
    have heq := pruneBatch_skipped hskips hprune
    refine ⟨heq, ?_⟩
    subst heq
    unfold compactAuxiliaryInputs at hauxiliary
    rw [check_bind_eq_ok] at hauxiliary
    replace hauxiliary := hauxiliary.2
    rw [if_pos] at hauxiliary
    · cases hauxiliary
      rfl
    · intro n hn
      exact (List.mem_replicate.1 (List.mem_of_mem_take hn)).2
  · intro hcovered
    obtain ⟨hbatch, hconsistent⟩ := pruneBatch_consistent hfits hcovered hprune
    obtain ⟨hids, hrows⟩ :=
      compactAuxiliaryInputs_spec (hconsistent.keepsSlots hbatch) hfeatures hauxiliary
    rw [compactedIds_congr hconsistent.slotKeepLists] at hids
    rw [keptOrdinals_congr hconsistent.slotKeepLists] at hrows
    exact ⟨hconsistent, hids, hrows⟩

/-! ## Two batches -/

/-- Two slots, half of the tokens of every image. -/
def pairConfig : Config where
  imageTokenId := 7
  minVisualTokens := 1
  ceilKept := fun spanLen => ((spanLen + 1) / 2 : Nat)
  maxBatchSize := 2
  maxInputLength := 4
  maxKVCacheCapacity := 6
  maxBatchSize_pos := by decide
  maxInputLength_le := by decide

/-- Retain the first token of every image. -/
def firstOfEach : Prune := fun req =>
  .ok (some (req.imageSpans.map fun span => (span.begin : Int)))

/-- Two slots of `width` rows. -/
def pairBuffers (width : Nat) : PipelineIo Nat Nat where
  inputsEmbeds := ⟨2, width, 8, id⟩
  deepstackEmbeds := [⟨2, width, 8, id⟩]
  mropeActiveCosSin := some ⟨2, 6, 12, id⟩

/-- A pruner before its first pass. -/
def freshPruner : PrunerState := ⟨fun _ => [], [], []⟩

/-- An image of two tokens keeps one, beside a text. -/
theorem visualPruning_consistent_pair : ∃ pruned auxiliary,
    pruneBatchForPrefill pairConfig (fun _ => firstOfEach) freshPruner [[1, 7, 7, 2], [1, 2]]
      (pairBuffers 4) [4, 2] 4 = .ok pruned ∧
    compactAuxiliaryInputs pairConfig pruned.state [[1, 7, 7, 2], [1, 2]] 2 pruned.prunedTokens
      (some [10, 11]) = .ok auxiliary ∧
    pruned.Consistent pairConfig (fun _ => firstOfEach) [[1, 7, 7, 2], [1, 2]] (pairBuffers 4) [4, 2] 4 ∧
    auxiliary = ([[1, 7, 2], [1, 2]], some [10]) := by
  refine ⟨_, _, rfl, rfl, ?_, rfl⟩
  exact ((visualPruning_consistent pairConfig (fun _ => firstOfEach) freshPruner
    [[1, 7, 7, 2], [1, 2]] (pairBuffers 4) [4, 2] 4 (some [10, 11]) _ _ (by decide)
    (by
      intro rows hrows
      cases hrows
      rfl) rfl rfl).2 fun hskips => hskips.2 (by decide)).1

/-- For a batch that is left alone the lists are not those of its slots. -/
theorem pruneBatch_skipped_unpublished : ∃ pruned auxiliary,
    pruneBatchForPrefill pairConfig (fun _ => firstOfEach) freshPruner [[1], [1, 2]]
      (pairBuffers 2) [2, 2] 2 = .ok pruned ∧
    compactAuxiliaryInputs pairConfig pruned.state [[1], [1, 2]] 2 pruned.prunedTokens
      (none : Option (List Nat)) = .ok auxiliary ∧
    ¬SlotKeep pairConfig firstOfEach [1, 2] (publishedKeep pruned.state 1) := by
  refine ⟨_, _, rfl, rfl, ?_⟩
  intro hkeep
  have hmem := (hkeep.mem_iff 0).2 ⟨by decide, .inl (by decide)⟩
  cases hmem

end EdgeLLM.Ports.VisualPruner
