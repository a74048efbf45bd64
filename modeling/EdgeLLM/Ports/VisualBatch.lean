import EdgeLLM.Ports.VisualPruner
import EdgeLLM.Verified.Moves

/-!
# Visual-token pruning: a batch

`pruneBatchForPrefill` selects slot by slot, publishes the keep lists and then
repacks the embeddings, the deepstack planes and the rotary rows in place.
`compactAuxiliaryInputs` brings the token ids and the visual features to the
same keep lists.

Rows of a tensor are values of an arbitrary type; a gather through the scratch
buffer reads the tensor before it writes.
-/

namespace EdgeLLM.Ports.VisualPruner

open Verified

/-- A tensor `[batch, width, _]` with room for `capacity` rows. -/
structure Plane (α : Type) where
  batch : Nat
  width : Nat
  capacity : Nat
  row : Nat → α

/-- `reshape({batch, width, _})`. -/
def Plane.reshape {α : Type} (plane : Plane α) (batch width : Nat) : Except String (Plane α) := do
  requireThat (batch * width ≤ plane.capacity) "Tensor reshape failed"
  pure { plane with batch := batch, width := width }

structure PipelineIo (α β : Type) where
  inputsEmbeds : Plane α
  deepstackEmbeds : List (Plane α)
  /-- `[batch, maxKVCacheCapacity, rotaryDim]`, unless it is empty. -/
  mropeActiveCosSin : Option (Plane β)

/-- What a pruner keeps from one prefill to the next. -/
structure PrunerState where
  slotKeepLists : Nat → List Nat
  keepStartOffsets : List Nat
  concatenatedKeepIndices : List Nat

def publishSlot (lengths : Nat → Nat) (state : PrunerState) (slot : Nat) : PrunerState :=
  let keep := if (state.slotKeepLists slot).isEmpty then List.range (lengths slot)
    else state.slotKeepLists slot
  { slotKeepLists := Function.update state.slotKeepLists slot keep
    keepStartOffsets :=
      state.keepStartOffsets ++ [(state.concatenatedKeepIndices ++ keep).length]
    concatenatedKeepIndices := state.concatenatedKeepIndices ++ keep }

def publishKeepMap (lengths : Nat → Nat) (batch : Nat) (state : PrunerState) : PrunerState :=
  (List.range batch).foldl (publishSlot lengths)
    { state with keepStartOffsets := [0], concatenatedKeepIndices := [] }

section Repacking

variable {α β : Type}

/-- `keepHost` of a slot: the rows to gather. -/
def keepHost (keepList : List Nat) (oldLen newLen r : Nat) : Nat :=
  if newLen < oldLen then
    if r < newLen then keepList.getD r 0 else oldLen + (r - newLen)
  else r

/-- Gather `count` rows behind `source` through the scratch buffer and copy them to
`target`. -/
def gatherInto (target source count : Nat) (keep : Nat → Nat) (plane : Plane α) : Plane α :=
  { plane with
    row := writeAll (rowWrites target count fun j => plane.row (source + keep j)) plane.row }

/-- What one turn of the loop over the slots does, with the lengths before and after. -/
def repackSlot (config : Config) (keepLists : Nat → List Nat) (oldLens newLens : Nat → Nat)
    (oldMaxLen newMaxLen : Nat) (io : PipelineIo α β) (i : Nat) : PipelineIo α β :=
  let oldLen := oldLens i
  let newLen := newLens i
  let numPruned := oldLen - newLen
  if newLen = 0 ∨ (numPruned = 0 ∧ (i = 0 ∨ newMaxLen = oldMaxLen)) then io
  else
    let keep := keepHost (keepLists i) oldLen newLen
    let repackEmbedPlane := gatherInto (α := α) (i * newMaxLen) (i * oldMaxLen) newLen keep
    { inputsEmbeds := repackEmbedPlane io.inputsEmbeds
      deepstackEmbeds := io.deepstackEmbeds.map repackEmbedPlane
      mropeActiveCosSin := io.mropeActiveCosSin.map fun plane =>
        if 0 < numPruned then
          gatherInto (i * config.maxKVCacheCapacity) (i * config.maxKVCacheCapacity)
            (config.maxKVCacheCapacity - numPruned) keep plane
        else plane }

def executeBatchCompaction (config : Config) (keepLists : Nat → List Nat) (batch : Nat)
    (oldLens newLens : Nat → Nat) (oldMaxLen newMaxLen : Nat) (io : PipelineIo α β) :
    Except String (PipelineIo α β) := do
  requireThat (∀ plane ∈ io.mropeActiveCosSin, plane.width = config.maxKVCacheCapacity)
    "mropeActiveCosSin capacity mismatch"
  requireThat (∀ plane ∈ io.deepstackEmbeds, plane.batch = batch ∧ plane.width = oldMaxLen)
    "deepstackEmbeds shape mismatch"
  let io := (List.range batch).foldl
    (repackSlot config keepLists oldLens newLens oldMaxLen newMaxLen) io
  let inputsEmbeds ← io.inputsEmbeds.reshape batch newMaxLen
  let deepstackEmbeds ← io.deepstackEmbeds.mapM fun plane => plane.reshape batch newMaxLen
  pure { io with inputsEmbeds := inputsEmbeds, deepstackEmbeds := deepstackEmbeds }

/-! ## A prefill -/

/-- What a pruning pass leaves and returns. -/
structure PruneResult (α β : Type) where
  state : PrunerState
  io : PipelineIo α β
  effectiveLens : List Nat
  prunedTokens : List Nat
  width : Nat

/-- The keep list recorded for a slot and its pruned length. -/
structure SlotSelection where
  keepList : List Nat
  prunedLen : Nat
  deriving Inhabited

/-- The selection of a slot whose keep list is cleared. -/
def selectSlot (config : Config) (prune : Nat → Prune) (hostTokenIds : List (List Int))
    (i : Nat) : Except String SlotSelection := do
  let ids := hostTokenIds.getD i []
  let keep ← selectForSlot config (prune i) ids
  requireThat (prunedLength ids.length keep = ids.length ∨
      (keep.getD []).length = prunedLength ids.length keep)
    "must publish subset provenance through compactToKeepList"
  pure ⟨keep.getD [], prunedLength ids.length keep⟩

def pruneForPrefill (config : Config) (prune : Nat → Prune) (state : PrunerState)
    (hostTokenIds : List (List Int)) (io : PipelineIo α β) (origLen : Nat) :
    Except String (PrunerState × PipelineIo α β × Nat) := do
  requireThat ((hostTokenIds.getD 0 []).length = origLen) "token ids length mismatch"
  requireThat (io.inputsEmbeds.batch = 1) "pruneForPrefill expects batch size 1"
  requireThat (io.inputsEmbeds.width = origLen) "inputsEmbeds length mismatch"
  let selection ← selectSlot config prune hostTokenIds 0
  let prunedLen := selection.prunedLen
  let state := publishKeepMap (fun _ => prunedLen) 1
    { state with slotKeepLists := Function.update state.slotKeepLists 0 selection.keepList }
  if prunedLen < origLen then do
    let io ← executeBatchCompaction config state.slotKeepLists 1 (fun _ => origLen)
      (fun _ => prunedLen) origLen prunedLen io
    pure (state, io, prunedLen)
  else pure (state, io, prunedLen)

/-- Whether the token ids of every slot cover its prefill. -/
def covers (hostTokenIds : List (List Int)) (effectiveLens : List Nat) (maxLen batch : Nat) :
    Prop :=
  ∀ i < batch, (hostTokenIds.getD i []).length = effectiveLens.getD i 0 ∧
    effectiveLens.getD i 0 ≤ maxLen

instance (hostTokenIds : List (List Int)) (effectiveLens : List Nat) (maxLen batch : Nat) :
    Decidable (covers hostTokenIds effectiveLens maxLen batch) :=
  inferInstanceAs (Decidable (∀ i < batch, _ ∧ _))

/-- The passes over several slots. -/
def pruneSlots (config : Config) (prune : Nat → Prune) (state : PrunerState)
    (hostTokenIds : List (List Int)) (io : PipelineIo α β) (effectiveLens : List Nat)
    (maxLen batch : Nat) : Except String (PruneResult α β) := do
  let selections ← (List.range batch).mapM (selectSlot config prune hostTokenIds)
  let oldLens := fun i => effectiveLens.getD i 0
  let newLens := fun i => (selections.getD i default).prunedLen
  let newMaxLen := (List.range batch).foldl (fun most i => max most (newLens i)) 0
  let state := publishKeepMap newLens batch
    { state with slotKeepLists := fun i =>
        if i < batch then (selections.getD i default).keepList else state.slotKeepLists i }
  if ∃ i < batch, newLens i < oldLens i then do
    let io ← executeBatchCompaction config state.slotKeepLists batch oldLens newLens maxLen
      newMaxLen io
    pure
      { state := state
        io := io
        effectiveLens := (List.range effectiveLens.length).map fun i =>
          if i < batch then newLens i else oldLens i
        prunedTokens := (List.range batch).map fun i => oldLens i - newLens i
        width := newMaxLen }
  else
    pure
      { state := state
        io := io
        effectiveLens := effectiveLens
        prunedTokens := List.replicate batch 0
        width := maxLen }

def pruneBatchForPrefill (config : Config) (prune : Nat → Prune) (state : PrunerState)
    (hostTokenIds : List (List Int)) (io : PipelineIo α β) (effectiveLens : List Nat)
    (maxLen : Nat) : Except String (PruneResult α β) := do
  let batch := io.inputsEmbeds.batch
  requireThat (1 ≤ batch ∧ batch ≤ config.maxBatchSize)
    "batch size out of range for visual-token pruning"
  requireThat (batch ≤ hostTokenIds.length ∧ batch ≤ effectiveLens.length)
    "token ids / effective lengths must cover the batch"
  requireThat (io.inputsEmbeds.width = maxLen) "inputsEmbeds length mismatch"
  if batch = 1 then do
    let pruned ← pruneForPrefill config prune state hostTokenIds io maxLen
    pure
      { state := pruned.1
        io := pruned.2.1
        effectiveLens := effectiveLens.set 0 pruned.2.2
        prunedTokens := [maxLen - pruned.2.2]
        width := pruned.2.2 }
  else if covers hostTokenIds effectiveLens maxLen batch then
    pruneSlots config prune state hostTokenIds io effectiveLens maxLen batch
  else
    pure
      { state := state
        io := io
        effectiveLens := effectiveLens
        prunedTokens := List.replicate batch 0
        width := maxLen }

end Repacking

/-! ## Auxiliary inputs -/

/-- The loop over the positions of a pruned slot: its ids, how many of them are kept,
the visual tokens passed and the feature ordinals collected. -/
structure AuxiliaryCursor where
  ids : List Int
  k : Nat
  ordinal : Nat
  featureKeep : List Nat

def AuxiliaryCursor.visit (imageTokenId : Int) (keep : List Nat) (slotBase : Nat)
    (cursor : AuxiliaryCursor) (pos : Nat) : AuxiliaryCursor :=
  let id := cursor.ids.getD pos 0
  if cursor.k < keep.length ∧ pos = keep.getD cursor.k 0 then
    { ids := cursor.ids.set cursor.k id
      k := cursor.k + 1
      ordinal := if id = imageTokenId then cursor.ordinal + 1 else cursor.ordinal
      featureKeep := if id = imageTokenId then cursor.featureKeep ++ [slotBase + cursor.ordinal]
        else cursor.featureKeep }
  else
    { cursor with
      ordinal := if id = imageTokenId then cursor.ordinal + 1 else cursor.ordinal }

/-- `mFeatureKeepHost`, `slotBase` and the token ids in the pass over the slots. -/
structure AuxiliaryPass where
  hostTokenIds : List (List Int)
  featureKeep : List Nat
  slotBase : Nat

def AuxiliaryPass.compactSlot (config : Config) (keepLists : Nat → List Nat)
    (prunedTokens : List Nat) (pass : AuxiliaryPass) (i : Nat) : Except String AuxiliaryPass :=
  let ids := pass.hostTokenIds.getD i []
  let keep := keepLists i
  if prunedTokens.getD i 0 = 0 then
    let count := ids.countP (· = config.imageTokenId)
    .ok
      { pass with
        featureKeep := pass.featureKeep ++ (List.range count).map fun n => pass.slotBase + n
        slotBase := pass.slotBase + count }
  else do
    requireThat ((keep.length : Int) = (ids.length : Int) - prunedTokens.getD i 0)
      ("pruned a request without recording a keep list; auxiliary-input compaction " ++
        "(spec decode) is unavailable")
    let cursor := (List.range ids.length).foldl
      (AuxiliaryCursor.visit config.imageTokenId keep pass.slotBase) ⟨ids, 0, 0, pass.featureKeep⟩
    pure
      { hostTokenIds := pass.hostTokenIds.set i (cursor.ids.take keep.length)
        featureKeep := cursor.featureKeep
        slotBase := pass.slotBase + cursor.ordinal }

/-- The gather of the feature rows. -/
def compactFeatures {γ : Type} (pass : AuxiliaryPass) (visualFeatures : List γ) :
    Except String (List γ) := do
  requireThat (visualFeatures.length = pass.slotBase)
    "feature rows do not match the request's visual token count"
  pure (pass.featureKeep.filterMap fun ordinal => visualFeatures[ordinal]?)

def compactAuxiliaryInputs {γ : Type} (config : Config) (state : PrunerState)
    (hostTokenIds : List (List Int)) (batch : Nat) (prunedTokens : List Nat)
    (visualFeatures : Option (List γ)) :
    Except String (List (List Int) × Option (List γ)) := do
  requireThat (1 ≤ batch ∧ batch ≤ config.maxBatchSize ∧ batch ≤ hostTokenIds.length ∧
      batch ≤ prunedTokens.length)
    "compactAuxiliaryInputs batch mismatch"
  if ∀ n ∈ prunedTokens.take batch, n = 0 then pure (hostTokenIds, visualFeatures)
  else do
    let pass ← (List.range batch).foldlM
      (AuxiliaryPass.compactSlot config state.slotKeepLists prunedTokens) ⟨hostTokenIds, [], 0⟩
    if pass.featureKeep.length = pass.slotBase then pure (pass.hostTokenIds, visualFeatures)
    else
      let features ← visualFeatures.mapM (compactFeatures pass)
      pure (pass.hostTokenIds, features)

end EdgeLLM.Ports.VisualPruner
