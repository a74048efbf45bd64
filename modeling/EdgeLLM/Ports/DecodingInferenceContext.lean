import EdgeLLM.Ports.ResidentSlotPool
import EdgeLLM.Ports.SlotSetup
import EdgeLLM.Verified.Columns

/-!
# The decoding context of a batch

`DecodingInferenceContext` keeps one vector for each field of a slot.  Growing,
exchanging rows and compaction are three lists of these vectors; the module says
that each of them is one operation on the rows.
-/

namespace EdgeLLM.Ports.Generation

open Utf8 (Bytes)
open Verified

/-- `LogprobsSlot`: the log-probabilities as the bits of the floats. -/
structure LogprobsSlot where
  data : List (Token × UInt32) := []
  numSteps : Nat := 0

/-- `BatchResult`, with the fields that the batch files for a slot. -/
structure FiledResult where
  result : BatchResult
  effectivePrefillLength : Nat
  prunedPrefillTokens : Nat
  acceptedDraftTokens : Nat
  proposedDraftTokens : Nat
  logprobs : List (List (Token × UInt32))

/-- `DecodingInferenceContext`, as far as the membership of the batch concerns it. -/
structure DecodingInferenceContext where
  systemPrompts : List Bytes := []
  rawBatchedInputIds : List (List Token) := []
  tokenIds : List (List Token) := []
  currentGenerateLengths : List Nat := []
  effectivePrefillLengths : List Nat := []
  prefillStartLengths : List Nat := []
  committedLengths : List Nat := []
  requestIds : List Nat := []
  residentRefs : List ResidentRef := []
  prunedPrefillTokens : List Nat := []
  finishedStates : List Bool := []
  acceptedDraftTokens : List Nat := []
  proposedDraftTokens : List Nat := []
  thinkingDone : List Bool := []
  guidedReasoningEnded : List Bool := []
  batchIndexMapping : List Int := []
  slotStreams : List SlotStreamState := []
  samplingSeeds : List UInt64 := []
  stepLogprobs : List LogprobsSlot := []
  stopStringsPerSlot : List (List Bytes) := []
  logitBiasPerSlot : List LogitBias := []
  callbackEmittedTokenCounts : List Nat := []
  residentSlots : ResidentSlotPool := {}
  completedBatches : AList (fun _ : Int => FiledResult) := ∅
  generationRound : Nat := 0
  activeBatchSize : Nat := 0
  numLogprobs : Nat := 0
  hasLogitBias : Bool := false
  logitBiasGpuDirty : Bool := false
  hasGuidedDecoding : Bool := false

/-- The state of one slot: an entry of every vector. -/
structure SlotRow where
  systemPrompt : Bytes := []
  rawBatchedInputIds : List Token := []
  tokenIds : List Token := []
  currentGenerateLength : Nat := 0
  effectivePrefillLength : Nat := 0
  prefillStartLength : Nat := 0
  committedLength : Nat := 0
  requestId : Nat := 0
  residentRef : ResidentRef := ⟨0, 0⟩
  /-- Nothing while no prefill has pruned. -/
  prunedPrefillTokens : Option Nat := none
  finishedState : Bool := false
  acceptedDraftTokens : Nat := 0
  proposedDraftTokens : Nat := 0
  thinkingDone : Bool := false
  guidedReasoningEnded : Bool := false
  batchIndex : Int := 0
  slotStream : SlotStreamState := {}
  samplingSeed : UInt64 := kDefaultSamplingSeed
  stepLogprobs : LogprobsSlot := {}
  stopStrings : List Bytes := []
  logitBias : LogitBias := ∅
  callbackEmittedTokenCount : Nat := 0

namespace DecodingInferenceContext

/-! ## Rows -/

/-- The entries of slot `i`. -/
def row (context : DecodingInferenceContext) (i : Nat) : SlotRow where
  systemPrompt := context.systemPrompts.getD i []
  rawBatchedInputIds := context.rawBatchedInputIds.getD i []
  tokenIds := context.tokenIds.getD i []
  currentGenerateLength := context.currentGenerateLengths.getD i 0
  effectivePrefillLength := context.effectivePrefillLengths.getD i 0
  prefillStartLength := context.prefillStartLengths.getD i 0
  committedLength := context.committedLengths.getD i 0
  requestId := context.requestIds.getD i 0
  residentRef := context.residentRefs.getD i ⟨0, 0⟩
  prunedPrefillTokens := context.prunedPrefillTokens[i]?
  finishedState := context.finishedStates.getD i false
  acceptedDraftTokens := context.acceptedDraftTokens.getD i 0
  proposedDraftTokens := context.proposedDraftTokens.getD i 0
  thinkingDone := context.thinkingDone.getD i false
  guidedReasoningEnded := context.guidedReasoningEnded.getD i false
  batchIndex := context.batchIndexMapping.getD i 0
  slotStream := context.slotStreams.getD i {}
  samplingSeed := context.samplingSeeds.getD i kDefaultSamplingSeed
  stepLogprobs := context.stepLogprobs.getD i {}
  stopStrings := context.stopStringsPerSlot.getD i []
  logitBias := context.logitBiasPerSlot.getD i ∅
  callbackEmittedTokenCount := context.callbackEmittedTokenCounts.getD i 0

/-- The live slots, in order. -/
def rows (context : DecodingInferenceContext) : List SlotRow :=
  (List.range context.activeBatchSize).map context.row

def perSlotSizesConsistent (context : DecodingInferenceContext) : Bool :=
  let expected := context.activeBatchSize
  context.systemPrompts.length == expected && context.rawBatchedInputIds.length == expected &&
    context.tokenIds.length == expected && context.currentGenerateLengths.length == expected &&
    context.samplingSeeds.length == expected && context.acceptedDraftTokens.length == expected &&
    context.proposedDraftTokens.length == expected &&
    context.effectivePrefillLengths.length == expected &&
    context.prefillStartLengths.length == expected &&
    context.committedLengths.length == expected && context.requestIds.length == expected &&
    context.residentRefs.length == expected && context.finishedStates.length == expected &&
    context.batchIndexMapping.length == expected && context.thinkingDone.length == expected &&
    context.guidedReasoningEnded.length == expected &&
    context.callbackEmittedTokenCounts.length == expected &&
    context.slotStreams.length == expected && context.stopStringsPerSlot.length == expected &&
    context.logitBiasPerSlot.length == expected && context.stepLogprobs.length == expected &&
    (context.prunedPrefillTokens.isEmpty || context.prunedPrefillTokens.length == expected)

/-- Every vector has an entry for every slot. -/
structure Rectangular (context : DecodingInferenceContext) (expected : Nat) : Prop where
  systemPrompts : context.systemPrompts.length = expected
  rawBatchedInputIds : context.rawBatchedInputIds.length = expected
  tokenIds : context.tokenIds.length = expected
  currentGenerateLengths : context.currentGenerateLengths.length = expected
  samplingSeeds : context.samplingSeeds.length = expected
  acceptedDraftTokens : context.acceptedDraftTokens.length = expected
  proposedDraftTokens : context.proposedDraftTokens.length = expected
  effectivePrefillLengths : context.effectivePrefillLengths.length = expected
  prefillStartLengths : context.prefillStartLengths.length = expected
  committedLengths : context.committedLengths.length = expected
  requestIds : context.requestIds.length = expected
  residentRefs : context.residentRefs.length = expected
  finishedStates : context.finishedStates.length = expected
  batchIndexMapping : context.batchIndexMapping.length = expected
  thinkingDone : context.thinkingDone.length = expected
  guidedReasoningEnded : context.guidedReasoningEnded.length = expected
  callbackEmittedTokenCounts : context.callbackEmittedTokenCounts.length = expected
  slotStreams : context.slotStreams.length = expected
  stopStringsPerSlot : context.stopStringsPerSlot.length = expected
  logitBiasPerSlot : context.logitBiasPerSlot.length = expected
  stepLogprobs : context.stepLogprobs.length = expected
  prunedPrefillTokens : context.prunedPrefillTokens = [] ∨
    context.prunedPrefillTokens.length = expected

theorem perSlotSizesConsistent_iff (context : DecodingInferenceContext) :
    context.perSlotSizesConsistent = true ↔ context.Rectangular context.activeBatchSize := by
  constructor
  · intro h
    simp only [perSlotSizesConsistent, Bool.and_eq_true, beq_iff_eq, Bool.or_eq_true,
      List.isEmpty_iff] at h
    obtain ⟨⟨⟨⟨⟨⟨⟨⟨⟨⟨⟨⟨⟨⟨⟨⟨⟨⟨⟨⟨⟨h1, h2⟩, h3⟩, h4⟩, h5⟩, h6⟩, h7⟩, h8⟩, h9⟩, h10⟩, h11⟩, h12⟩,
      h13⟩, h14⟩, h15⟩, h16⟩, h17⟩, h18⟩, h19⟩, h20⟩, h21⟩, h22⟩ := h
    exact ⟨h1, h2, h3, h4, h5, h6, h7, h8, h9, h10, h11, h12, h13, h14, h15, h16, h17, h18, h19,
      h20, h21, h22⟩
  · intro h
    simp only [perSlotSizesConsistent, Bool.and_eq_true, beq_iff_eq, Bool.or_eq_true,
      List.isEmpty_iff]
    exact ⟨⟨⟨⟨⟨⟨⟨⟨⟨⟨⟨⟨⟨⟨⟨⟨⟨⟨⟨⟨⟨h.systemPrompts, h.rawBatchedInputIds⟩, h.tokenIds⟩,
      h.currentGenerateLengths⟩, h.samplingSeeds⟩, h.acceptedDraftTokens⟩,
      h.proposedDraftTokens⟩, h.effectivePrefillLengths⟩, h.prefillStartLengths⟩,
      h.committedLengths⟩, h.requestIds⟩, h.residentRefs⟩, h.finishedStates⟩,
      h.batchIndexMapping⟩, h.thinkingDone⟩, h.guidedReasoningEnded⟩,
      h.callbackEmittedTokenCounts⟩, h.slotStreams⟩, h.stopStringsPerSlot⟩,
      h.logitBiasPerSlot⟩, h.stepLogprobs⟩, h.prunedPrefillTokens⟩

/-- The fields that are no vectors do not matter. -/
theorem Rectangular.scalars {context : DecodingInferenceContext} {n : Nat}
    (h : context.Rectangular n) (residentSlots : ResidentSlotPool)
    (completedBatches : AList fun _ : Int => FiledResult)
    (generationRound activeBatchSize numLogprobs : Nat)
    (hasLogitBias logitBiasGpuDirty hasGuidedDecoding : Bool) :
    ({ context with
      residentSlots := residentSlots
      completedBatches := completedBatches
      generationRound := generationRound
      activeBatchSize := activeBatchSize
      numLogprobs := numLogprobs
      hasLogitBias := hasLogitBias
      logitBiasGpuDirty := logitBiasGpuDirty
      hasGuidedDecoding := hasGuidedDecoding } : DecodingInferenceContext).Rectangular n :=
  ⟨h.systemPrompts, h.rawBatchedInputIds, h.tokenIds, h.currentGenerateLengths, h.samplingSeeds,
    h.acceptedDraftTokens, h.proposedDraftTokens, h.effectivePrefillLengths,
    h.prefillStartLengths, h.committedLengths, h.requestIds, h.residentRefs, h.finishedStates,
    h.batchIndexMapping, h.thinkingDone, h.guidedReasoningEnded, h.callbackEmittedTokenCounts,
    h.slotStreams, h.stopStringsPerSlot, h.logitBiasPerSlot, h.stepLogprobs, h.prunedPrefillTokens⟩

/-- An operation applied to every vector. -/
def mapColumns (op : (α : Type) → List α → List α) (context : DecodingInferenceContext) :
    DecodingInferenceContext :=
  { context with
    systemPrompts := op _ context.systemPrompts
    rawBatchedInputIds := op _ context.rawBatchedInputIds
    tokenIds := op _ context.tokenIds
    currentGenerateLengths := op _ context.currentGenerateLengths
    effectivePrefillLengths := op _ context.effectivePrefillLengths
    prefillStartLengths := op _ context.prefillStartLengths
    committedLengths := op _ context.committedLengths
    requestIds := op _ context.requestIds
    residentRefs := op _ context.residentRefs
    prunedPrefillTokens := op _ context.prunedPrefillTokens
    finishedStates := op _ context.finishedStates
    acceptedDraftTokens := op _ context.acceptedDraftTokens
    proposedDraftTokens := op _ context.proposedDraftTokens
    thinkingDone := op _ context.thinkingDone
    guidedReasoningEnded := op _ context.guidedReasoningEnded
    batchIndexMapping := op _ context.batchIndexMapping
    slotStreams := op _ context.slotStreams
    samplingSeeds := op _ context.samplingSeeds
    stepLogprobs := op _ context.stepLogprobs
    stopStringsPerSlot := op _ context.stopStringsPerSlot
    logitBiasPerSlot := op _ context.logitBiasPerSlot
    callbackEmittedTokenCounts := op _ context.callbackEmittedTokenCounts }

section MapColumns

variable {op : (α : Type) → List α → List α} {n m : Nat} {source : Nat → Nat}
variable {context : DecodingInferenceContext}

theorem Rectangular.mapColumns (h : context.Rectangular n) (hop : Reindexes op n m source) :
    (context.mapColumns op).Rectangular m where
  systemPrompts := hop.length _ _ h.systemPrompts
  rawBatchedInputIds := hop.length _ _ h.rawBatchedInputIds
  tokenIds := hop.length _ _ h.tokenIds
  currentGenerateLengths := hop.length _ _ h.currentGenerateLengths
  samplingSeeds := hop.length _ _ h.samplingSeeds
  acceptedDraftTokens := hop.length _ _ h.acceptedDraftTokens
  proposedDraftTokens := hop.length _ _ h.proposedDraftTokens
  effectivePrefillLengths := hop.length _ _ h.effectivePrefillLengths
  prefillStartLengths := hop.length _ _ h.prefillStartLengths
  committedLengths := hop.length _ _ h.committedLengths
  requestIds := hop.length _ _ h.requestIds
  residentRefs := hop.length _ _ h.residentRefs
  finishedStates := hop.length _ _ h.finishedStates
  batchIndexMapping := hop.length _ _ h.batchIndexMapping
  thinkingDone := hop.length _ _ h.thinkingDone
  guidedReasoningEnded := hop.length _ _ h.guidedReasoningEnded
  callbackEmittedTokenCounts := hop.length _ _ h.callbackEmittedTokenCounts
  slotStreams := hop.length _ _ h.slotStreams
  stopStringsPerSlot := hop.length _ _ h.stopStringsPerSlot
  logitBiasPerSlot := hop.length _ _ h.logitBiasPerSlot
  stepLogprobs := hop.length _ _ h.stepLogprobs
  prunedPrefillTokens := by
    rcases h.prunedPrefillTokens with hnone | hlength
    · apply Or.inl
      show op _ context.prunedPrefillTokens = []
      rw [hnone, hop.empty]
    · exact Or.inr (hop.length _ _ hlength)

theorem Rectangular.row_mapColumns (h : context.Rectangular n) (hop : Reindexes op n m source)
    {j : Nat} (hj : j < m) : (context.mapColumns op).row j = context.row (source j) := by
  have hpruned : (op _ context.prunedPrefillTokens)[j]? =
      context.prunedPrefillTokens[source j]? := by
    rcases h.prunedPrefillTokens with hnone | hlength
    · rw [hnone, hop.empty, List.getElem?_nil, List.getElem?_nil]
    · exact hop.getElem? _ _ hlength j hj
  simp only [row, DecodingInferenceContext.mapColumns, hpruned, hop.getD h.systemPrompts hj,
    hop.getD h.rawBatchedInputIds hj, hop.getD h.tokenIds hj, hop.getD h.currentGenerateLengths hj,
    hop.getD h.samplingSeeds hj, hop.getD h.acceptedDraftTokens hj,
    hop.getD h.proposedDraftTokens hj, hop.getD h.effectivePrefillLengths hj,
    hop.getD h.prefillStartLengths hj, hop.getD h.committedLengths hj, hop.getD h.requestIds hj,
    hop.getD h.residentRefs hj, hop.getD h.finishedStates hj, hop.getD h.batchIndexMapping hj,
    hop.getD h.thinkingDone hj, hop.getD h.guidedReasoningEnded hj,
    hop.getD h.callbackEmittedTokenCounts hj, hop.getD h.slotStreams hj,
    hop.getD h.stopStringsPerSlot hj, hop.getD h.logitBiasPerSlot hj, hop.getD h.stepLogprobs hj]

end MapColumns

theorem Rectangular.rows_mapColumns {context : DecodingInferenceContext}
    {op : (α : Type) → List α → List α} {m : Nat} {source : Nat → Nat}
    (h : context.Rectangular context.activeBatchSize)
    (hop : Reindexes op context.activeBatchSize m source) :
    (List.range m).map (context.mapColumns op).row =
      (List.range m).map fun j => context.row (source j) := by
  apply List.map_congr_left
  intro j hj
  exact h.row_mapColumns hop (List.mem_range.1 hj)

def exchangeExecutionRows (context : DecodingInferenceContext) (a b : Nat) :
    DecodingInferenceContext :=
  { context with
    systemPrompts := swapAt a b context.systemPrompts
    rawBatchedInputIds := swapAt a b context.rawBatchedInputIds
    tokenIds := swapAt a b context.tokenIds
    currentGenerateLengths := swapAt a b context.currentGenerateLengths
    effectivePrefillLengths := swapAt a b context.effectivePrefillLengths
    prefillStartLengths := swapAt a b context.prefillStartLengths
    committedLengths := swapAt a b context.committedLengths
    requestIds := swapAt a b context.requestIds
    residentRefs := swapAt a b context.residentRefs
    finishedStates := swapAt a b context.finishedStates
    batchIndexMapping := swapAt a b context.batchIndexMapping
    thinkingDone := swapAt a b context.thinkingDone
    guidedReasoningEnded := swapAt a b context.guidedReasoningEnded
    callbackEmittedTokenCounts := swapAt a b context.callbackEmittedTokenCounts
    slotStreams := swapAt a b context.slotStreams
    stopStringsPerSlot := swapAt a b context.stopStringsPerSlot
    samplingSeeds := swapAt a b context.samplingSeeds
    acceptedDraftTokens := swapAt a b context.acceptedDraftTokens
    proposedDraftTokens := swapAt a b context.proposedDraftTokens
    logitBiasPerSlot := swapAt a b context.logitBiasPerSlot
    stepLogprobs := swapAt a b context.stepLogprobs
    prunedPrefillTokens :=
      if context.prunedPrefillTokens ≠ [] then swapAt a b context.prunedPrefillTokens
      else context.prunedPrefillTokens }

theorem exchangeExecutionRows_eq (context : DecodingInferenceContext) (a b : Nat) :
    context.exchangeExecutionRows a b = context.mapColumns fun _ => swapAt a b := by
  rw [exchangeExecutionRows, mapColumns]
  split
  · rfl
  · rename_i hnone
    rw [not_not] at hnone
    rw [hnone, swapAt_nil]

def restoreExecutionRows (context : DecodingInferenceContext) (rowA rowB : Nat) :
    DecodingInferenceContext :=
  let exchanged := context.exchangeExecutionRows rowA rowB
  if context.hasLogitBias then { exchanged with logitBiasGpuDirty := true } else exchanged

/-- Restoring exchanges the rows, and may mark the bias table for upload. -/
theorem restoreExecutionRows_eq (context : DecodingInferenceContext) (rowA rowB : Nat) :
    ∃ dirty, context.restoreExecutionRows rowA rowB =
      { context.mapColumns fun _ => swapAt rowA rowB with logitBiasGpuDirty := dirty } := by
  rw [restoreExecutionRows, exchangeExecutionRows_eq]
  split
  · exact ⟨true, rfl⟩
  · exact ⟨context.logitBiasGpuDirty, rfl⟩

/-! ## Compaction -/

/-- The loop of `buildBatchMapping`; -1 marks an evicted slot. -/
def batchMappingFrom : Nat → List Bool → List Int
  | _, [] => []
  | newIdx, finished :: rest =>
    if !finished then (newIdx : Int) :: batchMappingFrom (newIdx + 1) rest
    else -1 :: batchMappingFrom newIdx rest

def buildBatchMapping (finishedStates : List Bool) : List Int :=
  batchMappingFrom 0 finishedStates

/-- `compactVector`, on a vector of the size of the mapping. -/
def compactVector : {α : Type} → List Int → List α → List α
  | _, newIdx :: batchMapping, x :: vec =>
    if 0 ≤ newIdx then x :: compactVector batchMapping vec else compactVector batchMapping vec
  | _, _, _ => []

/-- The new batch size of `performBatchEvict`. -/
def newActiveBatch (batchMapping : List Int) : Nat :=
  batchMapping.foldl
    (fun active newIdx => if 0 ≤ newIdx then max active (newIdx.toNat + 1) else active) 0

theorem compactVector_batchMappingFrom {α : Type} (gone : List Bool) :
    ∀ (newIdx : Nat) (vec : List α),
      compactVector (batchMappingFrom newIdx gone) vec = keepBy gone vec := by
  induction gone with
  | nil => intro newIdx vec; cases vec <;> rfl
  | cons g rest ih =>
    intro newIdx vec
    cases vec with
    | nil => cases g <;> rfl
    | cons x vec =>
      cases g with
      | true => exact ih newIdx vec
      | false =>
        show (if 0 ≤ (newIdx : Int) then _ else _) = _
        rw [if_pos (Int.natCast_nonneg _), ih]
        rfl

theorem newActiveBatch_eq (gone : List Bool) :
    newActiveBatch (buildBatchMapping gone) = (keptIndices gone).length := by
  have hfrom : ∀ (gone : List Bool) (newIdx : Nat), (batchMappingFrom newIdx gone).foldl
      (fun active newIdx => if 0 ≤ newIdx then max active (newIdx.toNat + 1) else active) newIdx =
        newIdx + (keepBy gone (List.range gone.length)).length := by
    intro gone
    induction gone with
    | nil => intro newIdx; rfl
    | cons g rest ih =>
      intro newIdx
      have htail : (keepBy rest (List.map Nat.succ (List.range rest.length))).length =
          (keepBy rest (List.range rest.length)).length :=
        length_keepBy rest (List.length_map _)
      rw [List.length_cons, List.range_succ_eq_map, keepBy]
      cases g with
      | true =>
        rw [if_pos rfl, htail]
        exact ih newIdx
      | false =>
        rw [if_neg Bool.false_ne_true, List.length_cons, htail]
        show (batchMappingFrom (newIdx + 1) rest).foldl _
          (if 0 ≤ (newIdx : Int) then max newIdx ((newIdx : Int).toNat + 1) else newIdx) = _
        rw [if_pos (Int.natCast_nonneg _), Int.toNat_natCast, Nat.max_eq_right (Nat.le_succ _), ih]
        omega
  rw [newActiveBatch, buildBatchMapping, hfrom, Nat.zero_add, keptIndices]

/-- The compaction of `performBatchEvict`, without the matchers. -/
def compactSlots (context : DecodingInferenceContext) (batchMapping : List Int)
    (hasGuidedDecoding : Bool) : DecodingInferenceContext :=
  let logitBiasPerSlot := compactVector batchMapping context.logitBiasPerSlot
  let hasLogitBias := logitBiasPerSlot.any fun slotLogitBias => !slotLogitBias.entries.isEmpty
  { context with
    finishedStates := compactVector batchMapping context.finishedStates
    thinkingDone := compactVector batchMapping context.thinkingDone
    guidedReasoningEnded := compactVector batchMapping context.guidedReasoningEnded
    hasGuidedDecoding := hasGuidedDecoding
    currentGenerateLengths := compactVector batchMapping context.currentGenerateLengths
    samplingSeeds := compactVector batchMapping context.samplingSeeds
    tokenIds := compactVector batchMapping context.tokenIds
    systemPrompts := compactVector batchMapping context.systemPrompts
    rawBatchedInputIds := compactVector batchMapping context.rawBatchedInputIds
    effectivePrefillLengths := compactVector batchMapping context.effectivePrefillLengths
    prefillStartLengths := compactVector batchMapping context.prefillStartLengths
    acceptedDraftTokens := compactVector batchMapping context.acceptedDraftTokens
    proposedDraftTokens := compactVector batchMapping context.proposedDraftTokens
    prunedPrefillTokens :=
      if context.prunedPrefillTokens ≠ [] then
        compactVector batchMapping context.prunedPrefillTokens
      else context.prunedPrefillTokens
    committedLengths := compactVector batchMapping context.committedLengths
    requestIds := compactVector batchMapping context.requestIds
    residentRefs := compactVector batchMapping context.residentRefs
    batchIndexMapping := compactVector batchMapping context.batchIndexMapping
    callbackEmittedTokenCounts := compactVector batchMapping context.callbackEmittedTokenCounts
    slotStreams := compactVector batchMapping context.slotStreams
    stopStringsPerSlot := compactVector batchMapping context.stopStringsPerSlot
    logitBiasPerSlot := logitBiasPerSlot
    hasLogitBias := hasLogitBias
    logitBiasGpuDirty := hasLogitBias
    stepLogprobs := compactVector batchMapping context.stepLogprobs
    activeBatchSize := newActiveBatch batchMapping }

theorem compactSlots_eq (context : DecodingInferenceContext) (gone : List Bool)
    (hasGuidedDecoding : Bool) :
    ∃ hasLogitBias, context.compactSlots (buildBatchMapping gone) hasGuidedDecoding =
      { context.mapColumns fun _ => keepBy gone with
        hasGuidedDecoding := hasGuidedDecoding
        hasLogitBias := hasLogitBias
        logitBiasGpuDirty := hasLogitBias
        activeBatchSize := (keptIndices gone).length } := by
  refine ⟨(keepBy gone context.logitBiasPerSlot).any fun slotLogitBias =>
    !slotLogitBias.entries.isEmpty, ?_⟩
  rw [compactSlots, newActiveBatch_eq, buildBatchMapping, mapColumns]
  simp only [compactVector_batchMappingFrom]
  split
  · rfl
  · rename_i hnone
    rw [not_not] at hnone
    rw [hnone, keepBy_nil]

/-- The pushes of `appendSlot`. -/
def pushSlot (context : DecodingInferenceContext) (row : SlotRow) : DecodingInferenceContext :=
  let hasLogitBias := context.hasLogitBias || !row.logitBias.entries.isEmpty
  { context with
    systemPrompts := context.systemPrompts ++ [row.systemPrompt]
    rawBatchedInputIds := context.rawBatchedInputIds ++ [row.rawBatchedInputIds]
    tokenIds := context.tokenIds ++ [row.tokenIds]
    currentGenerateLengths := context.currentGenerateLengths ++ [row.currentGenerateLength]
    samplingSeeds := context.samplingSeeds ++ [row.samplingSeed]
    acceptedDraftTokens := context.acceptedDraftTokens ++ [row.acceptedDraftTokens]
    proposedDraftTokens := context.proposedDraftTokens ++ [row.proposedDraftTokens]
    effectivePrefillLengths := context.effectivePrefillLengths ++ [row.effectivePrefillLength]
    prefillStartLengths := context.prefillStartLengths ++ [row.prefillStartLength]
    committedLengths := context.committedLengths ++ [row.committedLength]
    requestIds := context.requestIds ++ [row.requestId]
    residentRefs := context.residentRefs ++ [row.residentRef]
    finishedStates := context.finishedStates ++ [row.finishedState]
    batchIndexMapping := context.batchIndexMapping ++ [row.batchIndex]
    thinkingDone := context.thinkingDone ++ [row.thinkingDone]
    guidedReasoningEnded := context.guidedReasoningEnded ++ [row.guidedReasoningEnded]
    callbackEmittedTokenCounts :=
      context.callbackEmittedTokenCounts ++ [row.callbackEmittedTokenCount]
    slotStreams := context.slotStreams ++ [row.slotStream]
    stopStringsPerSlot := context.stopStringsPerSlot ++ [row.stopStrings]
    logitBiasPerSlot := context.logitBiasPerSlot ++ [row.logitBias]
    hasLogitBias := hasLogitBias
    logitBiasGpuDirty := hasLogitBias
    stepLogprobs := context.stepLogprobs ++ [row.stepLogprobs]
    prunedPrefillTokens :=
      match row.prunedPrefillTokens with
      | some pruned => context.prunedPrefillTokens ++ [pruned]
      | none => context.prunedPrefillTokens
    activeBatchSize := context.activeBatchSize + 1 }

/-- The row has a pruned count exactly where the batch has. -/
def Fits (context : DecodingInferenceContext) (row : SlotRow) : Prop :=
  row.prunedPrefillTokens.isSome = !context.prunedPrefillTokens.isEmpty

section PushSlot

variable {n : Nat} {context : DecodingInferenceContext} {row : SlotRow}

theorem Fits.nil (hfits : context.Fits row) (hnone : row.prunedPrefillTokens = none) :
    context.prunedPrefillTokens = [] := by
  rwa [Fits, hnone, Option.isSome_none, Bool.false_eq, Bool.not_eq_false',
    List.isEmpty_iff] at hfits

theorem Fits.length (hfits : context.Fits row) (h : context.Rectangular n) {pruned : Nat}
    (hsome : row.prunedPrefillTokens = some pruned) : context.prunedPrefillTokens.length = n := by
  rcases h.prunedPrefillTokens with hnil | hlength
  · rw [Fits, hsome, hnil] at hfits
    cases hfits
  · exact hlength

theorem Rectangular.pushSlot (h : context.Rectangular n) (hfits : context.Fits row) :
    (context.pushSlot row).Rectangular (n + 1) := by
  have hpush : ∀ {α : Type} {xs : List α} {x : α}, xs.length = n → (xs ++ [x]).length = n + 1 := by
    intro α xs x hlength
    rw [List.length_append, hlength]
    rfl
  refine ⟨hpush h.systemPrompts, hpush h.rawBatchedInputIds, hpush h.tokenIds,
    hpush h.currentGenerateLengths, hpush h.samplingSeeds, hpush h.acceptedDraftTokens,
    hpush h.proposedDraftTokens, hpush h.effectivePrefillLengths, hpush h.prefillStartLengths,
    hpush h.committedLengths, hpush h.requestIds, hpush h.residentRefs, hpush h.finishedStates,
    hpush h.batchIndexMapping, hpush h.thinkingDone, hpush h.guidedReasoningEnded,
    hpush h.callbackEmittedTokenCounts, hpush h.slotStreams, hpush h.stopStringsPerSlot,
    hpush h.logitBiasPerSlot, hpush h.stepLogprobs, ?_⟩
  rw [DecodingInferenceContext.pushSlot]
  cases hpruned : row.prunedPrefillTokens with
  | none => exact Or.inl (hfits.nil hpruned)
  | some pruned => exact Or.inr (hpush (hfits.length h hpruned))

/-- The rows before the new one stay, and the new one is the last. -/
theorem Rectangular.row_pushSlot (h : context.Rectangular n) (hfits : context.Fits row) (j : Nat)
    (hj : j < n + 1) : (context.pushSlot row).row j = if j < n then context.row j else row := by
  have hgetD : ∀ {α : Type} {xs : List α} {x : α} (d : α), xs.length = n →
      (xs ++ [x]).getD j d = if j < n then xs.getD j d else x := by
    intro α xs x d hlength
    split
    · rename_i hold
      rw [List.getD_append _ _ _ _ (by rw [hlength]; exact hold)]
    · rename_i hnew
      have hlast : j = xs.length := by omega
      rw [hlast, List.getD_append_right _ _ _ _ (Nat.le_refl _), Nat.sub_self]
      rfl
  have hpruned : (context.pushSlot row).prunedPrefillTokens[j]? =
      if j < n then context.prunedPrefillTokens[j]? else row.prunedPrefillTokens := by
    rw [DecodingInferenceContext.pushSlot]
    cases hsome : row.prunedPrefillTokens with
    | none =>
      dsimp only
      rw [hfits.nil hsome, List.getElem?_nil]
      split <;> rfl
    | some pruned =>
      have hlength := hfits.length h hsome
      dsimp only
      split
      · rename_i hold
        rw [List.getElem?_append_left (by rw [hlength]; exact hold)]
      · rename_i hnew
        have hlast : j = context.prunedPrefillTokens.length := by omega
        rw [hlast, List.getElem?_append_right (Nat.le_refl _), Nat.sub_self]
        rfl
  rw [DecodingInferenceContext.row, hpruned]
  simp only [DecodingInferenceContext.pushSlot, hgetD _ h.systemPrompts,
    hgetD _ h.rawBatchedInputIds, hgetD _ h.tokenIds, hgetD _ h.currentGenerateLengths,
    hgetD _ h.samplingSeeds, hgetD _ h.acceptedDraftTokens, hgetD _ h.proposedDraftTokens,
    hgetD _ h.effectivePrefillLengths, hgetD _ h.prefillStartLengths, hgetD _ h.committedLengths,
    hgetD _ h.requestIds, hgetD _ h.residentRefs, hgetD _ h.finishedStates,
    hgetD _ h.batchIndexMapping, hgetD _ h.thinkingDone, hgetD _ h.guidedReasoningEnded,
    hgetD _ h.callbackEmittedTokenCounts, hgetD _ h.slotStreams, hgetD _ h.stopStringsPerSlot,
    hgetD _ h.logitBiasPerSlot, hgetD _ h.stepLogprobs]
  split <;> rfl

end PushSlot

/-- The entries of slot `i`, written. -/
def setRow (context : DecodingInferenceContext) (i : Nat) (row : SlotRow) :
    DecodingInferenceContext :=
  { context with
    systemPrompts := context.systemPrompts.set i row.systemPrompt
    rawBatchedInputIds := context.rawBatchedInputIds.set i row.rawBatchedInputIds
    tokenIds := context.tokenIds.set i row.tokenIds
    currentGenerateLengths := context.currentGenerateLengths.set i row.currentGenerateLength
    samplingSeeds := context.samplingSeeds.set i row.samplingSeed
    acceptedDraftTokens := context.acceptedDraftTokens.set i row.acceptedDraftTokens
    proposedDraftTokens := context.proposedDraftTokens.set i row.proposedDraftTokens
    effectivePrefillLengths := context.effectivePrefillLengths.set i row.effectivePrefillLength
    prefillStartLengths := context.prefillStartLengths.set i row.prefillStartLength
    committedLengths := context.committedLengths.set i row.committedLength
    requestIds := context.requestIds.set i row.requestId
    residentRefs := context.residentRefs.set i row.residentRef
    finishedStates := context.finishedStates.set i row.finishedState
    batchIndexMapping := context.batchIndexMapping.set i row.batchIndex
    thinkingDone := context.thinkingDone.set i row.thinkingDone
    guidedReasoningEnded := context.guidedReasoningEnded.set i row.guidedReasoningEnded
    callbackEmittedTokenCounts :=
      context.callbackEmittedTokenCounts.set i row.callbackEmittedTokenCount
    slotStreams := context.slotStreams.set i row.slotStream
    stopStringsPerSlot := context.stopStringsPerSlot.set i row.stopStrings
    logitBiasPerSlot := context.logitBiasPerSlot.set i row.logitBias
    stepLogprobs := context.stepLogprobs.set i row.stepLogprobs
    prunedPrefillTokens :=
      match row.prunedPrefillTokens with
      | some pruned => context.prunedPrefillTokens.set i pruned
      | none => context.prunedPrefillTokens }

section SetRow

variable {n : Nat} {context : DecodingInferenceContext} {row : SlotRow}

theorem Rectangular.setRow (h : context.Rectangular n) (i : Nat) (row : SlotRow) :
    (context.setRow i row).Rectangular n := by
  have hset : ∀ {α : Type} {xs : List α} {x : α}, xs.length = n → (xs.set i x).length = n := by
    intro α xs x hlength
    rw [List.length_set, hlength]
  refine ⟨hset h.systemPrompts, hset h.rawBatchedInputIds, hset h.tokenIds,
    hset h.currentGenerateLengths, hset h.samplingSeeds, hset h.acceptedDraftTokens,
    hset h.proposedDraftTokens, hset h.effectivePrefillLengths, hset h.prefillStartLengths,
    hset h.committedLengths, hset h.requestIds, hset h.residentRefs, hset h.finishedStates,
    hset h.batchIndexMapping, hset h.thinkingDone, hset h.guidedReasoningEnded,
    hset h.callbackEmittedTokenCounts, hset h.slotStreams, hset h.stopStringsPerSlot,
    hset h.logitBiasPerSlot, hset h.stepLogprobs, ?_⟩
  rw [DecodingInferenceContext.setRow]
  cases row.prunedPrefillTokens with
  | none => exact h.prunedPrefillTokens
  | some pruned =>
    rcases h.prunedPrefillTokens with hnone | hlength
    · apply Or.inl
      show context.prunedPrefillTokens.set i pruned = []
      rw [hnone, List.set_nil]
    · exact Or.inr (hset hlength)

theorem Rectangular.row_setRow (h : context.Rectangular n) (hfits : context.Fits row) {i : Nat}
    (hi : i < n) (j : Nat) :
    (context.setRow i row).row j = if i = j then row else context.row j := by
  have hgetD : ∀ {α : Type} {xs : List α} {x : α} (d : α), xs.length = n →
      (xs.set i x).getD j d = if i = j then x else xs.getD j d := by
    intro α xs x d hlength
    rw [List.getD_eq_getElem?_getD, List.getElem?_set]
    split
    · rename_i hsame
      rw [if_pos (by rw [hlength]; exact hi)]
      rfl
    · rw [List.getD_eq_getElem?_getD]
  have hpruned : (context.setRow i row).prunedPrefillTokens[j]? =
      if i = j then row.prunedPrefillTokens else context.prunedPrefillTokens[j]? := by
    rw [DecodingInferenceContext.setRow]
    cases hsome : row.prunedPrefillTokens with
    | none =>
      dsimp only
      rw [hfits.nil hsome, List.getElem?_nil]
      split <;> rfl
    | some pruned =>
      have hlength := hfits.length h hsome
      dsimp only
      rw [List.getElem?_set]
      split
      · rw [if_pos (by rw [hlength]; exact hi)]
      · rfl
  rw [DecodingInferenceContext.row, hpruned]
  simp only [DecodingInferenceContext.setRow, hgetD _ h.systemPrompts,
    hgetD _ h.rawBatchedInputIds, hgetD _ h.tokenIds, hgetD _ h.currentGenerateLengths,
    hgetD _ h.samplingSeeds, hgetD _ h.acceptedDraftTokens, hgetD _ h.proposedDraftTokens,
    hgetD _ h.effectivePrefillLengths, hgetD _ h.prefillStartLengths, hgetD _ h.committedLengths,
    hgetD _ h.requestIds, hgetD _ h.residentRefs, hgetD _ h.finishedStates,
    hgetD _ h.batchIndexMapping, hgetD _ h.thinkingDone, hgetD _ h.guidedReasoningEnded,
    hgetD _ h.callbackEmittedTokenCounts, hgetD _ h.slotStreams, hgetD _ h.stopStringsPerSlot,
    hgetD _ h.logitBiasPerSlot, hgetD _ h.stepLogprobs]
  split <;> rfl

theorem Rectangular.fits_row (h : context.Rectangular n) {i : Nat} (hi : i < n) :
    context.Fits (context.row i) := by
  show context.prunedPrefillTokens[i]?.isSome = _
  rcases h.prunedPrefillTokens with hnone | hlength
  · rw [hnone]
    rfl
  · rw [List.getElem?_eq_getElem (by rw [hlength]; exact hi), Option.isSome_some]
    cases hpruned : context.prunedPrefillTokens with
    | nil =>
      rw [hpruned, List.length_nil] at hlength
      omega
    | cons x xs => rfl

/-! ## Columns of the rows -/

theorem map_rows {α : Type} {column : List α} (d : α) {field : SlotRow → α}
    (hlength : column.length = context.activeBatchSize)
    (hfield : ∀ i, field (context.row i) = column.getD i d) : context.rows.map field = column := by
  have hmap : context.rows.map field = (List.range column.length).map fun i => column.getD i d := by
    rw [rows, List.map_map, hlength]
    exact List.map_congr_left fun i _ => hfield i
  rw [hmap, map_getD_range]

theorem Rectangular.finishedStates_eq (h : context.Rectangular context.activeBatchSize) :
    context.rows.map SlotRow.finishedState = context.finishedStates :=
  map_rows false h.finishedStates fun _ => rfl

theorem Rectangular.requestIds_eq (h : context.Rectangular context.activeBatchSize) :
    context.rows.map SlotRow.requestId = context.requestIds :=
  map_rows 0 h.requestIds fun _ => rfl

theorem Rectangular.residentRefs_eq (h : context.Rectangular context.activeBatchSize) :
    context.rows.map SlotRow.residentRef = context.residentRefs :=
  map_rows ⟨0, 0⟩ h.residentRefs fun _ => rfl

theorem Rectangular.batchIndexMapping_eq (h : context.Rectangular context.activeBatchSize) :
    context.rows.map SlotRow.batchIndex = context.batchIndexMapping :=
  map_rows 0 h.batchIndexMapping fun _ => rfl

end SetRow

end DecodingInferenceContext

end EdgeLLM.Ports.Generation
