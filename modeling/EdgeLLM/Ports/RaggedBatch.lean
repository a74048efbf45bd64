import EdgeLLM.Verified.Checked
import EdgeLLM.Verified.Moves
import Mathlib.Algebra.Order.Ring.Nat

/-!
# Ragged batches

`RaggedBatchBuilder` lays the query tokens of a scheduled step out in rows of
one width, the rest of a row padded, and records for each row where it starts,
how long it is and which of its tokens yields logits.
`finalizeSubsetSelection` shortens the rows afterwards, in place, to the tokens
that a pruner has kept.  `validateExecutionBatch` is the check that both end
with in a build with assertions.

A scratch table of the builder is modelled by the list of its live keys:
`clear` empties it and it is reserved for twice the sequences of a step.
-/

namespace EdgeLLM.Ports.RaggedBatch

open Verified

/-! ## Scheduled steps -/

inductive SequenceWork where
  | context
  | decode
  deriving DecidableEq

structure ResidentRef where
  slot : Int
  epoch : Nat
  deriving DecidableEq

structure SequenceIdentity where
  requestId : Nat
  resident : ResidentRef
  deriving DecidableEq

/-- A range of somebody's tokens; `extent` is what the pointer covers. -/
structure HostTokenRange where
  data : Option (List Int)
  extent : Int
  begin : Int
  count : Int
  covered : ∀ tokens ∈ data, extent ≤ tokens.length

/-- `data[begin + tokenIndex]`. -/
def HostTokenRange.read (range : HostTokenRange) (tokenIndex : Nat) : Int :=
  (range.data.getD []).getD (range.begin + tokenIndex).toNat 0

structure ScheduledSequence where
  identity : SequenceIdentity
  work : SequenceWork
  queryLength : Int
  pastLength : Int
  queryTokens : HostTokenRange
  selectLastTokenLogits : Bool

instance : Inhabited ScheduledSequence where
  default :=
    { identity := ⟨0, ⟨-1, 0⟩⟩
      work := .context
      queryLength := 0
      pastLength := 0
      queryTokens := ⟨none, 0, 0, 0, by simp⟩
      selectLastTokenLogits := true }

structure ScheduledStep where
  id : Nat
  sequences : List ScheduledSequence

/-! ## Execution batches -/

inductive TokenLayoutBackend where
  | entryPaddedCompatibility
  | nativeCompactRagged
  deriving DecidableEq

structure RaggedEngineContract where
  backend : TokenLayoutBackend
  maxNumSequences : Int
  maxQueryLength : Int
  maxPhysicalTokens : Int
  recurrentPoolRows : Int
  mixedStepSupported : Bool

structure RaggedStepShape where
  numSequences : Int
  validTokens : Int
  physicalTokens : Int
  queryWidth : Int
  numContextSequences : Int
  numContextTokens : Int
  numLogits : Int

/-- The tensor of the host token ids: one dimension, its capacity counted in
elements of its data type. -/
structure HostTokenIds where
  buffer : Buffer Int
  isInt32 : Bool
  onCpu : Bool
  ownMemory : Bool
  memoryCapacity : Int

/-- `Tensor::reshape` to one dimension; `none` where it returns false. -/
def HostTokenIds.reshape (tensor : HostTokenIds) (volume : Int) : Option HostTokenIds :=
  if tensor.ownMemory = true ∧ volume ≤ tensor.memoryCapacity then
    some { tensor with buffer := { tensor.buffer with size := volume.toNat } }
  else none

def HostTokenIds.store (writes : List (Nat × Int)) (tensor : HostTokenIds) : HostTokenIds :=
  { tensor with buffer := tensor.buffer.store writes }

structure RaggedExecutionBatch where
  stepId : Nat
  layout : TokenLayoutBackend
  shape : RaggedStepShape
  hostTokenIds : HostTokenIds
  sequenceOrder : List SequenceIdentity
  positions : Buffer Int
  queryStartOffsets : List Int
  queryLengths : List Int
  pastLengths : List Int
  attentionSequenceLengths : List Int
  stateIndices : List Int
  logitsIndices : List Int
  logitsToSequence : List Int
  sequenceWorks : List SequenceWork

def paddingTokenId : Int := 0

def paddingSentinel : Int := -1

def int32Max : Int := 2147483647

def validateContract (contract : RaggedEngineContract) : Except String Unit := do
  requireThat (contract.backend = .entryPaddedCompatibility) "unsupported token layout backend"
  requireThat (0 < contract.maxNumSequences) "maxNumSequences must be positive"
  requireThat (0 < contract.maxQueryLength) "maxQueryLength must be positive"
  requireThat (0 < contract.maxPhysicalTokens) "maxPhysicalTokens must be positive"
  requireThat (0 < contract.recurrentPoolRows) "recurrentPoolRows must be positive"
  requireThat (contract.mixedStepSupported = false)
    "mixed execution is not supported by the entry-padded ragged backend"

def checkedInt32 (value : Int) (description : String) : Except String Int := do
  requireThat (0 ≤ value ∧ value ≤ int32Max) (description ++ " exceeds int32 capacity")
  pure value

/-- `reserve`; `allocated` is what new storage holds. -/
def reserve (contract : RaggedEngineContract) (allocated : Nat → Int)
    (batch : RaggedExecutionBatch) : Except String RaggedExecutionBatch := do
  validateContract contract
  if batch.hostTokenIds.buffer.size = 0 then
    pure { batch with
      hostTokenIds :=
        { buffer := ⟨contract.maxPhysicalTokens.toNat, allocated⟩
          isInt32 := true
          onCpu := true
          ownMemory := true
          memoryCapacity := contract.maxPhysicalTokens } }
  else
    requireThat (batch.hostTokenIds.isInt32 = true ∧ batch.hostTokenIds.onCpu = true ∧
        contract.maxPhysicalTokens ≤ batch.hostTokenIds.memoryCapacity)
      "existing host token storage does not satisfy the ragged contract"
    pure batch

/-- What the first loop of `buildInto` accumulates. -/
structure StepTally where
  queryWidth : Int
  validTokens : Int
  numContextSequences : Int
  numContextTokens : Int
  numDecodeSequences : Int
  requestIdentities : List Nat
  residentSlots : List Int

def StepTally.start : StepTally := ⟨0, 0, 0, 0, 0, [], []⟩

/-- The part of the loop body that depends on the work of the sequence. -/
def countWork (tally : StepTally) (sequence : ScheduledSequence) : Except String StepTally :=
  if sequence.work = .context then
    pure { tally with
      numContextSequences := tally.numContextSequences + 1
      numContextTokens := tally.numContextTokens + sequence.queryLength }
  else do
    requireThat (sequence.queryLength = 1) "vanilla decode requires query length one"
    pure { tally with numDecodeSequences := tally.numDecodeSequences + 1 }

def admitSequence (contract : RaggedEngineContract) (tally : StepTally)
    (sequence : ScheduledSequence) : Except String StepTally := do
  let range := sequence.queryTokens
  let slot := sequence.identity.resident.slot
  requireThat (sequence.identity.requestId ≠ 0) "request ID zero is reserved"
  requireThat (sequence.identity.resident.epoch ≠ 0) "resident epoch zero is reserved"
  requireThat (0 ≤ slot ∧ slot < contract.recurrentPoolRows)
    "resident slot is outside the configured pool"
  requireThat (sequence.identity.requestId ∉ tally.requestIdentities)
    "duplicate request ID in scheduled step"
  requireThat (slot ∉ tally.residentSlots) "duplicate resident slot in scheduled step"
  requireThat (0 < sequence.queryLength) "query length must be positive"
  requireThat (sequence.queryLength ≤ contract.maxQueryLength)
    "query length exceeds engine capacity"
  requireThat (0 ≤ sequence.pastLength) "past length must not be negative"
  requireThat (range.data.isSome = true) "token range data must not be null"
  requireThat (0 ≤ range.extent ∧ 0 ≤ range.begin ∧ 0 < range.count)
    "token range bounds must be non-negative and non-empty"
  requireThat (range.count = sequence.queryLength) "token range count must equal query length"
  requireThat (range.begin + range.count ≤ range.extent) "token range exceeds its source extent"
  requireThat (sequence.pastLength + sequence.queryLength ≤ int32Max)
    "resulting sequence length exceeds int32 capacity"
  let tally ← countWork tally sequence
  let validTokens := tally.validTokens + sequence.queryLength
  requireThat (validTokens ≤ int32Max) "valid token count exceeds int32 capacity"
  requireThat (tally.numContextTokens ≤ int32Max) "context token count exceeds int32 capacity"
  pure { tally with
    queryWidth := max tally.queryWidth sequence.queryLength
    validTokens := validTokens
    requestIdentities := sequence.identity.requestId :: tally.requestIdentities
    residentSlots := slot :: tally.residentSlots }

/-- The logits row of a sequence, where it asks for one. -/
def selectLogits (selected : Bool) (row : Int) (owner : Nat) (batch : RaggedExecutionBatch) :
    RaggedExecutionBatch :=
  if selected then
    { batch with
      logitsIndices := batch.logitsIndices ++ [row]
      logitsToSequence := batch.logitsToSequence ++ [(owner : Int)] }
  else batch

/-- The second loop of `buildInto`. -/
def placeSequence (step : ScheduledStep) (queryWidth : Nat) (batch : RaggedExecutionBatch)
    (forwardIndex : Nat) : RaggedExecutionBatch :=
  let sequence := step.sequences.getD forwardIndex default
  let physicalStart := forwardIndex * queryWidth
  let length := sequence.queryLength.toNat
  selectLogits sequence.selectLastTokenLogits (physicalStart + sequence.queryLength - 1)
    forwardIndex
    { batch with
      queryStartOffsets := batch.queryStartOffsets.set forwardIndex physicalStart
      queryLengths := batch.queryLengths ++ [sequence.queryLength]
      pastLengths := batch.pastLengths ++ [sequence.pastLength]
      attentionSequenceLengths :=
        batch.attentionSequenceLengths ++ [sequence.pastLength + sequence.queryLength]
      stateIndices := batch.stateIndices ++ [sequence.identity.resident.slot]
      sequenceOrder := batch.sequenceOrder ++ [sequence.identity]
      sequenceWorks := batch.sequenceWorks ++ [sequence.work]
      hostTokenIds :=
        batch.hostTokenIds.store (rowWrites physicalStart length sequence.queryTokens.read)
      positions :=
        batch.positions.store (rowWrites physicalStart length fun j => sequence.pastLength + j) }

/-! ## Validation of a batch -/

/-- What the loop of `validateExecutionBatch` accumulates. -/
structure ExecutionTally where
  validTokens : Int
  numContextSequences : Int
  numContextTokens : Int

def countRow (work : SequenceWork) (queryLength : Int) (tally : ExecutionTally) :
    Except String ExecutionTally :=
  if work = .context then
    pure ⟨tally.validTokens + queryLength, tally.numContextSequences + 1,
      tally.numContextTokens + queryLength⟩
  else do
    requireThat (work = .decode ∧ queryLength = 1)
      "decode execution row must have query length one"
    pure { tally with validTokens := tally.validTokens + queryLength }

/-- The checks of one cell of the row that starts at `start`. -/
def validateToken (batch : RaggedExecutionBatch) (start : Nat) (queryLength pastLength : Int)
    (tokenIndex : Nat) : Except String Unit :=
  if (tokenIndex : Int) < queryLength then
    requireThat (batch.positions.cell (start + tokenIndex) = pastLength + tokenIndex)
      "valid token has the wrong absolute position"
  else do
    requireThat (batch.hostTokenIds.buffer.cell (start + tokenIndex) = paddingTokenId)
      "padding token does not use the safe value"
    requireThat (batch.positions.cell (start + tokenIndex) = paddingSentinel)
      "padding token has a live position"

def validateRow (batch : RaggedExecutionBatch) (contract : RaggedEngineContract)
    (tally : ExecutionTally) (index : Nat) : Except String ExecutionTally := do
  let width := batch.shape.queryWidth
  let start := index * width.toNat
  let queryLength := batch.queryLengths.getD index 0
  let pastLength := batch.pastLengths.getD index 0
  let slot := batch.stateIndices.getD index 0
  let identity := batch.sequenceOrder.getD index ⟨0, ⟨-1, 0⟩⟩
  let earlier := batch.sequenceOrder.take index
  requireThat (batch.queryStartOffsets.getD index 0 = start)
    "query offset is not an entry-padded physical start"
  requireThat (0 < queryLength ∧ queryLength ≤ width) "query length is invalid"
  requireThat (0 ≤ pastLength) "past length is invalid"
  requireThat (pastLength + queryLength ≤ batch.attentionSequenceLengths.getD index 0)
    "attention sequence length cannot precede the visible query endpoint"
  requireThat (slot = identity.resident.slot) "state and resident slots disagree"
  requireThat (0 ≤ slot ∧ slot < contract.recurrentPoolRows)
    "state index is outside the configured pool"
  requireThat (identity.requestId ∉ earlier.map fun i => i.requestId)
    "duplicate request identity snapshot"
  requireThat (identity.resident.slot ∉ earlier.map fun i => i.resident.slot)
    "duplicate resident identity snapshot"
  let tally ← countRow (batch.sequenceWorks.getD index .context) queryLength tally
  (List.range width.toNat).forM (validateToken batch start queryLength pastLength)
  pure tally

def validateLogits (batch : RaggedExecutionBatch) (logitsRow : Nat) : Except String Unit := do
  let owner := batch.logitsToSequence.getD logitsRow 0
  requireThat (0 ≤ owner ∧ owner < batch.shape.numSequences)
    "logits owner is outside the execution batch"
  requireThat (owner ∉ batch.logitsToSequence.take logitsRow)
    "logits route contains a duplicate sequence"
  let expectedIndex := batch.queryStartOffsets.getD owner.toNat 0 +
    batch.queryLengths.getD owner.toNat 0 - 1
  requireThat (batch.logitsIndices.getD logitsRow 0 = expectedIndex)
    "logits index does not select the final valid row"
  requireThat (0 ≤ batch.positions.cell expectedIndex.toNat) "logits index selects padding"

/-- The checks that precede the loops. -/
def validateShape (batch : RaggedExecutionBatch) (contract : RaggedEngineContract) :
    Except String Unit := do
  let shape := batch.shape
  requireThat (batch.layout = contract.backend)
    "execution layout does not match the engine contract"
  requireThat (0 < shape.numSequences ∧ shape.numSequences ≤ contract.maxNumSequences)
    "execution sequence count is outside engine capacity"
  requireThat (0 < shape.queryWidth ∧ shape.queryWidth ≤ contract.maxQueryLength)
    "execution query width is outside engine capacity"
  let expectedPhysical ←
    checkedInt32 (shape.numSequences * shape.queryWidth) "execution physical token count"
  requireThat (shape.physicalTokens = expectedPhysical ∧
      expectedPhysical ≤ contract.maxPhysicalTokens)
    "execution physical token shape is invalid"
  requireThat (batch.hostTokenIds.buffer.size ≠ 0 ∧ batch.hostTokenIds.onCpu = true ∧
      batch.hostTokenIds.isInt32 = true ∧
      (batch.hostTokenIds.buffer.size : Int) = shape.physicalTokens)
    "host token ID storage has the wrong shape or type"

/-- The sizes of the vectors. -/
def validateSizes (batch : RaggedExecutionBatch) : Except String Unit := do
  let numSequences := batch.shape.numSequences.toNat
  requireThat (batch.positions.size = batch.shape.physicalTokens.toNat)
    "position storage has the wrong size"
  requireThat (batch.queryStartOffsets.length = numSequences + 1)
    "query offsets have the wrong size"
  requireThat (batch.queryLengths.length = numSequences) "query lengths have the wrong size"
  requireThat (batch.pastLengths.length = numSequences) "past lengths have the wrong size"
  requireThat (batch.attentionSequenceLengths.length = numSequences)
    "attention sequence lengths have the wrong size"
  requireThat (batch.stateIndices.length = numSequences) "state indices have the wrong size"
  requireThat (batch.sequenceOrder.length = numSequences)
    "sequence identity snapshot has the wrong size"
  requireThat (batch.sequenceWorks.length = numSequences)
    "sequence work snapshot has the wrong size"

/-- The checks after the loop over the rows. -/
def validateTotals (batch : RaggedExecutionBatch) (tally : ExecutionTally) :
    Except String Unit := do
  let shape := batch.shape
  requireThat (batch.queryStartOffsets.getLast? = some shape.physicalTokens)
    "terminal query offset is invalid"
  requireThat (tally.validTokens = shape.validTokens) "valid token shape is inconsistent"
  requireThat (tally.numContextSequences = shape.numContextSequences)
    "context sequence shape is inconsistent"
  requireThat (tally.numContextTokens = shape.numContextTokens)
    "context token shape is inconsistent"
  requireThat (tally.numContextSequences = 0 ∨ tally.numContextSequences = shape.numSequences)
    "mixed execution step is not supported"
  requireThat ((batch.logitsIndices.length : Int) = shape.numLogits)
    "logits index storage has the wrong size"
  requireThat (batch.logitsToSequence.length = batch.logitsIndices.length)
    "logits routing storage has the wrong size"

def validateExecutionBatch (batch : RaggedExecutionBatch) (contract : RaggedEngineContract) :
    Except String Unit := do
  validateContract contract
  validateShape batch contract
  validateSizes batch
  let tally ← (List.range batch.shape.numSequences.toNat).foldlM (validateRow batch contract)
    ⟨0, 0, 0⟩
  validateTotals batch tally
  (List.range batch.logitsIndices.length).forM (validateLogits batch)

/-! ## The batch of a step -/

/-- The empty rows that the second loop of `buildInto` fills. -/
def clearedBatch (contract : RaggedEngineContract) (step : ScheduledStep) (shape : RaggedStepShape)
    (storage : HostTokenIds) : RaggedExecutionBatch where
  stepId := step.id
  layout := contract.backend
  shape := shape
  hostTokenIds := storage.store (rowWrites 0 shape.physicalTokens.toNat fun _ => paddingTokenId)
  sequenceOrder := []
  positions := Buffer.assign shape.physicalTokens.toNat paddingSentinel
  queryStartOffsets := List.replicate (step.sequences.length + 1) 0
  queryLengths := []
  pastLengths := []
  attentionSequenceLengths := []
  stateIndices := []
  logitsIndices := []
  logitsToSequence := []
  sequenceWorks := []

/-- The last offset and the number of logits rows, known after the loop. -/
def closeBatch (numSequences : Nat) (physicalTokens : Int) (description : String)
    (batch : RaggedExecutionBatch) : Except String RaggedExecutionBatch := do
  let numLogits ← checkedInt32 batch.logitsIndices.length description
  pure { batch with
    queryStartOffsets := batch.queryStartOffsets.set numSequences physicalTokens
    shape := { batch.shape with numLogits := numLogits } }

/-- `validateExecutionBatch`, in a build with assertions. -/
def assertBatch (asserts : Bool) (contract : RaggedEngineContract) (batch : RaggedExecutionBatch) :
    Except String Unit :=
  if asserts then validateExecutionBatch batch contract else pure ()

/-- `check::check(tensor.reshape({volume}), ..)`. -/
def reshapeTokens (tensor : HostTokenIds) (volume : Int) (error : String) :
    Except String HostTokenIds :=
  (tensor.reshape volume).elim (.error error) .ok

def buildInto (asserts : Bool) (contract : RaggedEngineContract) (step : ScheduledStep)
    (batch : RaggedExecutionBatch) : Except String RaggedExecutionBatch := do
  validateContract contract
  requireThat (step.sequences.isEmpty = false) "scheduled step must contain at least one sequence"
  requireThat (step.sequences.length ≤ contract.maxNumSequences)
    "scheduled step exceeds sequence capacity"
  let numSequences ← checkedInt32 step.sequences.length "sequence count"
  let tally ← step.sequences.foldlM (admitSequence contract) StepTally.start
  requireThat (tally.numContextSequences = 0 ∨ tally.numDecodeSequences = 0)
    "mixed context and decode steps are not supported"
  let physicalTokens ← checkedInt32 (numSequences * tally.queryWidth) "physical token count"
  requireThat (physicalTokens ≤ contract.maxPhysicalTokens)
    "scheduled step exceeds physical token capacity"
  let validTokens ← checkedInt32 tally.validTokens "valid token count"
  let numContextTokens ← checkedInt32 tally.numContextTokens "context token count"
  let storage ← reshapeTokens batch.hostTokenIds physicalTokens "host token storage reshape failed"
  let shape : RaggedStepShape := ⟨numSequences, validTokens, physicalTokens, tally.queryWidth,
    tally.numContextSequences, numContextTokens, 0⟩
  let placed := (List.range step.sequences.length).foldl
    (placeSequence step tally.queryWidth.toNat) (clearedBatch contract step shape storage)
  let batch ← closeBatch step.sequences.length physicalTokens "logits count" placed
  assertBatch asserts contract batch
  pure batch

end EdgeLLM.Ports.RaggedBatch
