import EdgeLLM.Ports.RaggedBatch

/-!
# Subsets of a ragged batch

`finalizeSubsetSelection` receives the kept tokens of every row as one list of
indices with the offset of each row, moves the kept token ids to the front of
rows of the new width and rebuilds what depends on the width.
-/

namespace EdgeLLM.Ports.RaggedBatch

open Verified

/-- The keep indices of a row. -/
def keepOf (keepStartOffsets concatenatedKeepIndices : List Int) (sequence : Nat) : List Int :=
  let start := keepStartOffsets.getD sequence 0
  let stop := keepStartOffsets.getD (sequence + 1) 0
  (concatenatedKeepIndices.drop start.toNat).take (stop - start).toNat

/-- The loop over the keep indices of a row. -/
def checkKeep (oldLength : Int) : Int → List Int → Except String Unit
  | _, [] => pure ()
  | previous, index :: rest => do
    requireThat (previous < index ∧ index < oldLength)
      "subset keep indices must be strictly increasing and inside the source query"
    checkKeep oldLength index rest

/-- What the first loop of `finalizeSubsetSelection` accumulates. -/
structure SubsetTally where
  newQueryWidth : Int
  validTokens : Int
  contextTokens : Int

/-- Whether row `index` of the batch is the one the source step describes. -/
def describesRow (source : ScheduledSequence) (batch : RaggedExecutionBatch) (index : Nat) : Prop :=
  batch.sequenceOrder[index]? = some source.identity ∧
    batch.sequenceWorks[index]? = some source.work ∧
    batch.pastLengths[index]? = some source.pastLength ∧
    batch.queryLengths[index]? = some source.queryLength

instance (source : ScheduledSequence) (batch : RaggedExecutionBatch) (index : Nat) :
    Decidable (describesRow source batch index) :=
  inferInstanceAs (Decidable (_ ∧ _ ∧ _ ∧ _))

def admitSubset (sourceStep : ScheduledStep) (keepStartOffsets concatenatedKeepIndices : List Int)
    (batch : RaggedExecutionBatch) (tally : SubsetTally) (sequence : Nat) :
    Except String SubsetTally := do
  let source := sourceStep.sequences.getD sequence default
  let start := keepStartOffsets.getD sequence 0
  let stop := keepStartOffsets.getD (sequence + 1) 0
  let kept := stop - start
  requireThat (describesRow source batch sequence)
    "subset source step does not describe the provisional execution snapshot"
  requireThat (0 ≤ start ∧ start < stop ∧
      stop ≤ keepStartOffsets.getD batch.shape.numSequences.toNat 0)
    "each subset sequence must retain a non-empty ordered keep range"
  checkKeep (batch.queryLengths.getD sequence 0) (-1)
    (keepOf keepStartOffsets concatenatedKeepIndices sequence)
  pure
    { newQueryWidth := max tally.newQueryWidth kept
      validTokens := tally.validTokens + kept
      contextTokens :=
        if batch.sequenceWorks.getD sequence .context = .context then tally.contextTokens + kept
        else tally.contextTokens }

/-- The moves of the kept token ids, in their order. -/
def subsetMoves (keepStartOffsets concatenatedKeepIndices : List Int)
    (numSequences oldQueryWidth newQueryWidth : Nat) : List (Nat × Nat) :=
  let keep := keepOf keepStartOffsets concatenatedKeepIndices
  rowMoves numSequences oldQueryWidth newQueryWidth (fun sequence => (keep sequence).length)
    fun sequence offset => ((keep sequence).getD offset 0).toNat

def HostTokenIds.move (moves : List (Nat × Nat)) (tensor : HostTokenIds) : HostTokenIds :=
  { tensor with buffer := { tensor.buffer with cell := moveAll moves tensor.buffer.cell } }

/-- The last loop of `finalizeSubsetSelection`. -/
def rebuildSequence (sourceStep : ScheduledStep) (keepStartOffsets : List Int)
    (newQueryWidth : Nat) (batch : RaggedExecutionBatch) (index : Nat) : RaggedExecutionBatch :=
  let source := sourceStep.sequences.getD index default
  let kept := keepStartOffsets.getD (index + 1) 0 - keepStartOffsets.getD index 0
  let start := index * newQueryWidth
  let pastLength := batch.pastLengths.getD index 0
  selectLogits source.selectLastTokenLogits (start + kept - 1) index
    { batch with
      queryStartOffsets := batch.queryStartOffsets.set index start
      queryLengths := batch.queryLengths.set index kept
      attentionSequenceLengths := batch.attentionSequenceLengths.set index (pastLength + kept)
      positions := batch.positions.store (rowWrites start kept.toNat fun j => pastLength + j)
      hostTokenIds := batch.hostTokenIds.store
        (rowWrites (start + kept.toNat) (newQueryWidth - kept.toNat) fun _ => paddingTokenId) }

/-- The batch after the moves, its logits and positions cleared. -/
def movedBatch (batch : RaggedExecutionBatch) (moves : List (Nat × Nat)) (shape : RaggedStepShape) :
    RaggedExecutionBatch :=
  { batch with
    shape := shape
    hostTokenIds := batch.hostTokenIds.move moves
    positions := Buffer.assign shape.physicalTokens.toNat paddingSentinel
    logitsIndices := []
    logitsToSequence := [] }

/-- The checks that precede the loops. -/
def checkSubset (sourceStep : ScheduledStep) (keepStartOffsets concatenatedKeepIndices : List Int)
    (batch : RaggedExecutionBatch) : Except String Unit := do
  let numSequences := batch.shape.numSequences
  let total := keepStartOffsets.getD numSequences.toNat 0
  requireThat (batch.layout = .entryPaddedCompatibility)
    "subset finalization requires the entry-padded backend"
  requireThat (sourceStep.id = batch.stepId)
    "subset source step ID does not match the provisional batch"
  requireThat ((sourceStep.sequences.length : Int) = numSequences)
    "subset source step does not match the provisional batch"
  requireThat (keepStartOffsets.length = numSequences.toNat + 1)
    "subset keep offsets have the wrong extent"
  requireThat (keepStartOffsets.getD 0 0 = 0) "subset keep offsets must start at zero"
  requireThat (0 ≤ total ∧ total.toNat = concatenatedKeepIndices.length)
    "subset keep offsets do not cover the keep-index storage"

def finalizeSubsetSelection (asserts : Bool) (contract : RaggedEngineContract)
    (sourceStep : ScheduledStep) (keepStartOffsets concatenatedKeepIndices : List Int)
    (batch : RaggedExecutionBatch) : Except String RaggedExecutionBatch := do
  validateContract contract
  checkSubset sourceStep keepStartOffsets concatenatedKeepIndices batch
  let numSequences := batch.shape.numSequences.toNat
  let tally ← (List.range numSequences).foldlM
    (admitSubset sourceStep keepStartOffsets concatenatedKeepIndices batch) ⟨0, 0, 0⟩
  let physicalTokens ← checkedInt32 (batch.shape.numSequences * tally.newQueryWidth)
    "final subset physical token count"
  requireThat (physicalTokens ≤ contract.maxPhysicalTokens)
    "final subset exceeds physical token capacity"
  let moves := subsetMoves keepStartOffsets concatenatedKeepIndices numSequences
    batch.shape.queryWidth.toNat tally.newQueryWidth.toNat
  let validTokens ← checkedInt32 tally.validTokens "final subset valid token count"
  let contextTokens ← checkedInt32 tally.contextTokens "final subset context token count"
  let shape := { batch.shape with
    validTokens := validTokens
    physicalTokens := physicalTokens
    queryWidth := tally.newQueryWidth
    numContextTokens := contextTokens }
  let rebuilt := (List.range numSequences).foldl
    (rebuildSequence sourceStep keepStartOffsets tally.newQueryWidth.toNat)
    (movedBatch batch moves shape)
  let batch ← closeBatch numSequences physicalTokens "final subset logits count" rebuilt
  let storage ← reshapeTokens batch.hostTokenIds physicalTokens
    "final host token storage reshape failed"
  let batch := { batch with hostTokenIds := storage }
  assertBatch asserts contract batch
  pure batch

end EdgeLLM.Ports.RaggedBatch
