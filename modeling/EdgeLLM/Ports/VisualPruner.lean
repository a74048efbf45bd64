import EdgeLLM.Verified.Checked
import EdgeLLM.Verified.Ranges
import Mathlib.Data.List.Sort

/-!
# Visual-token pruning: one slot

`selectForSlot` splits the positions of a prompt into text and visual ones,
gives every contiguous span of visual positions a quota and asks the pruning
algorithm for the positions to retain.  `compactToKeepList` checks the answer
and records the keep list: all text positions and the retained visual ones.

The quota of a span is a product of doubles, a parameter here; the code clamps
it between one and the length of the span.
-/

namespace EdgeLLM.Ports.VisualPruner

open Verified

/-- What the constructor takes from its configuration and from the engine's; the
engine's parser checks that an input fits the cache. -/
structure Config where
  imageTokenId : Int
  minVisualTokens : Int
  /-- `ceil(spanLen * (1.0 - reductionRatio))`. -/
  ceilKept : Nat → Int
  maxBatchSize : Nat
  maxInputLength : Nat
  maxKVCacheCapacity : Nat
  maxBatchSize_pos : 0 < maxBatchSize
  maxInputLength_le : maxInputLength ≤ maxKVCacheCapacity

/-- One contiguous run of visual tokens with its retention quota. -/
structure ImageSpan where
  begin : Nat
  stop : Nat
  targetTokens : Nat

structure PruneRequest where
  imagePositions : List Nat
  textPositions : List Nat
  imageSpans : List ImageSpan
  targetImageTokens : Nat
  origLen : Nat

/-! ## Partitioning -/

/-- The positions of the visual tokens. -/
def imagePositions (config : Config) (hostTokenIds : List Int) : List Nat :=
  (List.range hostTokenIds.length).filter fun i => hostTokenIds.getD i 0 = config.imageTokenId

/-- The positions of the other tokens. -/
def textPositions (config : Config) (hostTokenIds : List Int) : List Nat :=
  (List.range hostTokenIds.length).filter fun i => hostTokenIds.getD i 0 ≠ config.imageTokenId

/-- The quota of a span, floored at one token. -/
def spanTarget (config : Config) (spanLen : Nat) : Nat :=
  (max 1 (min (spanLen : Int) (config.ceilKept spanLen))).toNat

/-- The loop that splits the visual positions into spans. -/
def imageSpans (config : Config) (positions : List Nat) : List ImageSpan :=
  (coalesce positions).map fun run => ⟨run.1, run.2, spanTarget config (run.2 - run.1)⟩

/-- The request that `selectForSlot` hands to the algorithm, where it does not skip
the slot. -/
def pruneRequest (config : Config) (hostTokenIds : List Int) : Option PruneRequest :=
  let image := imagePositions config hostTokenIds
  let spans := imageSpans config image
  let target := (spans.map fun span => span.targetTokens).sum
  if image.length = 0 ∨ (image.length : Int) < config.minVisualTokens then none
  else if image.length ≤ target then none
  else some
    { imagePositions := image
      textPositions := textPositions config hostTokenIds
      imageSpans := spans
      targetImageTokens := target
      origLen := hostTokenIds.length }

/-! ## Keep lists -/

/-- The loop over the retained positions: each must be marked, and loses its mark. -/
def validateRetained (origLen : Nat) : (Nat → Bool) → List Int → Except String Unit
  | _, [] => pure ()
  | isRetainable, idx :: rest => do
    requireThat (0 ≤ idx ∧ idx < origLen ∧ isRetainable idx.toNat = true)
      ("pruner returned an index that is out of range, duplicated, or not a visual token: " ++
        toString idx)
    validateRetained origLen (Function.update isRetainable idx.toNat false) rest

/-- `compactToKeepList` with deferred compaction: the keep list that it records, and
`none` where the retained set is no reduction. -/
def compactToKeepList (retainedImageIndices : List Int) (req : PruneRequest) :
    Except String (Option (List Nat)) := do
  requireThat (retainedImageIndices.isEmpty = false ∧
      retainedImageIndices.length ≤ req.targetImageTokens)
    "pruner returned an invalid retained set"
  validateRetained req.origLen (fun pos => req.imagePositions.contains pos) retainedImageIndices
  let keepIndices := (req.textPositions ++ retainedImageIndices.map Int.toNat).insertionSort
    (· ≤ ·)
  if req.origLen ≤ keepIndices.length then pure none else pure (some keepIndices)

/-- An algorithm: the visual positions to retain, or `none` where it skips the
request. -/
abbrev Prune : Type := PruneRequest → Except String (Option (List Int))

/-- `prune` of an algorithm that routes its result through `compactToKeepList`. -/
def runPrune (prune : Prune) (req : PruneRequest) : Except String (Option (List Nat)) := do
  let retained ← prune req
  retained.elim (pure none) fun retained => compactToKeepList retained req

/-- The pruned length, given the recorded keep list. -/
def prunedLength (origLen : Nat) (keep : Option (List Nat)) : Nat :=
  keep.elim origLen List.length

/-- `selectForSlot`: the keep list recorded for the slot, `none` where it stays as it
is. -/
def selectForSlot (config : Config) (prune : Prune) (hostTokenIds : List Int) :
    Except String (Option (List Nat)) :=
  (pruneRequest config hostTokenIds).elim (pure none) fun req => do
    let keep ← runPrune prune req
    requireThat (0 < prunedLength req.origLen keep ∧ prunedLength req.origLen keep ≤ req.origLen)
      "pruner returned an invalid pruned length"
    pure keep

end EdgeLLM.Ports.VisualPruner
