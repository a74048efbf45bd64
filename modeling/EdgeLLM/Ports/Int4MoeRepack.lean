import EdgeLLM.Ports.Int4Words
import EdgeLLM.Verified.Tensor
import EdgeLLM.Verified.Writes
import Mathlib.Data.List.GetD

/-!
# INT4 experts in the Marlin layout

The experts of a mixture are packed in tiles of 16 input and 64 output
channels, 128 words a tile; a fused binding packs the gate and the up
projection side by side.  The runtime computes each word of a tile from a slot
number, the exporter gathers through literal tables.  The scales of a group are
permuted within 64 columns; with a single group the exporter permutes within
32 columns, in the order the per-channel kernel reads.
-/

namespace EdgeLLM.Ports.Int4

open Verified

namespace Marlin

def packIndex (index : Nat) : Nat := 2 * (index % 4) + index / 4

def outputIndex (slot : Nat) : Nat := 4 * (slot % 32) + slot / 32

def rowIndex (slot packedColumn : Nat) : Nat :=
  2 * (slot % 4) + packedColumn % 2 + 8 * (packedColumn / 2 % 2)

def columnIndex (slot packedColumn : Nat) : Nat :=
  let block := slot / 4
  block / 8 * 16 + block % 8 + if packedColumn < 4 then 0 else 8

end Marlin

/-! ## The kernels -/

/-- The source pointers of one launch; past the last one `get` is null. -/
abbrev CheckpointSourceBatch (w : Nat) := List (Nat → BitVec w)

def kCheckpointSourcesPerLaunch : Nat := 8

/-- What a launch reads: two projections when paired, and their zero points
when there are any. -/
structure QweightSources where
  firstQweights : CheckpointSourceBatch 32
  secondQweights : Option (CheckpointSourceBatch 32)
  firstQzeros : Option (CheckpointSourceBatch 32)
  secondQzeros : Option (CheckpointSourceBatch 32)

/-- The code at output channel `n` and input channel `k` of an expert. -/
def marlinValue (sources : QweightSources) (projectionN numGroups groupSize : Nat)
    (zeroPointOffset : BitVec 32) (expert n k : Nat) : BitVec 32 :=
  let useSecond := sources.secondQweights.isSome ∧ projectionN ≤ n
  let projectionColumn := if useSecond then n - projectionN else n
  let qweight := if useSecond then (sources.secondQweights.getD [])[expert]?
    else sources.firstQweights[expert]?
  let word := (qweight.getD fun _ => 0) (k / 8 * projectionN + projectionColumn)
  let value := nibble word (k % 8)
  let qzeros := if useSecond then (sources.secondQzeros.getD [])[expert]?
    else (sources.firstQzeros.getD [])[expert]?
  match qzeros with
  | none => value
  | some qzeros =>
    if 0 < numGroups then
      let zeroWord := qzeros (k / groupSize * (projectionN / 8) + projectionColumn / 8)
      recentre zeroPointOffset value (nibble zeroWord (projectionColumn % 8))
    else value

/-- The word of a slot. -/
def marlinWord (sources : QweightSources) (projectionN numGroups groupSize : Nat)
    (zeroPointOffset : BitVec 32) (expert kTile nTile slot : Nat) : BitVec 32 :=
  pack 8 fun p =>
    let packSrc := Marlin.packIndex p
    let rIdx := Marlin.rowIndex slot packSrc
    let cIdx := Marlin.columnIndex slot packSrc
    let n := nTile * 64 + cIdx
    let k := kTile * 16 + rIdx
    marlinValue sources projectionN numGroups groupSize zeroPointOffset expert n k

/-- The writes of a launch over `count` experts whose output starts at `output`. -/
def gptqMarlinRepackSourceBatchKernel (sources : QweightSources) (output count projectionN K
    numGroups groupSize : Nat) (zeroPointOffset : BitVec 32) : List (Nat × BitVec 32) :=
  let N := if sources.secondQweights.isSome then 2 * projectionN else projectionN
  let kTiles := K / 16
  let nTiles := N / 64
  (List.range count).flatMap fun expert => (List.range kTiles).flatMap fun kTile =>
    (List.range nTiles).flatMap fun nTile => (List.range 128).map fun slot =>
      let outCol := nTile * 128 + Marlin.outputIndex slot
      (output + ((expert * kTiles + kTile) * (nTiles * 128) + outCol),
        marlinWord sources projectionN numGroups groupSize zeroPointOffset expert kTile nTile slot)

/-- `none` is `cudaErrorInvalidValue`. -/
def launchGptqMarlinRepackSourceBatch (sources : QweightSources) (output count projectionN K
    numGroups groupSize : Nat) (zeroPointOffset : BitVec 32) : Option (List (Nat × BitVec 32)) :=
  let paired := sources.secondQweights.isSome
  let hasZeros := sources.firstQzeros.isSome
  if count = 0 ∨ kCheckpointSourcesPerLaunch < count ∨ projectionN = 0 ∨ K = 0 ∨
      projectionN % 64 ≠ 0 ∨ K % 16 ≠ 0 ∨
      (hasZeros ∧ (numGroups = 0 ∨ numGroups * groupSize ≠ K)) ∨
      (paired ∧ hasZeros ≠ sources.secondQzeros.isSome) then none
  else some (gptqMarlinRepackSourceBatchKernel sources output count projectionN K numGroups
    groupSize zeroPointOffset)

def cScalePermutation : List Nat :=
  [0, 8, 16, 24, 32, 40, 48, 56, 1, 9, 17, 25, 33, 41, 49, 57, 2, 10, 18, 26,
    34, 42, 50, 58, 3, 11, 19, 27, 35, 43, 51, 59, 4, 12, 20, 28, 36, 44, 52, 60, 5, 13, 21, 29, 37,
    45, 53, 61, 6, 14, 22, 30, 38, 46, 54, 62, 7, 15, 23, 31, 39, 47, 55, 63]

/-- The writes of a launch over the scales of `E` experts. -/
def int4MoeScaleRepackSourceBatchKernel (firstSources : CheckpointSourceBatch 16)
    (secondSources : Option (CheckpointSourceBatch 16)) (output E G projectionN : Nat) :
    List (Nat × BitVec 16) :=
  let N := if secondSources.isSome then 2 * projectionN else projectionN
  let count := E * G * N
  let threads := 256
  let blocks := (count + threads - 1) / threads
  (List.range (blocks * threads)).filterMap fun index =>
    if count ≤ index then none
    else
      let n := index % N
      let row := index / N
      let expert := row / G
      let group := row % G
      let useSecond := secondSources.isSome ∧ projectionN ≤ n
      let sourceN := if useSecond then n - projectionN else n
      let source := if useSecond then (secondSources.getD [])[expert]? else firstSources[expert]?
      let outputN := n / 64 * 64 + cScalePermutation.getD (n % 64) 0
      some (output + (row * N + outputN),
        (source.getD fun _ => 0) (group * projectionN + sourceN))

/-- `none` is `cudaErrorInvalidValue`. -/
def launchInt4MoeScaleRepackSourceBatch (firstSources : CheckpointSourceBatch 16)
    (secondSources : Option (CheckpointSourceBatch 16)) (output count G projectionN : Nat) :
    Option (List (Nat × BitVec 16)) :=
  let N := if secondSources.isSome then 2 * projectionN else projectionN
  if count = 0 ∨ kCheckpointSourcesPerLaunch < count ∨ G = 0 ∨ projectionN = 0 ∨ N % 64 ≠ 0 then
    none
  else some (int4MoeScaleRepackSourceBatchKernel firstSources secondSources output count G projectionN)

/-! ## The loader -/

/-- A projection of an expert: `qweight` is `[K/8, N]`, `qzeros` is
`[groups, N/8]` or has no element, `scales` is `[groups, N]`. -/
structure MoeProjection where
  qweight : Tensor (BitVec 32)
  qzeros : Tensor (BitVec 32)
  scales : Tensor (BitVec 16)

/-- Zero points are stored. -/
def MoeProjection.hasZeros (p : MoeProjection) : Bool := p.qzeros.numel ≠ 0

/-- The experts of a binding: their projections, and for a fused binding the
second ones. -/
structure MoeExperts where
  first : List MoeProjection
  second : Option (List MoeProjection)

/-- `begin` and the number of experts of each launch. -/
def checkpointSourceBatches (count : Nat) : List (Nat × Nat) :=
  (List.range ((count + 7) / kCheckpointSourcesPerLaunch)).map fun b =>
    (b * kCheckpointSourcesPerLaunch,
      min kCheckpointSourcesPerLaunch (count - b * kCheckpointSourcesPerLaunch))

/-- The flat sources of the experts of a launch. -/
def batchOf {w : Nat} (tensor : MoeProjection → Tensor (BitVec w)) (projections : List MoeProjection)
    (start count : Nat) : CheckpointSourceBatch w :=
  ((projections.drop start).take count).map fun p => (tensor p).flat

/-- The sources of a launch over the weights. -/
def qweightSources (experts : MoeExperts) (hasZeros : Bool) (start count : Nat) : QweightSources :=
  { firstQweights := batchOf MoeProjection.qweight experts.first start count
    secondQweights := experts.second.map fun ps => batchOf MoeProjection.qweight ps start count
    firstQzeros :=
      if hasZeros then some (batchOf MoeProjection.qzeros experts.first start count) else none
    secondQzeros :=
      if hasZeros then experts.second.map fun ps => batchOf MoeProjection.qzeros ps start count
      else none }

/-- `assembleInt4MoeQweights` past its checks of the tensors; the first
projection decides the geometry. -/
def assembleInt4MoeQweights (experts : MoeExperts) (bindingGroupSize : Nat)
    (zeroPointOffset : BitVec 32) (destination : Nat → BitVec 32) : Option (Nat → BitVec 32) :=
  match experts.first.head? with
  | none => none
  | some first =>
    let K := first.qweight.dim 0 * 8
    let projectionN := first.qweight.dim 1
    let N := if experts.second.isSome then 2 * projectionN else projectionN
    let hasZeros := first.hasZeros
    let numGroups := if hasZeros then first.qzeros.dim 0 else 0
    let groupSize := if hasZeros then K / numGroups else bindingGroupSize
    let wordsPerExpert := K / 16 * 2 * N
    (checkpointSourceBatches experts.first.length).foldlM (fun output batch =>
      (launchGptqMarlinRepackSourceBatch (qweightSources experts hasZeros batch.1 batch.2)
        (batch.1 * wordsPerExpert) batch.2 projectionN K numGroups groupSize
        zeroPointOffset).map fun writes => writeAll writes output) destination

/-- `assembleInt4MoeScales` past its checks of the tensors. -/
def assembleInt4MoeScales (experts : MoeExperts) (destination : Nat → BitVec 16) :
    Option (Nat → BitVec 16) :=
  match experts.first.head? with
  | none => none
  | some first =>
    let groups := first.scales.dim 0
    let projectionN := first.scales.dim 1
    let N := if experts.second.isSome then 2 * projectionN else projectionN
    (checkpointSourceBatches experts.first.length).foldlM (fun output batch =>
      (launchInt4MoeScaleRepackSourceBatch
        (batchOf MoeProjection.scales experts.first batch.1 batch.2)
        (experts.second.map fun ps => batchOf MoeProjection.scales ps batch.1 batch.2)
        (batch.1 * (groups * N)) batch.2 groups projectionN).map
        fun writes => writeAll writes output) destination

/-! ## The exporter -/

def unpackInt4Gptq (qweight : Tensor (BitVec 32)) : Tensor (BitVec 16) :=
  let packFactor := 8
  let weight : Tensor (BitVec 16) :=
    { shape := [qweight.dim 0, packFactor, qweight.dim 1]
      get := fun idx =>
        ((qweight.get [idx.getD 0 0, idx.getD 2 0]).sshiftRight (4 * idx.getD 1 0)).setWidth 16 &&&
          15#16 }
  weight.reshape [qweight.dim 0 * packFactor, qweight.dim 1]

def unpackQzerosMoe (qzeros : Tensor (BitVec 32)) : Tensor (BitVec 64) :=
  let z : Tensor (BitVec 64) :=
    { shape := [qzeros.dim 0, qzeros.dim 1, 8]
      get := fun idx =>
        ((qzeros.get [idx.getD 0 0, idx.getD 1 0]).signExtend 64).sshiftRight (4 * idx.getD 2 0) &&&
          15#64 }
  z.reshape [qzeros.dim 0, qzeros.dim 1 * 8]

/-- `_extract_gptq_for_marlin`: weights `[N, K]` and scales `[N, groups]`. -/
def extractGptqForMarlin (proj : MoeProjection) (groupSize : Nat) (zeroPointOffset : BitVec 32) :
    Tensor (BitVec 16) × Tensor (BitVec 16) :=
  let unpacked := unpackInt4Gptq proj.qweight
  let remapped : Tensor (BitVec 16) :=
    if proj.hasZeros then
      let zeros := unpackQzerosMoe proj.qzeros
      let groupIds k := min (k / groupSize) (zeros.dim 0 - 1)
      { shape := unpacked.shape
        get := fun idx => (recentre zeroPointOffset ((unpacked.get idx).signExtend 32)
          ((zeros.get (groupIds (idx.headD 0) :: idx.tail)).setWidth 32)).setWidth 16 }
    else unpacked
  (remapped.permute [1, 0], proj.scales.permute [1, 0])

/-- `torch.cat` along the first axis. -/
def cat (t u : Tensor (BitVec 16)) : Tensor (BitVec 16) where
  shape := (t.dim 0 + u.dim 0) :: t.shape.tail
  get idx :=
    if idx.headD 0 < t.dim 0 then t.get idx else u.get ((idx.headD 0 - t.dim 0) :: idx.tail)

/-- The weights and scales of each expert, gate and up side by side. -/
def expertTensors (experts : MoeExperts) (groupSize : Nat) (zeroPointOffset : BitVec 32) :
    List (Tensor (BitVec 16) × Tensor (BitVec 16)) :=
  let extract p := extractGptqForMarlin p groupSize zeroPointOffset
  match experts.second with
  | none => experts.first.map extract
  | some second => (experts.first.zip second).map fun ps =>
    (cat (extract ps.1).1 (extract ps.2).1, cat (extract ps.1).2 (extract ps.2).2)

def marlinPackIdx : List Nat := [0, 2, 4, 6, 1, 3, 5, 7]

def marlinOutIdx : List Nat :=
  [0, 4, 8, 12, 16, 20, 24, 28, 32, 36, 40, 44, 48, 52, 56, 60,
    64, 68, 72, 76, 80, 84, 88, 92, 96, 100, 104, 108, 112, 116, 120, 124,
    1, 5, 9, 13, 17, 21, 25, 29, 33, 37, 41, 45, 49, 53, 57, 61,
    65, 69, 73, 77, 81, 85, 89, 93, 97, 101, 105, 109, 113, 117, 121, 125,
    2, 6, 10, 14, 18, 22, 26, 30, 34, 38, 42, 46, 50, 54, 58, 62,
    66, 70, 74, 78, 82, 86, 90, 94, 98, 102, 106, 110, 114, 118, 122, 126,
    3, 7, 11, 15, 19, 23, 27, 31, 35, 39, 43, 47, 51, 55, 59, 63,
    67, 71, 75, 79, 83, 87, 91, 95, 99, 103, 107, 111, 115, 119, 123, 127]

def rowPattern : List (List Nat) :=
  [[0, 1, 8, 9, 0, 1, 8, 9], [2, 3, 10, 11, 2, 3, 10, 11],
    [4, 5, 12, 13, 4, 5, 12, 13], [6, 7, 14, 15, 6, 7, 14, 15]]

/-- The row pattern, tiled 32 times. -/
def marlinRowIdx : List (List Nat) := (List.replicate 32 rowPattern).flatten

def marlinColIdx : List (List Nat) :=
  [
    [0, 0, 0, 0, 8, 8, 8, 8], [0, 0, 0, 0, 8, 8, 8, 8],
    [0, 0, 0, 0, 8, 8, 8, 8], [0, 0, 0, 0, 8, 8, 8, 8],
    [1, 1, 1, 1, 9, 9, 9, 9], [1, 1, 1, 1, 9, 9, 9, 9],
    [1, 1, 1, 1, 9, 9, 9, 9], [1, 1, 1, 1, 9, 9, 9, 9],
    [2, 2, 2, 2, 10, 10, 10, 10], [2, 2, 2, 2, 10, 10, 10, 10],
    [2, 2, 2, 2, 10, 10, 10, 10], [2, 2, 2, 2, 10, 10, 10, 10],
    [3, 3, 3, 3, 11, 11, 11, 11], [3, 3, 3, 3, 11, 11, 11, 11],
    [3, 3, 3, 3, 11, 11, 11, 11], [3, 3, 3, 3, 11, 11, 11, 11],
    [4, 4, 4, 4, 12, 12, 12, 12], [4, 4, 4, 4, 12, 12, 12, 12],
    [4, 4, 4, 4, 12, 12, 12, 12], [4, 4, 4, 4, 12, 12, 12, 12],
    [5, 5, 5, 5, 13, 13, 13, 13], [5, 5, 5, 5, 13, 13, 13, 13],
    [5, 5, 5, 5, 13, 13, 13, 13], [5, 5, 5, 5, 13, 13, 13, 13],
    [6, 6, 6, 6, 14, 14, 14, 14], [6, 6, 6, 6, 14, 14, 14, 14],
    [6, 6, 6, 6, 14, 14, 14, 14], [6, 6, 6, 6, 14, 14, 14, 14],
    [7, 7, 7, 7, 15, 15, 15, 15], [7, 7, 7, 7, 15, 15, 15, 15],
    [7, 7, 7, 7, 15, 15, 15, 15], [7, 7, 7, 7, 15, 15, 15, 15],
    [16, 16, 16, 16, 24, 24, 24, 24], [16, 16, 16, 16, 24, 24, 24, 24],
    [16, 16, 16, 16, 24, 24, 24, 24], [16, 16, 16, 16, 24, 24, 24, 24],
    [17, 17, 17, 17, 25, 25, 25, 25], [17, 17, 17, 17, 25, 25, 25, 25],
    [17, 17, 17, 17, 25, 25, 25, 25], [17, 17, 17, 17, 25, 25, 25, 25],
    [18, 18, 18, 18, 26, 26, 26, 26], [18, 18, 18, 18, 26, 26, 26, 26],
    [18, 18, 18, 18, 26, 26, 26, 26], [18, 18, 18, 18, 26, 26, 26, 26],
    [19, 19, 19, 19, 27, 27, 27, 27], [19, 19, 19, 19, 27, 27, 27, 27],
    [19, 19, 19, 19, 27, 27, 27, 27], [19, 19, 19, 19, 27, 27, 27, 27],
    [20, 20, 20, 20, 28, 28, 28, 28], [20, 20, 20, 20, 28, 28, 28, 28],
    [20, 20, 20, 20, 28, 28, 28, 28], [20, 20, 20, 20, 28, 28, 28, 28],
    [21, 21, 21, 21, 29, 29, 29, 29], [21, 21, 21, 21, 29, 29, 29, 29],
    [21, 21, 21, 21, 29, 29, 29, 29], [21, 21, 21, 21, 29, 29, 29, 29],
    [22, 22, 22, 22, 30, 30, 30, 30], [22, 22, 22, 22, 30, 30, 30, 30],
    [22, 22, 22, 22, 30, 30, 30, 30], [22, 22, 22, 22, 30, 30, 30, 30],
    [23, 23, 23, 23, 31, 31, 31, 31], [23, 23, 23, 23, 31, 31, 31, 31],
    [23, 23, 23, 23, 31, 31, 31, 31], [23, 23, 23, 23, 31, 31, 31, 31],
    [32, 32, 32, 32, 40, 40, 40, 40], [32, 32, 32, 32, 40, 40, 40, 40],
    [32, 32, 32, 32, 40, 40, 40, 40], [32, 32, 32, 32, 40, 40, 40, 40],
    [33, 33, 33, 33, 41, 41, 41, 41], [33, 33, 33, 33, 41, 41, 41, 41],
    [33, 33, 33, 33, 41, 41, 41, 41], [33, 33, 33, 33, 41, 41, 41, 41],
    [34, 34, 34, 34, 42, 42, 42, 42], [34, 34, 34, 34, 42, 42, 42, 42],
    [34, 34, 34, 34, 42, 42, 42, 42], [34, 34, 34, 34, 42, 42, 42, 42],
    [35, 35, 35, 35, 43, 43, 43, 43], [35, 35, 35, 35, 43, 43, 43, 43],
    [35, 35, 35, 35, 43, 43, 43, 43], [35, 35, 35, 35, 43, 43, 43, 43],
    [36, 36, 36, 36, 44, 44, 44, 44], [36, 36, 36, 36, 44, 44, 44, 44],
    [36, 36, 36, 36, 44, 44, 44, 44], [36, 36, 36, 36, 44, 44, 44, 44],
    [37, 37, 37, 37, 45, 45, 45, 45], [37, 37, 37, 37, 45, 45, 45, 45],
    [37, 37, 37, 37, 45, 45, 45, 45], [37, 37, 37, 37, 45, 45, 45, 45],
    [38, 38, 38, 38, 46, 46, 46, 46], [38, 38, 38, 38, 46, 46, 46, 46],
    [38, 38, 38, 38, 46, 46, 46, 46], [38, 38, 38, 38, 46, 46, 46, 46],
    [39, 39, 39, 39, 47, 47, 47, 47], [39, 39, 39, 39, 47, 47, 47, 47],
    [39, 39, 39, 39, 47, 47, 47, 47], [39, 39, 39, 39, 47, 47, 47, 47],
    [48, 48, 48, 48, 56, 56, 56, 56], [48, 48, 48, 48, 56, 56, 56, 56],
    [48, 48, 48, 48, 56, 56, 56, 56], [48, 48, 48, 48, 56, 56, 56, 56],
    [49, 49, 49, 49, 57, 57, 57, 57], [49, 49, 49, 49, 57, 57, 57, 57],
    [49, 49, 49, 49, 57, 57, 57, 57], [49, 49, 49, 49, 57, 57, 57, 57],
    [50, 50, 50, 50, 58, 58, 58, 58], [50, 50, 50, 50, 58, 58, 58, 58],
    [50, 50, 50, 50, 58, 58, 58, 58], [50, 50, 50, 50, 58, 58, 58, 58],
    [51, 51, 51, 51, 59, 59, 59, 59], [51, 51, 51, 51, 59, 59, 59, 59],
    [51, 51, 51, 51, 59, 59, 59, 59], [51, 51, 51, 51, 59, 59, 59, 59],
    [52, 52, 52, 52, 60, 60, 60, 60], [52, 52, 52, 52, 60, 60, 60, 60],
    [52, 52, 52, 52, 60, 60, 60, 60], [52, 52, 52, 52, 60, 60, 60, 60],
    [53, 53, 53, 53, 61, 61, 61, 61], [53, 53, 53, 53, 61, 61, 61, 61],
    [53, 53, 53, 53, 61, 61, 61, 61], [53, 53, 53, 53, 61, 61, 61, 61],
    [54, 54, 54, 54, 62, 62, 62, 62], [54, 54, 54, 54, 62, 62, 62, 62],
    [54, 54, 54, 54, 62, 62, 62, 62], [54, 54, 54, 54, 62, 62, 62, 62],
    [55, 55, 55, 55, 63, 63, 63, 63], [55, 55, 55, 55, 63, 63, 63, 63],
    [55, 55, 55, 55, 63, 63, 63, 63], [55, 55, 55, 55, 63, 63, 63, 63]]

/-- `pack_int4_awq_marlin`, the weights of one expert `[N, K]`. -/
def packMarlinWeights (weightsQ : Tensor (BitVec 16)) : Tensor (BitVec 32) :=
  let N := weightsQ.dim 0
  let K := weightsQ.dim 1
  let wNp := (weightsQ.permute [1, 0]).map fun v => v.signExtend 32
  let kTiles := K / 16
  let nTiles := N / 64
  let tiles := (wNp.reshape [kTiles, 16, nTiles, 64]).permute [0, 2, 1, 3]
  let gathered kTile nTile slot p :=
    let column := marlinPackIdx.getD p 0
    tiles.get [kTile, nTile, (marlinRowIdx.getD slot []).getD column 0,
      (marlinColIdx.getD slot []).getD column 0]
  let packedOut kTile nTile slot := gathered kTile nTile slot 0 |||
    gathered kTile nTile slot 1 <<< 4 ||| gathered kTile nTile slot 2 <<< 8 |||
    gathered kTile nTile slot 3 <<< 12 ||| gathered kTile nTile slot 4 <<< 16 |||
    gathered kTile nTile slot 5 <<< 20 ||| gathered kTile nTile slot 6 <<< 24 |||
    gathered kTile nTile slot 7 <<< 28
  let writes := (List.range nTiles).flatMap fun nTileId => (List.range kTiles).flatMap fun kTile =>
    (List.range 128).map fun slot =>
      ((kTile, nTileId * 128 + marlinOutIdx.getD slot 0), packedOut kTile nTileId slot)
  let out := writeAll writes fun _ => 0#32
  { shape := [kTiles, nTiles * 128]
    get := fun idx => out (idx.getD 0 0, idx.getD 1 0) }

def scalePerm : List Nat := (List.range 8).flatMap fun i => (List.range 8).map fun j => i + 8 * j

def scalePermSingle : List Nat :=
  (List.range 4).flatMap fun i => [0, 1, 8, 9, 16, 17, 24, 25].map fun j => 2 * i + j

/-- The columns of a matrix at the given positions. -/
def selectColumns (t : Tensor (BitVec 16)) (columns : List Nat) : Tensor (BitVec 16) where
  shape := [t.dim 0, columns.length]
  get idx := t.get [idx.getD 0 0, columns.getD (idx.getD 1 0) 0]

/-- `_marlin_permute_scales` of `s` with shape `[groups, N]`. -/
def marlinPermuteScales (s : Tensor (BitVec 16)) (sizeK sizeN groupSize : Nat) :
    Tensor (BitVec 16) :=
  let perm := if groupSize < sizeK then scalePerm else scalePermSingle
  (selectColumns (s.reshape [s.numel / perm.length, perm.length]) perm).reshape
    [s.numel / sizeN, sizeN]

/-- `pack_int4_awq_marlin`: the buffers of all experts, one after the other. -/
def packInt4AwqMarlin (tensors : List (Tensor (BitVec 16) × Tensor (BitVec 16)))
    (groupSize : Nat) : List (Tensor (BitVec 32) × Tensor (BitVec 16)) :=
  tensors.map fun t =>
    (packMarlinWeights t.1,
      marlinPermuteScales (t.2.permute [1, 0]) (t.1.dim 1) (t.1.dim 0) groupSize)

/-! ## The codes of a projection -/

/-- The tensors of a projection. -/
structure MoeProjection.Shapes (p : MoeProjection) (hasZeros : Bool) (N K numGroups : Nat) :
    Prop where
  qweight : p.qweight.shape = [K / 8, N]
  zeros : p.hasZeros = hasZeros
  qzeros : hasZeros = true → p.qzeros.shape = [numGroups, N / 8]
  scales : p.scales.shape = [numGroups, N]

section Codes

variable {N K numGroups groupSize n k : Nat} {p : MoeProjection} {zeroPointOffset : BitVec 32}
variable {hasZeros : Bool}

/-- The code of a projection at an output and an input channel. -/
def MoeProjection.code (p : MoeProjection) (groupSize : Nat) (zeroPointOffset : BitVec 32)
    (n k : Nat) : BitVec 32 :=
  let value := nibble (p.qweight.get [k / 8, n]) (k % 8)
  if p.hasZeros then
    recentre zeroPointOffset value (nibble (p.qzeros.get [k / groupSize, n / 8]) (n % 8))
  else value

theorem MoeProjection.code_lt : (p.code groupSize zeroPointOffset n k).toNat < 16 := by
  unfold MoeProjection.code
  split
  · exact recentre_lt _ _ _
  · exact nibble_lt _ _

theorem unpackInt4Gptq_get {qweight : Tensor (BitVec 32)} (h : qweight.shape = [K / 8, N])
    (hn : n < N) (hk : k < K) (hK : K % 8 = 0) : (unpackInt4Gptq qweight).get [k, n] =
      (nibble (qweight.get [k / 8, n]) (k % 8)).setWidth 16 := by
  have hdimK : qweight.dim 0 = K / 8 := by rw [Tensor.dim, h]; rfl
  have hdimN : qweight.dim 1 = N := by rw [Tensor.dim, h]; rfl
  unfold unpackInt4Gptq nibble
  rw [Tensor.get_reshape [k / 8, k % 8, n], BitVec.setWidth_and]
  · rfl
  · change InShape [qweight.dim 0, 8, qweight.dim 1] [k / 8, k % 8, n]
    rw [hdimK, hdimN]
    simp only [inShape_cons, inShape_nil, and_true]
    omega
  · change offset _ [k, n] = offset [qweight.dim 0, 8, qweight.dim 1] [k / 8, k % 8, n]
    rw [hdimK, hdimN]
    have hsplit : k * N = k / 8 * (8 * N) + k % 8 * N := by
      conv_lhs => rw [← Nat.div_add_mod k 8]
      ring
    simp only [offset_cons, offset_nil, List.prod_cons, List.prod_nil, Nat.mul_one, hsplit,
      Nat.add_assoc]

theorem nibble_wide (word : BitVec 32) {i : Nat} (hi : i < 8) :
    ((word.signExtend 64).sshiftRight (4 * i) &&& 15#64).setWidth 32 = nibble word i := by
  unfold nibble
  rw [BitVec.setWidth_and]
  apply BitVec.eq_of_getLsbD_eq
  intro j hj
  rw [BitVec.getLsbD_and, BitVec.getLsbD_and]
  by_cases hlow : j < 4
  · congr 1
    rw [BitVec.getLsbD_setWidth, BitVec.getLsbD_sshiftRight, BitVec.getLsbD_sshiftRight,
      BitVec.getLsbD_signExtend]
    simp [hj, show 4 * i + j < 64 by omega, show 4 * i + j < 32 by omega,
      show ¬64 ≤ j by omega, show ¬32 ≤ j by omega]
  · have hmask : (15#32).getLsbD j = false := by
      rw [BitVec.getLsbD_ofNat, show 15 = 2 ^ 4 - 1 from rfl, Nat.testBit_two_pow_sub_one]
      simp
      omega
    have hmask' : (BitVec.setWidth 32 15#64).getLsbD j = false := by
      rw [BitVec.getLsbD_setWidth, BitVec.getLsbD_ofNat, show 15 = 2 ^ 4 - 1 from rfl,
        Nat.testBit_two_pow_sub_one]
      simp
      omega
    rw [hmask, hmask', Bool.and_false, Bool.and_false]

theorem unpackQzerosMoe_get {qzeros : Tensor (BitVec 32)} {g : Nat}
    (h : qzeros.shape = [numGroups, N / 8]) (hn : n < N) (hg : g < numGroups) (hN : N % 8 = 0) :
    ((unpackQzerosMoe qzeros).get [g, n]).setWidth 32 = nibble (qzeros.get [g, n / 8]) (n % 8) := by
  have hdimG : qzeros.dim 0 = numGroups := by rw [Tensor.dim, h]; rfl
  have hdimN : qzeros.dim 1 = N / 8 := by rw [Tensor.dim, h]; rfl
  unfold unpackQzerosMoe
  rw [Tensor.get_reshape [g, n / 8, n % 8]]
  · exact nibble_wide _ (Nat.mod_lt n (by omega))
  · change InShape [qzeros.dim 0, qzeros.dim 1, 8] [g, n / 8, n % 8]
    rw [hdimG, hdimN]
    simp only [inShape_cons, inShape_nil, and_true]
    omega
  · change offset _ [g, n] = offset [qzeros.dim 0, qzeros.dim 1, 8] [g, n / 8, n % 8]
    rw [hdimG, hdimN]
    simp only [offset_cons, offset_nil, List.prod_cons, List.prod_nil, Nat.mul_one]
    omega

theorem signExtend_setWidth {value : BitVec 32} (h : value.toNat < 16) :
    (value.setWidth 16).signExtend 32 = value := by
  have hmsb : (value.setWidth 16).msb = false := by
    rw [BitVec.msb_eq_false_iff_two_mul_lt, BitVec.toNat_setWidth]
    omega
  rw [BitVec.signExtend_eq_setWidth_of_msb_false hmsb,
    setWidth_setWidth_of_lt h 16 32 (by omega), BitVec.setWidth_eq]

/-- The exporter extracts the codes of a projection. -/
theorem extractGptqForMarlin_get (h : p.Shapes hasZeros N K numGroups) (hN : N % 8 = 0)
    (hK : K % 8 = 0) (hgroups : numGroups * groupSize = K) (hn : n < N) (hk : k < K) :
    (extractGptqForMarlin p groupSize zeroPointOffset).1.get [n, k] =
      (p.code groupSize zeroPointOffset n k).setWidth 16 := by
  have hgroup : k / groupSize < numGroups :=
    Nat.div_lt_of_lt_mul (by rw [Nat.mul_comm, hgroups]; exact hk)
  have hvalue := unpackInt4Gptq_get h.qweight hn hk hK
  unfold extractGptqForMarlin MoeProjection.code
  by_cases hzeros : p.hasZeros = true
  · have hz := h.qzeros (h.zeros.symm.trans hzeros)
    have hdimG : (unpackQzerosMoe p.qzeros).dim 0 = numGroups := by
      change p.qzeros.shape.getD 0 1 = numGroups
      rw [hz]
      rfl
    have hclamp : min (k / groupSize) ((unpackQzerosMoe p.qzeros).dim 0 - 1) = k / groupSize := by
      rw [hdimG]
      omega
    simp only [hzeros, if_true]
    change (recentre zeroPointOffset (((unpackInt4Gptq p.qweight).get [k, n]).signExtend 32)
      (((unpackQzerosMoe p.qzeros).get
        [min (k / groupSize) ((unpackQzerosMoe p.qzeros).dim 0 - 1), n]).setWidth 32)).setWidth
        16 = _
    rw [hclamp, hvalue, unpackQzerosMoe_get hz hn hgroup hN, signExtend_setWidth (nibble_lt _ _)]
  · simp only [hzeros, if_false, Bool.false_eq_true]
    exact hvalue

end Codes

/-! ## The tiles -/

section Tables

theorem marlinPackIdx_eq : ∀ p < 8, marlinPackIdx.getD p 0 = Marlin.packIndex p := by
  decide

theorem marlinOutIdx_eq : ∀ slot < 128, marlinOutIdx.getD slot 0 = Marlin.outputIndex slot := by
  decide +kernel

theorem marlinRowIdx_eq : ∀ slot < 128, ∀ column < 8,
    (marlinRowIdx.getD slot []).getD column 0 = Marlin.rowIndex slot column := by
  decide +kernel

theorem marlinColIdx_eq : ∀ slot < 128, ∀ column < 8,
    (marlinColIdx.getD slot []).getD column 0 = Marlin.columnIndex slot column := by
  decide +kernel

theorem packIndex_lt {p : Nat} (hp : p < 8) : Marlin.packIndex p < 8 := by
  unfold Marlin.packIndex
  omega

theorem rowIndex_lt (slot column : Nat) : Marlin.rowIndex slot column < 16 := by
  unfold Marlin.rowIndex
  omega

theorem columnIndex_lt {slot : Nat} (hslot : slot < 128) (column : Nat) :
    Marlin.columnIndex slot column < 64 := by
  unfold Marlin.columnIndex
  dsimp only
  split <;> omega

theorem outputIndex_lt {slot : Nat} (hslot : slot < 128) : Marlin.outputIndex slot < 128 := by
  unfold Marlin.outputIndex
  omega

theorem outputIndex_inj {slot slot' : Nat} (hslot : slot < 128) (hslot' : slot' < 128)
    (h : Marlin.outputIndex slot = Marlin.outputIndex slot') : slot = slot' := by
  unfold Marlin.outputIndex at h
  omega

theorem outputIndex_surj {o : Nat} (ho : o < 128) : ∃ slot < 128, Marlin.outputIndex slot = o := by
  refine ⟨o % 4 * 32 + o / 4, by omega, ?_⟩
  unfold Marlin.outputIndex
  omega

end Tables

section Tiles

variable {N K : Nat} {t : Tensor (BitVec 16)}

/-- The word the exporter puts at a slot of a tile. -/
theorem packMarlinWeights_get (ht : t.shape = [N, K]) (hN : N % 64 = 0) (hK : K % 16 = 0)
    {kTile nTile slot : Nat} (hkTile : kTile < K / 16) (hnTile : nTile < N / 64)
    (hslot : slot < 128) :
    (packMarlinWeights t).get [kTile, nTile * 128 + Marlin.outputIndex slot] = pack 8 fun p =>
      (t.get [nTile * 64 + Marlin.columnIndex slot (Marlin.packIndex p),
        kTile * 16 + Marlin.rowIndex slot (Marlin.packIndex p)]).signExtend 32 := by
  have hdimN : t.dim 0 = N := by rw [Tensor.dim, ht]; rfl
  have hdimK : t.dim 1 = K := by rw [Tensor.dim, ht]; rfl
  obtain ⟨nTiles, rfl⟩ := Nat.dvd_of_mod_eq_zero hN
  obtain ⟨kTiles, rfl⟩ := Nat.dvd_of_mod_eq_zero hK
  have hdivN : 64 * nTiles / 64 = nTiles := by omega
  have hdivK : 16 * kTiles / 16 = kTiles := by omega
  rw [hdivK] at hkTile
  rw [hdivN] at hnTile
  unfold packMarlinWeights
  simp only [hdimN, hdimK, hdivN, hdivK]
  -- one tile, gathered
  have htile : ∀ r < 16, ∀ c < 64, ((((t.permute [1, 0]).map fun v => v.signExtend 32).reshape
        [kTiles, 16, nTiles, 64]).permute [0, 2, 1, 3]).get [kTile, nTile, r, c] =
      (t.get [nTile * 64 + c, kTile * 16 + r]).signExtend 32 := by
    intro r hr c hc
    change (((t.permute [1, 0]).map fun v => v.signExtend 32).reshape
      [kTiles, 16, nTiles, 64]).get [kTile, r, nTile, c] = _
    rw [Tensor.get_reshape [kTile * 16 + r, nTile * 64 + c]]
    · rfl
    · change InShape [t.dim 1, t.dim 0] _
      rw [hdimN, hdimK]
      simp only [inShape_cons, inShape_nil, and_true]
      omega
    · change _ = offset [t.dim 1, t.dim 0] _
      rw [hdimN, hdimK]
      simp only [offset_cons, offset_nil, List.prod_cons, List.prod_nil]
      ring
  have hgathered : ∀ p < 8, ((((t.permute [1, 0]).map fun v => v.signExtend 32).reshape
        [kTiles, 16, nTiles, 64]).permute [0, 2, 1, 3]).get
        [kTile, nTile, (marlinRowIdx.getD slot []).getD (marlinPackIdx.getD p 0) 0,
          (marlinColIdx.getD slot []).getD (marlinPackIdx.getD p 0) 0] =
      (t.get [nTile * 64 + Marlin.columnIndex slot (Marlin.packIndex p),
        kTile * 16 + Marlin.rowIndex slot (Marlin.packIndex p)]).signExtend 32 := by
    intro p hp
    rw [marlinPackIdx_eq p hp, marlinRowIdx_eq slot hslot _ (packIndex_lt hp),
      marlinColIdx_eq slot hslot _ (packIndex_lt hp),
      htile _ (rowIndex_lt _ _) _ (columnIndex_lt hslot _)]
  change writeAll _ _ (kTile, nTile * 128 + Marlin.outputIndex slot) = _
  apply writeAll_of_mem
  · refine ⟨_, List.mem_flatMap.2 ⟨nTile, List.mem_range.2 hnTile, List.mem_flatMap.2
      ⟨kTile, List.mem_range.2 hkTile, List.mem_map.2 ⟨slot, List.mem_range.2 hslot, rfl⟩⟩⟩, ?_⟩
    simp only [marlinOutIdx_eq slot hslot]
  · intro w hw hkey
    obtain ⟨nTile', -, hw⟩ := List.mem_flatMap.1 hw
    obtain ⟨kTile', -, hw⟩ := List.mem_flatMap.1 hw
    obtain ⟨slot', hslot', rfl⟩ := List.mem_map.1 hw
    have hslot'' := List.mem_range.1 hslot'
    simp only [marlinOutIdx_eq slot' hslot'', Prod.mk.injEq] at hkey
    obtain ⟨rfl, hcol⟩ := hkey
    have hlt := outputIndex_lt hslot
    have hlt' := outputIndex_lt hslot''
    obtain rfl : nTile' = nTile := by omega
    obtain rfl := outputIndex_inj hslot'' hslot (by omega)
    rw [hgathered 0 (by omega), hgathered 1 (by omega), hgathered 2 (by omega),
      hgathered 3 (by omega), hgathered 4 (by omega), hgathered 5 (by omega),
      hgathered 6 (by omega), hgathered 7 (by omega)]
    simp [pack_succ]

end Tiles

/-! ## Batches of experts -/

/-- The experts of a binding, all of one geometry. -/
structure MoeExperts.Shapes (experts : MoeExperts) (hasZeros : Bool)
    (projectionN K numGroups groupSize : Nat) : Prop where
  width : projectionN % 64 = 0
  widthPos : 0 < projectionN
  depth : K % 16 = 0
  depthPos : 0 < K
  groups : numGroups * groupSize = K
  nonempty : experts.first ≠ []
  paired : ∀ second, experts.second = some second → second.length = experts.first.length
  projections : ∀ p, p ∈ experts.first ∨ (∃ second, experts.second = some second ∧ p ∈ second) →
    p.Shapes hasZeros projectionN K numGroups

/-- The projection and the column of it that hold an expert's output channel. -/
def MoeExperts.column (experts : MoeExperts) (projectionN e n : Nat) :
    Option (MoeProjection × Nat) :=
  if experts.second.isSome ∧ projectionN ≤ n then
    ((experts.second.getD [])[e]?).map fun p => (p, n - projectionN)
  else (experts.first[e]?).map fun p => (p, n)

/-- The output channels of an expert. -/
def MoeExperts.outputs (experts : MoeExperts) (projectionN : Nat) : Nat :=
  if experts.second.isSome then 2 * projectionN else projectionN

section Batches

variable {experts : MoeExperts} {hasZeros : Bool} {projectionN K numGroups groupSize e n k : Nat}

theorem mem_batches {count : Nat} {batch : Nat × Nat} (h : batch ∈ checkpointSourceBatches count) :
    0 < batch.2 ∧ batch.2 ≤ 8 ∧ batch.1 + batch.2 ≤ count := by
  obtain ⟨b, hb, rfl⟩ := List.mem_map.1 h
  have hb' := List.mem_range.1 hb
  simp only [kCheckpointSourcesPerLaunch] at hb' ⊢
  omega

theorem exists_batch {count : Nat} (h : e < count) :
    ∃ batch ∈ checkpointSourceBatches count, ∃ i < batch.2, e = batch.1 + i := by
  refine ⟨_, List.mem_map.2 ⟨e / 8, List.mem_range.2 ?_, rfl⟩, e % 8, ?_, ?_⟩ <;>
    simp only [kCheckpointSourcesPerLaunch] <;> omega

theorem batchOf_getElem? {w : Nat} {tensor : MoeProjection → Tensor (BitVec w)}
    {ps : List MoeProjection} {start count i : Nat} (hi : i < count) :
    (batchOf tensor ps start count)[i]? = (ps[start + i]?).map fun p => (tensor p).flat := by
  unfold batchOf
  rw [List.getElem?_map, List.getElem?_take_of_lt hi, List.getElem?_drop]

/-- Every output channel of every expert is a column of a projection. -/
theorem MoeExperts.Shapes.column_some
    (h : experts.Shapes hasZeros projectionN K numGroups groupSize)
    (he : e < experts.first.length) (hn : n < experts.outputs projectionN) :
    ∃ p c, experts.column projectionN e n = some (p, c) ∧ c < projectionN ∧
      p.Shapes hasZeros projectionN K numGroups := by
  unfold MoeExperts.outputs at hn
  unfold MoeExperts.column
  cases hsecond : experts.second with
  | none =>
    simp only [hsecond, Option.isSome_none, Bool.false_eq_true, if_false, false_and] at hn ⊢
    rw [List.getElem?_eq_getElem he]
    exact ⟨_, _, rfl, hn, h.projections _ (Or.inl (List.getElem_mem he))⟩
  | some second =>
    have hlength := h.paired second hsecond
    simp only [hsecond, Option.isSome_some, if_true, true_and, Option.getD_some] at hn ⊢
    split
    · rw [List.getElem?_eq_getElem (by rw [hlength]; exact he)]
      exact ⟨_, _, rfl, by omega, h.projections _ (Or.inr ⟨second, hsecond, List.getElem_mem _⟩)⟩
    · rw [List.getElem?_eq_getElem he]
      exact ⟨_, _, rfl, by omega, h.projections _ (Or.inl (List.getElem_mem he))⟩

/-- The column of an expert, and what a launch is given of its projection. -/
theorem MoeExperts.column_source {p : MoeProjection} {c start count i : Nat} (hi : i < count)
    (hcolumn : experts.column projectionN (start + i) n = some (p, c)) :
    (if experts.second.isSome ∧ projectionN ≤ n then n - projectionN else n) = c ∧
      ∀ {w : Nat} (tensor : MoeProjection → Tensor (BitVec w)),
        (if experts.second.isSome ∧ projectionN ≤ n then
            ((experts.second.map fun ps => batchOf tensor ps start count).getD [])[i]?
          else (batchOf tensor experts.first start count)[i]?) = some (tensor p).flat := by
  unfold MoeExperts.column at hcolumn
  split at hcolumn
  · rename_i hsecond
    obtain ⟨_, hfound, hpc⟩ := Option.map_eq_some_iff.1 hcolumn
    obtain ⟨rfl, rfl⟩ := Prod.mk.inj hpc
    obtain ⟨second, heq⟩ := Option.isSome_iff_exists.1 hsecond.1
    rw [heq, Option.getD_some] at hfound
    refine ⟨if_pos hsecond, fun tensor => ?_⟩
    rw [if_pos hsecond, heq, Option.map_some, Option.getD_some, batchOf_getElem? hi, hfound]
    rfl
  · rename_i hfirst
    obtain ⟨_, hfound, hpc⟩ := Option.map_eq_some_iff.1 hcolumn
    obtain ⟨rfl, rfl⟩ := Prod.mk.inj hpc
    refine ⟨if_neg hfirst, fun tensor => ?_⟩
    rw [if_neg hfirst, batchOf_getElem? hi, hfound]
    rfl

/-- The value the kernel reads is the code of the column. -/
theorem marlinValue_eq (zeroPointOffset : BitVec 32)
    (h : experts.Shapes hasZeros projectionN K numGroups groupSize)
    {start count i : Nat} (hi : i < count) (he : start + i < experts.first.length)
    (hn : n < experts.outputs projectionN) (hk : k < K) {loaderGroups loaderSize : Nat}
    (hloader : hasZeros = true → loaderGroups = numGroups ∧ loaderSize = groupSize) :
    ∃ p c, experts.column projectionN (start + i) n = some (p, c) ∧ c < projectionN ∧
      p.Shapes hasZeros projectionN K numGroups ∧
      marlinValue (qweightSources experts hasZeros start count) projectionN loaderGroups loaderSize
        zeroPointOffset i n k = p.code groupSize zeroPointOffset c k := by
  obtain ⟨p, c, hcolumn, hc, hp⟩ := h.column_some he hn
  refine ⟨p, c, hcolumn, hc, hp, ?_⟩
  have hrow : k / 8 < K / 8 := by
    have := h.depth
    omega
  have hgroup : k / groupSize < numGroups :=
    Nat.div_lt_of_lt_mul (by rw [Nat.mul_comm, h.groups]; exact hk)
  have hzeroColumn : c / 8 < projectionN / 8 := by
    have := h.width
    omega
  have hnumGroups : 0 < numGroups := Nat.zero_lt_of_lt hgroup
  -- the word and the zero point of the column, whichever batch they come from
  have hread : ∀ (zeros : Option (Nat → BitVec 32)),
      zeros = (if hasZeros then some p.qzeros.flat else none) → (match zeros with
      | none => nibble (p.qweight.flat (k / 8 * projectionN + c)) (k % 8)
      | some qzeros =>
        if 0 < loaderGroups then
          recentre zeroPointOffset (nibble (p.qweight.flat (k / 8 * projectionN + c)) (k % 8))
            (nibble (qzeros (k / loaderSize * (projectionN / 8) + c / 8)) (c % 8))
        else nibble (p.qweight.flat (k / 8 * projectionN + c)) (k % 8)) =
      p.code groupSize zeroPointOffset c k := by
    rintro _ rfl
    unfold MoeProjection.code
    rw [Tensor.flat_matrix hp.qweight hrow hc, hp.zeros]
    cases hz : hasZeros with
    | false => rfl
    | true =>
      obtain ⟨rfl, rfl⟩ := hloader hz
      simp only [if_true, hnumGroups, Tensor.flat_matrix (hp.qzeros hz) hgroup hzeroColumn]
  obtain ⟨hsourceColumn, hsource⟩ := MoeExperts.column_source hi hcolumn
  rw [← hread _ rfl]
  simp only [marlinValue, qweightSources, Option.isSome_map, hsourceColumn, hsource]
  cases hz : hasZeros with
  | false => simp
  | true => simp only [if_true, Option.getD_some, hsource]

/-! ## The weights of all experts -/

variable {zeroPointOffset : BitVec 32}

/-- The code of an expert at an output and an input channel. -/
def MoeExperts.code (experts : MoeExperts) (projectionN groupSize : Nat)
    (zeroPointOffset : BitVec 32) (e n k : Nat) : BitVec 32 :=
  match experts.column projectionN e n with
  | some (p, c) => p.code groupSize zeroPointOffset c k
  | none => 0

/-- The word of an expert at a slot of a tile. -/
def MoeExperts.word (experts : MoeExperts) (projectionN groupSize : Nat)
    (zeroPointOffset : BitVec 32) (e kTile nTile slot : Nat) : BitVec 32 :=
  pack 8 fun p => experts.code projectionN groupSize zeroPointOffset e
    (nTile * 64 + Marlin.columnIndex slot (Marlin.packIndex p))
    (kTile * 16 + Marlin.rowIndex slot (Marlin.packIndex p))

theorem MoeExperts.Shapes.outputs_eq
    (h : experts.Shapes hasZeros projectionN K numGroups groupSize) :
    experts.outputs projectionN = 64 * (experts.outputs projectionN / 64) := by
  have hwidth := h.width
  unfold MoeExperts.outputs
  split <;> omega

theorem MoeExperts.Shapes.numGroups_pos
    (h : experts.Shapes hasZeros projectionN K numGroups groupSize) : 0 < numGroups := by
  apply Nat.pos_of_ne_zero
  intro hzero
  have hgroups := h.groups
  rw [hzero, Nat.zero_mul] at hgroups
  exact h.depthPos.ne hgroups

theorem slot_address (e kTiles kTile nTiles nTile o : Nat) {E : Nat} :
    (e * kTiles + kTile) * (nTiles * 128) + (nTile * 128 + o) =
      offset [E, kTiles, nTiles, 128] [e, kTile, nTile, o] := by
  simp only [offset_cons, offset_nil, List.prod_cons, List.prod_nil]
  ring

theorem mem_marlinKernel {start count output loaderGroups loaderSize : Nat} {w : Nat × BitVec 32} :
    w ∈ gptqMarlinRepackSourceBatchKernel (qweightSources experts hasZeros start count) output
        count projectionN K loaderGroups loaderSize zeroPointOffset ↔
      ∃ i < count, ∃ kTile < K / 16, ∃ nTile < experts.outputs projectionN / 64,
        ∃ slot < 128, w = (output + ((i * (K / 16) + kTile) *
          (experts.outputs projectionN / 64 * 128) + (nTile * 128 + Marlin.outputIndex slot)),
          marlinWord (qweightSources experts hasZeros start count) projectionN loaderGroups
            loaderSize zeroPointOffset i kTile nTile slot) := by
  have houtputs : (if (qweightSources experts hasZeros start count).secondQweights.isSome then
      2 * projectionN else projectionN) = experts.outputs projectionN := by
    rw [MoeExperts.outputs, qweightSources, Option.isSome_map]
  simp only [gptqMarlinRepackSourceBatchKernel, houtputs, List.mem_flatMap, List.mem_map,
    List.mem_range, eq_comm (b := w)]

/-- The writes of the launch over a batch. -/
def qweightWrites (experts : MoeExperts) (hasZeros : Bool) (projectionN K loaderGroups
    loaderSize : Nat) (zeroPointOffset : BitVec 32) (batch : Nat × Nat) : List (Nat × BitVec 32) :=
  gptqMarlinRepackSourceBatchKernel (qweightSources experts hasZeros batch.1 batch.2)
    (batch.1 * (K / 16 * 2 * experts.outputs projectionN)) batch.2 projectionN K loaderGroups
    loaderSize zeroPointOffset

/-- A launch over a batch of well-shaped experts is accepted. -/
theorem launch_qweights (h : experts.Shapes hasZeros projectionN K numGroups groupSize)
    {loaderGroups loaderSize : Nat}
    (hloader : hasZeros = true → loaderGroups = numGroups ∧ loaderSize = groupSize)
    {batch : Nat × Nat} (hbatch : batch ∈ checkpointSourceBatches experts.first.length) :
    launchGptqMarlinRepackSourceBatch (qweightSources experts hasZeros batch.1 batch.2)
        (batch.1 * (K / 16 * 2 * experts.outputs projectionN)) batch.2 projectionN K loaderGroups
        loaderSize zeroPointOffset =
      some (qweightWrites experts hasZeros projectionN K loaderGroups loaderSize zeroPointOffset
        batch) := by
  obtain ⟨hpos, hle, -⟩ := mem_batches hbatch
  have hwidth := h.width
  have hwidthPos := h.widthPos
  have hdepth := h.depth
  have hdepthPos := h.depthPos
  unfold launchGptqMarlinRepackSourceBatch
  apply if_neg
  simp only [qweightSources, kCheckpointSourcesPerLaunch]
  rintro (hbad | hbad | hbad | hbad | hbad | hbad | ⟨hz, hbad⟩ | ⟨hpaired, hbad⟩)
  · omega
  · omega
  · omega
  · omega
  · omega
  · omega
  · have hz' : hasZeros = true := by
      by_contra hne
      simp [hne] at hz
    obtain ⟨rfl, rfl⟩ := hloader hz'
    have hgroups := h.groups
    have hnumGroups := h.numGroups_pos
    omega
  · cases hz : hasZeros with
    | false => simp [hz] at hbad
    | true =>
      cases hs : experts.second with
      | none => simp [hs] at hpaired
      | some second => simp [hz, hs] at hbad

/-- Every launch over the weights is accepted; with zero points the loader
finds the number and the size of the groups. -/
theorem assembleInt4MoeQweights_eq (h : experts.Shapes hasZeros projectionN K numGroups groupSize)
    (zeroPointOffset : BitVec 32) (bindingGroupSize : Nat) (destination : Nat → BitVec 32) :
    ∃ loaderGroups loaderSize,
      (hasZeros = true → loaderGroups = numGroups ∧ loaderSize = groupSize) ∧
      assembleInt4MoeQweights experts bindingGroupSize zeroPointOffset destination =
        some (writeAll ((checkpointSourceBatches experts.first.length).flatMap
          (qweightWrites experts hasZeros projectionN K loaderGroups loaderSize
            zeroPointOffset)) destination) := by
  obtain ⟨first, rest, hfirst⟩ := List.exists_cons_of_ne_nil h.nonempty
  have hp := h.projections first (Or.inl (by rw [hfirst]; exact List.mem_cons_self))
  have hhead : experts.first.head? = some first := by rw [hfirst]; rfl
  have hdimK : first.qweight.dim 0 * 8 = K := by
    have hdim : first.qweight.dim 0 = K / 8 := by rw [Tensor.dim, hp.qweight]; rfl
    have hdepth := h.depth
    omega
  have hdimN : first.qweight.dim 1 = projectionN := by rw [Tensor.dim, hp.qweight]; rfl
  have hloader : hasZeros = true → (if hasZeros then first.qzeros.dim 0 else 0) = numGroups ∧
      (if hasZeros then K / (if hasZeros then first.qzeros.dim 0 else 0) else bindingGroupSize) =
        groupSize := by
    intro hz
    have hdim : first.qzeros.dim 0 = numGroups := by rw [Tensor.dim, hp.qzeros hz]; rfl
    simp only [hz, if_true, hdim]
    refine ⟨trivial, ?_⟩
    rw [← h.groups, Nat.mul_div_cancel_left _ h.numGroups_pos]
  refine ⟨_, _, hloader, ?_⟩
  unfold assembleInt4MoeQweights
  rw [hhead]
  simp only [hdimK, hdimN, hp.zeros]
  exact foldlM_writeAll fun batch hbatch => launch_qweights h hloader hbatch

/-- The loader's output buffer: each slot of each tile of each expert holds the
word of the expert's codes. -/
theorem assembleQweights_get (h : experts.Shapes hasZeros projectionN K numGroups groupSize)
    (zeroPointOffset : BitVec 32) (bindingGroupSize : Nat) (destination : Nat → BitVec 32) :
    ∃ buffer, assembleInt4MoeQweights experts bindingGroupSize zeroPointOffset destination =
        some buffer ∧
      ∀ e < experts.first.length, ∀ kTile < K / 16, ∀ nTile < experts.outputs projectionN / 64,
        ∀ slot < 128, buffer ((e * (K / 16) + kTile) * (experts.outputs projectionN / 64 * 128) +
          (nTile * 128 + Marlin.outputIndex slot)) =
        experts.word projectionN groupSize zeroPointOffset e kTile nTile slot := by
  obtain ⟨loaderGroups, loaderSize, hloader, hassemble⟩ :=
    assembleInt4MoeQweights_eq h zeroPointOffset bindingGroupSize destination
  refine ⟨_, hassemble, fun e he kTile hkTile nTile hnTile slot hslot => ?_⟩
  have hdepth := h.depth
  have hNeq := h.outputs_eq
  set N := experts.outputs projectionN with hN
  have haddress : ∀ start i kTile nTile slot, start * (K / 16 * 2 * N) +
      ((i * (K / 16) + kTile) * (N / 64 * 128) + (nTile * 128 + Marlin.outputIndex slot)) =
      ((start + i) * (K / 16) + kTile) * (N / 64 * 128) +
        (nTile * 128 + Marlin.outputIndex slot) := by
    intro start i kTile nTile slot
    have hwords : K / 16 * 2 * N = K / 16 * (N / 64 * 128) := by
      conv_lhs => rw [hNeq]
      ring
    rw [hwords]
    ring
  have hin : ∀ e kTile nTile slot, e < experts.first.length → kTile < K / 16 → nTile < N / 64 →
      slot < 128 → InShape [experts.first.length, K / 16, N / 64, 128]
        [e, kTile, nTile, Marlin.outputIndex slot] := by
    intro e kTile nTile slot he hk hn hs
    have := outputIndex_lt hs
    simp only [inShape_cons, inShape_nil, and_true]
    exact ⟨he, hk, hn, this⟩
  apply writeAll_of_mem
  · obtain ⟨batch, hbatch, i, hi, rfl⟩ := exists_batch he
    refine ⟨_, List.mem_flatMap.2 ⟨batch, hbatch, mem_marlinKernel.2
      ⟨i, hi, kTile, hkTile, nTile, hnTile, slot, hslot, rfl⟩⟩, ?_⟩
    exact haddress batch.1 i kTile nTile slot
  · intro w hw hkey
    obtain ⟨batch, hbatch, hw⟩ := List.mem_flatMap.1 hw
    obtain ⟨i, hi, kTile', hkTile', nTile', hnTile', slot', hslot', rfl⟩ := mem_marlinKernel.1 hw
    have hbound := (mem_batches hbatch).2.2
    have hkey' := (haddress batch.1 i kTile' nTile' slot').symm.trans hkey
    rw [slot_address (E := experts.first.length), slot_address (E := experts.first.length)] at hkey'
    have hsame := offset_injective (hin _ _ _ _ (by omega) hkTile' hnTile' hslot')
      (hin _ _ _ _ he hkTile hnTile hslot) hkey'
    simp only [List.cons.injEq, and_true] at hsame
    obtain ⟨rfl, rfl, rfl, hslotEq⟩ := hsame
    obtain rfl := outputIndex_inj hslot' hslot hslotEq
    unfold marlinWord MoeExperts.word
    apply pack_congr
    intro p hp8
    have hcol := columnIndex_lt hslot (Marlin.packIndex p)
    have hrow := rowIndex_lt slot' (Marlin.packIndex p)
    obtain ⟨q, c, hcolumn, -, -, hvalue⟩ := marlinValue_eq zeroPointOffset h hi
      (by omega : batch.1 + i < experts.first.length)
      (by omega : nTile' * 64 + Marlin.columnIndex slot' (Marlin.packIndex p) <
        experts.outputs projectionN)
      (by omega : kTile' * 16 + Marlin.rowIndex slot' (Marlin.packIndex p) < K) hloader
    rw [MoeExperts.code, hcolumn]
    exact hvalue

theorem extractGptqForMarlin_shapes (groupSize : Nat) (zeroPointOffset : BitVec 32)
    {p : MoeProjection} (h : p.Shapes hasZeros projectionN K numGroups) (hK : K % 8 = 0) :
    (extractGptqForMarlin p groupSize zeroPointOffset).1.shape = [projectionN, K] ∧
      (extractGptqForMarlin p groupSize zeroPointOffset).2.shape = [projectionN, numGroups] := by
  have hdimK : p.qweight.dim 0 * 8 = K := by
    have hdim : p.qweight.dim 0 = K / 8 := by rw [Tensor.dim, h.qweight]; rfl
    omega
  have hdimN : p.qweight.dim 1 = projectionN := by rw [Tensor.dim, h.qweight]; rfl
  have hremapped : ∀ t : Tensor (BitVec 16), t.shape = [p.qweight.dim 0 * 8, p.qweight.dim 1] →
      (t.permute [1, 0]).shape = [projectionN, K] := by
    intro t ht
    change [t.shape.getD 1 1, t.shape.getD 0 1] = _
    rw [ht, ← hdimK, ← hdimN]
    rfl
  constructor
  · unfold extractGptqForMarlin
    apply hremapped
    split <;> rfl
  · change [p.scales.shape.getD 1 1, p.scales.shape.getD 0 1] = _
    rw [h.scales]
    rfl

theorem cat_get {R C R' : Nat} {t u : Tensor (BitVec 16)} (ht : t.shape = [R, C])
    (hu : u.shape = [R', C]) : (cat t u).shape = [R + R', C] ∧ ∀ i j, (cat t u).get [i, j] =
      if i < R then t.get [i, j] else u.get [i - R, j] := by
  have hdim : t.dim 0 = R := by rw [Tensor.dim, ht]; rfl
  have hdim' : u.dim 0 = R' := by rw [Tensor.dim, hu]; rfl
  constructor
  · change (t.dim 0 + u.dim 0) :: t.shape.tail = _
    rw [hdim, hdim', ht]
    rfl
  · intro i j
    change (if i < t.dim 0 then t.get [i, j] else u.get [i - t.dim 0, j]) = _
    rw [hdim]

/-- The exporter's tensors of an expert hold its codes and scales. -/
theorem expertTensors_get (h : experts.Shapes hasZeros projectionN K numGroups groupSize)
    (zeroPointOffset : BitVec 32) (he : e < experts.first.length) :
    ∃ weights scales, (expertTensors experts groupSize zeroPointOffset)[e]? =
        some (weights, scales) ∧ weights.shape = [experts.outputs projectionN, K] ∧
      scales.shape = [experts.outputs projectionN, numGroups] ∧
      ∀ n < experts.outputs projectionN, ∃ p c, experts.column projectionN e n = some (p, c) ∧
        (∀ k < K, weights.get [n, k] = (p.code groupSize zeroPointOffset c k).setWidth 16) ∧
        ∀ g, scales.get [n, g] = p.scales.get [g, c] := by
  have hN8 : projectionN % 8 = 0 := by
    have := h.width
    omega
  have hK8 : K % 8 = 0 := by
    have := h.depth
    omega
  unfold expertTensors MoeExperts.outputs MoeExperts.column
  cases hsecond : experts.second with
  | none =>
    have hp := h.projections _ (Or.inl (List.getElem_mem he))
    obtain ⟨hweights, hscales⟩ := extractGptqForMarlin_shapes groupSize zeroPointOffset hp hK8
    refine ⟨_, _, by rw [List.getElem?_map, List.getElem?_eq_getElem he]; rfl, hweights, hscales,
      fun n hn => ⟨_, n, by simp [List.getElem?_eq_getElem he], fun k hk => ?_, fun g => rfl⟩⟩
    exact extractGptqForMarlin_get hp hN8 hK8 h.groups hn hk
  | some second =>
    have hlength := h.paired second hsecond
    have he' : e < second.length := by
      rw [hlength]
      exact he
    have hp := h.projections _ (Or.inl (List.getElem_mem he))
    have hq := h.projections _ (Or.inr ⟨second, hsecond, List.getElem_mem he'⟩)
    obtain ⟨hweights, hscales⟩ := extractGptqForMarlin_shapes groupSize zeroPointOffset hp hK8
    obtain ⟨hweights', hscales'⟩ := extractGptqForMarlin_shapes groupSize zeroPointOffset hq hK8
    obtain ⟨hcat, hcatGet⟩ := cat_get hweights hweights'
    obtain ⟨hscale, hscaleGet⟩ := cat_get hscales hscales'
    have hzip : (experts.first.zip second)[e]? = some (experts.first[e], second[e]) := by
      rw [List.getElem?_eq_getElem (by rw [List.length_zip]; omega), List.getElem_zip]
    simp only [Option.isSome_some, if_true, true_and, Option.getD_some]
    refine ⟨_, _, by rw [List.getElem?_map, hzip]; rfl, by rw [hcat, Nat.two_mul],
      by rw [hscale, Nat.two_mul], fun n hn => ?_⟩
    by_cases hsmall : n < projectionN
    · refine ⟨experts.first[e], n, ?_, fun k hk => ?_, fun g => ?_⟩
      · rw [if_neg (by omega), List.getElem?_eq_getElem he]
        rfl
      · rw [hcatGet, if_pos hsmall]
        exact extractGptqForMarlin_get hp hN8 hK8 h.groups hsmall hk
      · rw [hscaleGet, if_pos hsmall]
        rfl
    · refine ⟨second[e], n - projectionN, ?_, fun k hk => ?_, fun g => ?_⟩
      · rw [if_pos (by omega), List.getElem?_eq_getElem he']
        rfl
      · rw [hcatGet, if_neg hsmall]
        exact extractGptqForMarlin_get hq hN8 hK8 h.groups (by omega) hk
      · rw [hscaleGet, if_neg hsmall]
        rfl

/-- The buffers the exporter stores for the experts. -/
def MoeExperts.packed (experts : MoeExperts) (groupSize : Nat) (zeroPointOffset : BitVec 32) :
    List (Tensor (BitVec 32) × Tensor (BitVec 16)) :=
  packInt4AwqMarlin (expertTensors experts groupSize zeroPointOffset) groupSize

/-- The weight words of the loader are the exporter's. -/
theorem assembleQweights_agrees (h : experts.Shapes hasZeros projectionN K numGroups groupSize)
    (zeroPointOffset : BitVec 32) (bindingGroupSize : Nat) (destination : Nat → BitVec 32) :
    ∃ buffer, assembleInt4MoeQweights experts bindingGroupSize zeroPointOffset destination =
        some buffer ∧
      ∀ e < experts.first.length, ∃ t, (experts.packed groupSize zeroPointOffset)[e]? = some t ∧
        ∀ i < K / 16 * (2 * experts.outputs projectionN),
          buffer (e * (K / 16 * (2 * experts.outputs projectionN)) + i) = t.1.flat i := by
  obtain ⟨buffer, hbuffer, hget⟩ := assembleQweights_get h zeroPointOffset
    bindingGroupSize destination
  refine ⟨buffer, hbuffer, fun e he => ?_⟩
  obtain ⟨weights, scales, htensors, hweights, -, hcodes⟩ :=
    expertTensors_get h zeroPointOffset he
  refine ⟨_, by rw [MoeExperts.packed, packInt4AwqMarlin, List.getElem?_map, htensors]; rfl,
    fun i hi => ?_⟩
  have hN : experts.outputs projectionN % 64 = 0 := by
    have := h.outputs_eq
    omega
  set N := experts.outputs projectionN with hNdef
  have hrowWords : 2 * N = N / 64 * 128 := by omega
  have hshape : (packMarlinWeights weights).shape = [K / 16, N / 64 * 128] := by
    have hdimN : weights.dim 0 = N := by rw [Tensor.dim, hweights]; rfl
    have hdimK : weights.dim 1 = K := by rw [Tensor.dim, hweights]; rfl
    unfold packMarlinWeights
    simp only [hdimN, hdimK]
  rw [hrowWords] at hi ⊢
  have hpos : 0 < N / 64 * 128 := Nat.pos_of_mul_pos_left (Nat.zero_lt_of_lt hi)
  have hkTile : i / (N / 64 * 128) < K / 16 :=
    Nat.div_lt_of_lt_mul (by rwa [Nat.mul_comm] at hi)
  set kTile := i / (N / 64 * 128) with hkTileDef
  have hcol : i % (N / 64 * 128) < N / 64 * 128 := Nat.mod_lt i hpos
  have hsplit : kTile * (N / 64 * 128) + i % (N / 64 * 128) = i := by
    rw [Nat.mul_comm]
    exact Nat.div_add_mod i _
  generalize i % (N / 64 * 128) = col at hcol hsplit
  obtain ⟨slot, hslot, hout⟩ := outputIndex_surj (Nat.mod_lt col (by omega : 128 > 0))
  have hnTile : col / 128 < N / 64 := by omega
  have hcolEq : col = col / 128 * 128 + Marlin.outputIndex slot := by omega
  have haddress : e * (K / 16 * (N / 64 * 128)) + i =
      (e * (K / 16) + kTile) * (N / 64 * 128) + (col / 128 * 128 + Marlin.outputIndex slot) := by
    rw [← hcolEq, ← hsplit]
    ring
  rw [haddress, hget e he kTile hkTile (col / 128) hnTile slot hslot, ← hsplit,
    Tensor.flat_matrix hshape hkTile hcol]
  nth_rewrite 2 [hcolEq]
  rw [packMarlinWeights_get hweights hN h.depth hkTile hnTile hslot, MoeExperts.word]
  apply pack_congr
  intro p hp
  have hcolumn := columnIndex_lt hslot (Marlin.packIndex p)
  have hrow := rowIndex_lt slot (Marlin.packIndex p)
  have hn : col / 128 * 64 + Marlin.columnIndex slot (Marlin.packIndex p) < N := by omega
  have hk : kTile * 16 + Marlin.rowIndex slot (Marlin.packIndex p) < K := by omega
  obtain ⟨q, c, hfound, hcode, -⟩ := hcodes _ hn
  rw [hcode _ hk, signExtend_setWidth MoeProjection.code_lt, MoeExperts.code, hfound]

/-! ## The scales of all experts -/

/-- The scale of an expert's output channel in a group. -/
def MoeExperts.scale (experts : MoeExperts) (projectionN e g n : Nat) : BitVec 16 :=
  match experts.column projectionN e n with
  | some (p, c) => p.scales.get [g, c]
  | none => 0

theorem cScalePermutation_eq : ∀ x < 64, cScalePermutation.getD x 0 = 8 * (x % 8) + x / 8 := by
  decide

/-- The column of a row at which the kernel writes the scale of column `n`. -/
def scaleColumn (n : Nat) : Nat := n / 64 * 64 + cScalePermutation.getD (n % 64) 0

theorem scaleColumn_eq (n : Nat) : scaleColumn n = n / 64 * 64 + (8 * (n % 8) + n % 64 / 8) := by
  rw [scaleColumn, cScalePermutation_eq _ (Nat.mod_lt n (by omega))]
  omega

theorem scaleColumn_lt {N n : Nat} (hN : N % 64 = 0) (hn : n < N) : scaleColumn n < N := by
  rw [scaleColumn_eq]
  omega

theorem scaleColumn_scaleColumn (n : Nat) : scaleColumn (scaleColumn n) = n := by
  have hstep : ∀ q a b, a < 8 → b < 8 → scaleColumn (64 * q + 8 * a + b) = 64 * q + 8 * b + a := by
    intro q a b ha hb
    rw [scaleColumn_eq]
    omega
  have hn : n = 64 * (n / 64) + 8 * (n % 64 / 8) + n % 8 := by omega
  rw [hn, hstep _ _ _ (by omega) (by omega), hstep _ _ _ (by omega) (by omega)]

/-- The scale the kernel reads is the scale of the column. -/
theorem scaleSource_eq (h : experts.Shapes hasZeros projectionN K numGroups groupSize)
    {start count i g n : Nat} (hi : i < count) (he : start + i < experts.first.length)
    (hg : g < numGroups) (hn : n < experts.outputs projectionN) :
    let useSecond := (experts.second.map fun ps =>
      batchOf MoeProjection.scales ps start count).isSome ∧ projectionN ≤ n
    ((if useSecond then ((experts.second.map fun ps =>
        batchOf MoeProjection.scales ps start count).getD [])[i]?
      else (batchOf MoeProjection.scales experts.first start count)[i]?).getD fun _ => 0)
      (g * projectionN + if useSecond then n - projectionN else n) =
    experts.scale projectionN (start + i) g n := by
  obtain ⟨p, c, hcolumn, hc, hp⟩ := h.column_some he hn
  rw [MoeExperts.scale, hcolumn]
  change _ = p.scales.get [g, c]
  rw [← Tensor.flat_matrix hp.scales hg hc]
  obtain ⟨hsourceColumn, hsource⟩ := MoeExperts.column_source hi hcolumn
  simp only [Option.isSome_map, hsourceColumn, hsource, Option.getD_some]

/-- The threads of a launch cover the scales of its experts. -/
theorem mem_scaleKernel (h : experts.Shapes hasZeros projectionN K numGroups groupSize)
    {start count output : Nat} (hend : start + count ≤ experts.first.length) {w : Nat × BitVec 16} :
    w ∈ int4MoeScaleRepackSourceBatchKernel (batchOf MoeProjection.scales experts.first start count)
        (experts.second.map fun ps => batchOf MoeProjection.scales ps start count)
        output count numGroups projectionN ↔
      ∃ i < count, ∃ g < numGroups, ∃ n < experts.outputs projectionN,
        w = (output + ((i * numGroups + g) * experts.outputs projectionN + scaleColumn n),
          experts.scale projectionN (start + i) g n) := by
  have houtputs : (if (experts.second.map fun ps =>
      batchOf MoeProjection.scales ps start count).isSome then 2 * projectionN else projectionN) =
      experts.outputs projectionN := by
    rw [MoeExperts.outputs, Option.isSome_map]
  unfold int4MoeScaleRepackSourceBatchKernel
  simp only [houtputs, List.mem_filterMap, List.mem_range]
  set N := experts.outputs projectionN
  constructor
  · rintro ⟨index, -, hw⟩
    split at hw
    · cases hw
    · rename_i hindex
      have hlt : index < N * (count * numGroups) := by
        rw [Nat.mul_comm]
        omega
      have hN : 0 < N := Nat.pos_of_mul_pos_right (Nat.zero_lt_of_lt hlt)
      have hrow : index / N < numGroups * count := by
        rw [Nat.mul_comm numGroups]
        exact Nat.div_lt_of_lt_mul hlt
      have hG : 0 < numGroups := Nat.pos_of_mul_pos_right (Nat.zero_lt_of_lt hrow)
      have hi : index / N / numGroups < count := Nat.div_lt_of_lt_mul hrow
      have hg := Nat.mod_lt (index / N) hG
      have hn := Nat.mod_lt index hN
      refine ⟨_, hi, _, hg, _, hn, ?_⟩
      rw [← scaleSource_eq h hi (by omega) hg hn, ← Option.some.inj hw, Nat.div_add_mod']
      rfl
  · rintro ⟨i, hi, g, hg, n, hn, rfl⟩
    have hrow : i * numGroups + g < count * numGroups := by
      have := Nat.mul_le_mul_right numGroups hi
      rw [Nat.succ_mul] at this
      omega
    have hindex : (i * numGroups + g) * N + n < count * numGroups * N := by
      have := Nat.mul_le_mul_right N hrow
      rw [Nat.succ_mul] at this
      omega
    refine ⟨(i * numGroups + g) * N + n, by omega, ?_⟩
    rw [if_neg (by omega)]
    have hdiv : ((i * numGroups + g) * N + n) / N = i * numGroups + g := by
      rw [Nat.mul_comm, Nat.mul_add_div (by omega), Nat.div_eq_of_lt hn, Nat.add_zero]
    have hmod : ((i * numGroups + g) * N + n) % N = n := by
      rw [Nat.mul_comm, Nat.mul_add_mod, Nat.mod_eq_of_lt hn]
    have hdiv' : (i * numGroups + g) / numGroups = i := by
      rw [Nat.mul_comm, Nat.mul_add_div (by omega), Nat.div_eq_of_lt hg, Nat.add_zero]
    have hmod' : (i * numGroups + g) % numGroups = g := by
      rw [Nat.mul_comm, Nat.mul_add_mod, Nat.mod_eq_of_lt hg]
    rw [hdiv, hmod, hdiv', hmod', ← scaleSource_eq h hi (by omega) hg hn]
    rfl

/-- The writes of the launch over a batch. -/
def scaleWrites (experts : MoeExperts) (numGroups projectionN : Nat) (batch : Nat × Nat) :
    List (Nat × BitVec 16) :=
  int4MoeScaleRepackSourceBatchKernel (batchOf MoeProjection.scales experts.first batch.1 batch.2)
    (experts.second.map fun ps => batchOf MoeProjection.scales ps batch.1 batch.2)
    (batch.1 * (numGroups * experts.outputs projectionN)) batch.2 numGroups projectionN

theorem assembleInt4MoeScales_eq (h : experts.Shapes hasZeros projectionN K numGroups groupSize)
    (destination : Nat → BitVec 16) : assembleInt4MoeScales experts destination =
      some (writeAll ((checkpointSourceBatches experts.first.length).flatMap
        (scaleWrites experts numGroups projectionN)) destination) := by
  obtain ⟨first, rest, hfirst⟩ := List.exists_cons_of_ne_nil h.nonempty
  have hp := h.projections first (Or.inl (by rw [hfirst]; exact List.mem_cons_self))
  have hhead : experts.first.head? = some first := by rw [hfirst]; rfl
  have hdimG : first.scales.dim 0 = numGroups := by rw [Tensor.dim, hp.scales]; rfl
  have hdimN : first.scales.dim 1 = projectionN := by rw [Tensor.dim, hp.scales]; rfl
  have hnumGroups := h.numGroups_pos
  have hwidthPos := h.widthPos
  have houtputs := h.outputs_eq
  unfold assembleInt4MoeScales
  rw [hhead]
  simp only [hdimG, hdimN]
  apply foldlM_writeAll
  intro batch hbatch
  obtain ⟨hpos, hle, -⟩ := mem_batches hbatch
  unfold launchInt4MoeScaleRepackSourceBatch
  simp only [Option.isSome_map]
  change (if batch.2 = 0 ∨ 8 < batch.2 ∨ numGroups = 0 ∨ projectionN = 0 ∨
    experts.outputs projectionN % 64 ≠ 0 then none else _) = _
  rw [if_neg (by omega)]
  rfl

/-- The loader's scales: each row of each expert, permuted within 64 columns. -/
theorem assembleScales_get (h : experts.Shapes hasZeros projectionN K numGroups groupSize)
    (destination : Nat → BitVec 16) :
    ∃ buffer, assembleInt4MoeScales experts destination = some buffer ∧
      ∀ e < experts.first.length, ∀ g < numGroups, ∀ j < experts.outputs projectionN,
        buffer ((e * numGroups + g) * experts.outputs projectionN + j) =
          experts.scale projectionN e g (scaleColumn j) := by
  refine ⟨_, assembleInt4MoeScales_eq h destination, fun e he g hg j hj => ?_⟩
  have hN : experts.outputs projectionN % 64 = 0 := by
    have := h.outputs_eq
    omega
  set N := experts.outputs projectionN with hNdef
  have haddress : ∀ start i g col, start * (numGroups * N) + ((i * numGroups + g) * N + col) =
      offset [experts.first.length, numGroups, N] [start + i, g, col] := by
    intro start i g col
    simp only [offset_cons, offset_nil, List.prod_cons, List.prod_nil]
    ring
  apply writeAll_of_mem
  · obtain ⟨batch, hbatch, i, hi, rfl⟩ := exists_batch he
    refine ⟨_, List.mem_flatMap.2 ⟨batch, hbatch, (mem_scaleKernel h (mem_batches hbatch).2.2).2
      ⟨i, hi, g, hg, scaleColumn j, scaleColumn_lt hN hj, rfl⟩⟩, ?_⟩
    rw [scaleColumn_scaleColumn]
    ring
  · intro w hw hkey
    obtain ⟨batch, hbatch, hw⟩ := List.mem_flatMap.1 hw
    have hbound := (mem_batches hbatch).2.2
    obtain ⟨i, hi, g', hg', n, hn, rfl⟩ := (mem_scaleKernel h hbound).1 hw
    have htarget := haddress 0 e g j
    rw [Nat.zero_mul, Nat.zero_add, Nat.zero_add] at htarget
    have hkey' := (haddress batch.1 i g' (scaleColumn n)).symm.trans (hkey.trans htarget)
    have hsame := offset_injective
      (by simpa using ⟨by omega, hg', scaleColumn_lt hN hn⟩)
      (by simpa using ⟨he, hg, hj⟩) hkey'
    simp only [List.cons.injEq, and_true] at hsame
    obtain ⟨rfl, rfl, rfl⟩ := hsame
    rw [scaleColumn_scaleColumn]

/-- The column whose scale the exporter puts at column `j` of a row. -/
def packedColumn (K groupSize j : Nat) : Nat :=
  if groupSize < K then scaleColumn j else j / 32 * 32 + scalePermSingle.getD (j % 32) 0

theorem scalePerm_eq : ∀ x < 64, scalePerm.getD x 0 = cScalePermutation.getD x 0 := by
  decide

theorem scalePermSingle_lt : ∀ x < 32, scalePermSingle.getD x 0 < 32 := by
  decide

theorem packedColumn_lt (K groupSize : Nat) {N j : Nat} (hN : N % 64 = 0) (hj : j < N) :
    packedColumn K groupSize j < N := by
  unfold packedColumn
  split
  · exact scaleColumn_lt hN hj
  · have := scalePermSingle_lt (j % 32) (Nat.mod_lt j (by omega))
    omega

/-- Selecting within blocks of `perm.length` columns of a row. -/
theorem permuted_flat (perm : List Nat) {s : Tensor (BitVec 16)} {G N g j : Nat}
    (hs : s.shape = [G, N]) (hperm : 0 < perm.length) (hN : N % perm.length = 0) (hg : g < G)
    (hj : j < N) (hlt : j / perm.length * perm.length + perm.getD (j % perm.length) 0 < N) :
    ((selectColumns (s.reshape [s.numel / perm.length, perm.length]) perm).reshape
      [s.numel / N, N]).flat (g * N + j) =
    s.get [g, j / perm.length * perm.length + perm.getD (j % perm.length) 0] := by
  have hnumel : s.numel = G * N := by
    rw [Tensor.numel, hs, List.prod_cons, List.prod_cons, List.prod_nil, Nat.mul_one]
  have hin : g * N + j < G * N := by
    have := Nat.mul_le_mul_right N hg
    rw [Nat.succ_mul] at this
    omega
  obtain ⟨blocks, rfl⟩ := Nat.dvd_of_mod_eq_zero hN
  set m := perm.length
  have hrow : g * (m * blocks) + j = m * (g * blocks) + j := by ring
  have hdiv : (g * (m * blocks) + j) / m = g * blocks + j / m := by
    rw [hrow, Nat.mul_add_div hperm]
  have hmod : (g * (m * blocks) + j) % m = j % m := by
    rw [hrow, Nat.mul_add_mod]
  rw [Tensor.flat_reshape]
  · change s.flat (offset [s.numel / m, m]
      [(g * (m * blocks) + j) / [m].prod, perm.getD ((g * (m * blocks) + j) % [m].prod / 1) 0]) = _
    simp only [List.prod_cons, List.prod_nil, Nat.mul_one, Nat.div_one, offset_cons, offset_nil,
      Nat.add_zero, hdiv, hmod]
    rw [← Tensor.flat_matrix hs hg hlt]
    apply congrArg
    ring
  · simp only [List.prod_cons, List.prod_nil, Nat.mul_one]
    rw [hnumel, Nat.mul_div_cancel _ (by omega)]
    exact hin

theorem marlinPermuteScales_flat {s : Tensor (BitVec 16)} {G N g j : Nat} (hs : s.shape = [G, N])
    (hN : N % 64 = 0) (hg : g < G) (hj : j < N) :
    (marlinPermuteScales s K N groupSize).flat (g * N + j) =
      s.get [g, packedColumn K groupSize j] := by
  have hcolumn := packedColumn_lt K groupSize hN hj
  unfold marlinPermuteScales
  unfold packedColumn at hcolumn ⊢
  by_cases hsize : groupSize < K
  · simp only [if_pos hsize] at hcolumn ⊢
    have hperm : scaleColumn j = j / scalePerm.length * scalePerm.length +
        scalePerm.getD (j % scalePerm.length) 0 := by
      rw [show scalePerm.length = 64 from rfl, scalePerm_eq _ (Nat.mod_lt j (by omega))]
      rfl
    rw [hperm] at hcolumn ⊢
    exact permuted_flat scalePerm hs (by decide) (by rwa [show scalePerm.length = 64 from rfl])
      hg hj hcolumn
  · simp only [if_neg hsize] at hcolumn ⊢
    exact permuted_flat scalePermSingle hs (by decide)
      (by rw [show scalePermSingle.length = 32 from rfl]; omega) hg hj hcolumn

theorem packedScales_get (h : experts.Shapes hasZeros projectionN K numGroups groupSize)
    (zeroPointOffset : BitVec 32) {e : Nat} (he : e < experts.first.length) :
    ∃ t, (experts.packed groupSize zeroPointOffset)[e]? = some t ∧
      ∀ g < numGroups, ∀ j < experts.outputs projectionN,
        t.2.flat (g * experts.outputs projectionN + j) =
          experts.scale projectionN e g (packedColumn K groupSize j) := by
  obtain ⟨weights, scales, htensors, hweights, hscales, hcodes⟩ :=
    expertTensors_get h zeroPointOffset he
  refine ⟨_, by rw [MoeExperts.packed, packInt4AwqMarlin, List.getElem?_map, htensors]; rfl,
    fun g hg j hj => ?_⟩
  have hN : experts.outputs projectionN % 64 = 0 := by
    have := h.outputs_eq
    omega
  have hdimN : weights.dim 0 = experts.outputs projectionN := by rw [Tensor.dim, hweights]; rfl
  have hdimK : weights.dim 1 = K := by rw [Tensor.dim, hweights]; rfl
  have htransposed : (scales.permute [1, 0]).shape = [numGroups, experts.outputs projectionN] := by
    change [scales.shape.getD 1 1, scales.shape.getD 0 1] = _
    rw [hscales]
    rfl
  obtain ⟨p, c, hfound, -, hscale⟩ :=
    hcodes _ (packedColumn_lt K groupSize hN hj)
  simp only [hdimN, hdimK]
  rw [marlinPermuteScales_flat htransposed hN hg hj, MoeExperts.scale, hfound]
  exact hscale g

/-! ## Loading and exporting -/

/-- Where the exporter, with one group, has the scale of column `x`, the loader
has that of column `rotateColumn x`: a cycle of the six bits of `x`. -/
def rotateColumn (x : Nat) : Nat :=
  x % 2 * 8 + x / 2 % 2 + x / 4 % 2 * 2 + x / 8 % 2 * 16 + x / 16 % 2 * 32 + x / 32 % 2 * 4

/-- Within each block of 64 columns the scales of the first group do not change
along the cycles of `rotateColumn`. -/
def MoeExperts.ScalesFixed (experts : MoeExperts) (projectionN : Nat) : Prop :=
  ∀ e < experts.first.length, ∀ b < experts.outputs projectionN / 64, ∀ x < 64,
    experts.scale projectionN e 0 (64 * b + x) =
      experts.scale projectionN e 0 (64 * b + rotateColumn x)

/-- What the loader writes is, position by position, what the exporter stores. -/
def MoeExperts.LoadsAsPacked (experts : MoeExperts) (projectionN K numGroups groupSize : Nat)
    (zeroPointOffset : BitVec 32) (bindingGroupSize : Nat) (words : Nat → BitVec 32)
    (scales : Nat → BitVec 16) : Prop :=
  ∃ words' scales', assembleInt4MoeQweights experts bindingGroupSize zeroPointOffset words =
      some words' ∧
    assembleInt4MoeScales experts scales = some scales' ∧
    ∀ e < experts.first.length, ∃ t, (experts.packed groupSize zeroPointOffset)[e]? = some t ∧
      (∀ i < K / 16 * (2 * experts.outputs projectionN),
        words' (e * (K / 16 * (2 * experts.outputs projectionN)) + i) = t.1.flat i) ∧
      ∀ i < numGroups * experts.outputs projectionN,
        scales' (e * (numGroups * experts.outputs projectionN) + i) = t.2.flat i

theorem rotateColumn_single : ∀ y < 64,
    8 * (y % 8) + y / 8 = rotateColumn (y / 32 * 32 + scalePermSingle.getD (y % 32) 0) := by
  decide

theorem scalePermSingle_surj : ∀ x < 64, ∃ y < 64,
    y / 32 * 32 + scalePermSingle.getD (y % 32) 0 = x := by
  decide +kernel

/-- The loader and the exporter permute the scales of an expert alike. -/
theorem scales_agree_iff (h : experts.Shapes hasZeros projectionN K numGroups groupSize) :
    (∀ e < experts.first.length, ∀ g < numGroups, ∀ j < experts.outputs projectionN,
      experts.scale projectionN e g (scaleColumn j) =
        experts.scale projectionN e g (packedColumn K groupSize j)) ↔
    groupSize < K ∨ experts.ScalesFixed projectionN := by
  by_cases hsize : groupSize < K
  · simp only [packedColumn, hsize, if_true, true_or, implies_true]
  have hgroups := h.groups
  have hone : numGroups = 1 := by
    have hpos := h.numGroups_pos
    have hK := h.depthPos
    apply Nat.le_antisymm _ hpos
    by_contra htwo
    have := Nat.mul_le_mul_right groupSize (by omega : 2 ≤ numGroups)
    omega
  have hblocks := h.outputs_eq
  simp only [hsize, false_or, packedColumn, if_false]
  set N := experts.outputs projectionN with hN
  constructor
  · intro hagree e he b hb x hx
    obtain ⟨y, hy, rfl⟩ := scalePermSingle_surj x hx
    have hcolumn := hagree e he 0 (by omega) (64 * b + y) (by omega)
    rw [scaleColumn_eq, show (64 * b + y) / 64 = b by omega, show (64 * b + y) % 8 = y % 8 by omega,
      show (64 * b + y) % 64 = y by omega, show (64 * b + y) / 32 = 2 * b + y / 32 by omega,
      show (64 * b + y) % 32 = y % 32 by omega, rotateColumn_single y hy] at hcolumn
    rw [Nat.mul_comm 64, hcolumn]
    apply congrArg
    ring
  · intro hfixed e he g hg j hj
    obtain rfl : g = 0 := by omega
    have hrotate := rotateColumn_single (j % 64) (Nat.mod_lt j (by omega))
    have hlt := scalePermSingle_lt (j % 32) (Nat.mod_lt j (by omega))
    have hcolumn := hfixed e he (j / 64) (by omega)
      (j % 64 / 32 * 32 + scalePermSingle.getD (j % 64 % 32) 0) (by
        rw [show j % 64 % 32 = j % 32 by omega]
        omega)
    rw [← hrotate, show j % 64 % 8 = j % 8 by omega, show j % 64 % 32 = j % 32 by omega] at hcolumn
    rw [scaleColumn_eq, Nat.mul_comm (j / 64), ← hcolumn]
    apply congrArg
    omega

/-- The weights always agree; the buffers do when the scales do. -/
theorem loadsAsPacked_iff (h : experts.Shapes hasZeros projectionN K numGroups groupSize)
    (zeroPointOffset : BitVec 32) (bindingGroupSize : Nat) (words : Nat → BitVec 32)
    (scales : Nat → BitVec 16) :
    experts.LoadsAsPacked projectionN K numGroups groupSize zeroPointOffset bindingGroupSize words
      scales ↔ ∀ e < experts.first.length, ∀ g < numGroups, ∀ j < experts.outputs projectionN,
      experts.scale projectionN e g (scaleColumn j) =
        experts.scale projectionN e g (packedColumn K groupSize j) := by
  obtain ⟨words', hwords, hwordsAgree⟩ := assembleQweights_agrees h zeroPointOffset
    bindingGroupSize words
  obtain ⟨scales', hscales, hget⟩ := assembleScales_get h scales
  have haddress : ∀ e g j, e * (numGroups * experts.outputs projectionN) +
      (g * experts.outputs projectionN + j) =
      (e * numGroups + g) * experts.outputs projectionN + j := by
    intro e g j
    ring
  constructor
  · rintro ⟨_, _, -, hscales', hload⟩ e he g hg j hj
    obtain rfl := Option.some.inj (hscales'.symm.trans hscales)
    obtain ⟨t, ht, -, hflat⟩ := hload e he
    obtain ⟨t', ht', hpacked⟩ := packedScales_get h zeroPointOffset he
    obtain rfl := Option.some.inj (ht'.symm.trans ht)
    have hin : g * experts.outputs projectionN + j < numGroups * experts.outputs projectionN := by
      have := Nat.mul_le_mul_right (experts.outputs projectionN) hg
      rw [Nat.succ_mul] at this
      omega
    rw [← hget e he g hg j hj, ← hpacked g hg j hj, ← haddress]
    exact hflat _ hin
  · intro hagree
    refine ⟨words', scales', hwords, hscales, fun e he => ?_⟩
    obtain ⟨t, ht, hflat⟩ := hwordsAgree e he
    obtain ⟨t', ht', hpacked⟩ := packedScales_get h zeroPointOffset he
    obtain rfl := Option.some.inj (ht'.symm.trans ht)
    refine ⟨t', ht, hflat, fun i hi => ?_⟩
    set N := experts.outputs projectionN with hN
    have hpos : 0 < N := Nat.pos_of_mul_pos_left (Nat.zero_lt_of_lt hi)
    have hg : i / N < numGroups := Nat.div_lt_of_lt_mul (by rwa [Nat.mul_comm] at hi)
    have hj : i % N < N := Nat.mod_lt i hpos
    have hsplit := Nat.div_add_mod' i N
    rw [← hsplit, haddress, hget e he _ hg _ hj, hpacked _ hg _ hj]
    exact hagree e he _ hg _ hj

/-- The experts load as they are exported exactly when there are several groups
or the two permutations of the scales do not show. -/
theorem load_eq_pack_iff (h : experts.Shapes hasZeros projectionN K numGroups groupSize)
    (zeroPointOffset : BitVec 32) (bindingGroupSize : Nat) (words : Nat → BitVec 32)
    (scales : Nat → BitVec 16) :
    experts.LoadsAsPacked projectionN K numGroups groupSize zeroPointOffset bindingGroupSize words
      scales ↔ groupSize < K ∨ experts.ScalesFixed projectionN :=
  (loadsAsPacked_iff h zeroPointOffset bindingGroupSize words scales).trans (scales_agree_iff h)

/-- One projection with 16 input channels whose scales number the columns. -/
def numberedExperts (numGroups : Nat) : MoeExperts where
  first :=
    [{ qweight := Tensor.full [2, 64] 0
       qzeros := Tensor.full [numGroups, 0] 0
       scales := ⟨[numGroups, 64], fun idx => BitVec.ofNat 16 (idx.getD 1 0)⟩ }]
  second := none

theorem numberedExperts_shapes (numGroups groupSize : Nat) (hgroups : numGroups * groupSize = 16) :
    (numberedExperts numGroups).Shapes false 64 16 numGroups groupSize where
  width := rfl
  widthPos := by decide
  depth := rfl
  depthPos := by decide
  groups := hgroups
  nonempty := List.cons_ne_nil _ _
  paired _ hsecond := by cases hsecond
  projections p hp := by
    obtain hp | ⟨second, hsecond, -⟩ := hp
    · obtain rfl := List.mem_singleton.1 hp
      refine ⟨rfl, ?_, nofun, rfl⟩
      simp [MoeProjection.hasZeros, Tensor.numel, Tensor.full]
    · cases hsecond

theorem load_eq_pack_iff_two_groups :
    (numberedExperts 2).LoadsAsPacked 64 16 2 8 1 8 (fun _ => 0) (fun _ => 0) ↔
      8 < 16 ∨ (numberedExperts 2).ScalesFixed 64 :=
  load_eq_pack_iff (numberedExperts_shapes 2 8 rfl) 1 8 (fun _ => 0) fun _ => 0

/-- With one group column 1 is loaded from column 8 and exported from column 1. -/
theorem load_ne_pack_one_group :
    (numberedExperts 1).Shapes false 64 16 1 16 ∧
      ¬(numberedExperts 1).LoadsAsPacked 64 16 1 16 1 16 (fun _ => 0) fun _ => 0 := by
  have h := numberedExperts_shapes 1 16 rfl
  refine ⟨h, ?_⟩
  rw [loadsAsPacked_iff h]
  intro hagree
  have hcolumn := hagree 0 (by decide) 0 (by decide) 1 (by decide)
  revert hcolumn
  decide

end Batches

end EdgeLLM.Ports.Int4
