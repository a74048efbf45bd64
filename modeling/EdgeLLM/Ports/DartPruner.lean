import EdgeLLM.Ports.VisualPruner

/-!
# The DART pruner

Every visual span keeps its quota: its pivots, the tokens of highest L1 norm,
and then for each pivot of the span and each text pivot the candidates that are
least similar to it.  The similarities of several spans are computed in one
chunk, whose pivots are staged in a buffer of bounded size.

Norms, dot products and the arithmetic on them are parameters over a linear
order: the scores are floats without NaN.
-/

namespace EdgeLLM.Ports.VisualPruner

open Verified

/-- `kDartMaxPivots`. -/
def dartMaxPivots : Nat := 64

/-- What the constructor accepts. -/
structure Dart where
  pivotImageTokens : Nat
  pivotTextTokens : Nat
  some_pivot : 0 < pivotImageTokens + pivotTextTokens
  pivots_le : pivotImageTokens + pivotTextTokens ≤ dartMaxPivots

/-- The checks of the constructor. -/
def Dart.create (pivotImageTokens pivotTextTokens : Int) : Except String Dart :=
  if himage : 0 ≤ pivotImageTokens ∧ pivotImageTokens ≤ dartMaxPivots then
    if htext : 0 ≤ pivotTextTokens ∧ pivotTextTokens ≤ dartMaxPivots then
      if hsome : 0 < pivotImageTokens + pivotTextTokens then
        if hfits : pivotImageTokens + pivotTextTokens ≤ dartMaxPivots then
          .ok ⟨pivotImageTokens.toNat, pivotTextTokens.toNat, by omega, by omega⟩
        else .error "DART pivot count exceeds kernel limit"
      else .error "DART requires at least one pivot"
    else .error "DART pivotTextTokens out of range"
  else .error "DART pivotImageTokens out of range"

/-- The float operations of the selection. -/
structure Arithmetic (F : Type) where
  mul : F → F → F
  div : F → F → F
  neg : F → F
  cosineEps : F

/-- What the kernels compute of the embeddings. -/
structure Scores (F : Type) where
  l1 : Nat → F
  l2 : Nat → F
  /-- The dot product of the embeddings at two positions. -/
  dot : Nat → Nat → F

section Dart

variable {F : Type} [LinearOrder F]

/-- The order of `topByScore`: by descending score, ties by the lower index. -/
def before (scores : Nat → F) (a b : Nat) : Prop :=
  scores b < scores a ∨ (scores a = scores b ∧ a ≤ b)

instance (scores : Nat → F) : DecidableRel (before scores) :=
  fun _ _ => inferInstanceAs (Decidable (_ ∨ _))

def topByScore (positions : List Nat) (scores : Nat → F) (count : Nat) : List Nat :=
  (positions.insertionSort (before scores)).take count

/-! ## Chunks -/

/-- A span with its image pivots. -/
structure SpanPivots where
  span : ImageSpan
  pivots : List Nat

/-- The spans of a launch, the offsets of their pivots and the staged pivots. -/
structure Chunk where
  members : List SpanPivots
  spanPivotOffsets : List Nat
  pivotHost : List Nat
  textOffset : Nat

/-- The loop that packs spans into a chunk as long as their pivots fit beside the text
pivots; returns the spans that are left. -/
def packChunk (textCount : Nat) : Chunk → List SpanPivots → Chunk × List SpanPivots
  | chunk, [] => (chunk, [])
  | chunk, member :: rest =>
    if dartMaxPivots < chunk.pivotHost.length + member.pivots.length + textCount ∧
        chunk.members.isEmpty = false then
      (chunk, member :: rest)
    else
      packChunk textCount
        { chunk with
          members := chunk.members ++ [member]
          spanPivotOffsets := chunk.spanPivotOffsets ++ [chunk.pivotHost.length]
          pivotHost := chunk.pivotHost ++ member.pivots }
        rest

/-- The text pivots are staged after those of the spans. -/
def Chunk.close (textPivots : List Nat) (chunk : Chunk) : Chunk :=
  { chunk with
    textOffset := chunk.pivotHost.length
    pivotHost := chunk.pivotHost ++ textPivots }

/-- The loop over the chunks; `none` where the turns do not suffice. -/
def packChunks (textPivots : List Nat) : Nat → List SpanPivots → Option (List Chunk)
  | _, [] => some []
  | 0, _ :: _ => none
  | turns + 1, spans =>
    let packed := packChunk textPivots.length ⟨[], [], [], 0⟩ spans
    (packChunks textPivots turns packed.2).map fun chunks =>
      packed.1.close textPivots :: chunks

/-- The score of candidate `c` for the pivot at `pivot`. -/
def simScore (arithmetic : Arithmetic F) (scores : Scores F) (pivot c : Nat) : F :=
  arithmetic.neg (arithmetic.div (scores.dot pivot c)
    (max (arithmetic.mul (scores.l2 pivot) (scores.l2 c)) arithmetic.cosineEps))

/-- The loop over the pivots of a span, with the pivots that are left, the positions
retained so far and the candidates. -/
def growWith (arithmetic : Arithmetic F) (scores : Scores F) (target : Nat) :
    List Nat → List Nat → List Nat → List Nat
  | [], retained, _ => retained
  | pivot :: rest, retained, candidates =>
    let remaining := target - retained.length
    if remaining = 0 ∨ candidates.isEmpty = true then retained
    else
      let numPivots := rest.length + 1
      let perPivot := (remaining + numPivots - 1) / numPivots
      let chosen := topByScore candidates (simScore arithmetic scores pivot) perPivot
      growWith arithmetic scores target rest (retained ++ chosen)
        (candidates.filter fun c => !chosen.contains c)

/-- `growSpanGreedily`: the retained positions of the span whose pivots stand at
`spanPivotOffset` of the chunk. -/
def growSpanGreedily (arithmetic : Arithmetic F) (scores : Scores F) (chunk : Chunk)
    (span : ImageSpan) (spanPivotOffset numSpanPivots numTextPivots : Nat) : List Nat :=
  let pivotHost := fun row => chunk.pivotHost.getD row 0
  let pivotRows := (List.range numSpanPivots).map (fun i => spanPivotOffset + i) ++
    (List.range numTextPivots).map fun i => chunk.textOffset + i
  let retained := (List.range numSpanPivots).map fun i => pivotHost (spanPivotOffset + i)
  let candidates := (List.range' span.begin (span.stop - span.begin)).filter
    fun pos => !retained.contains pos
  growWith arithmetic scores span.targetTokens (pivotRows.map pivotHost) retained candidates

/-! ## Selection -/

/-- The image pivots of a span. -/
def spanPivots (dart : Dart) (scores : Scores F) (span : ImageSpan) : SpanPivots where
  span := span
  pivots := topByScore (List.range' span.begin (span.stop - span.begin)) scores.l1
    (min dart.pivotImageTokens span.targetTokens)

/-- The text pivots, shared by all spans. -/
def textPivots (dart : Dart) (scores : Scores F) (req : PruneRequest) : List Nat :=
  topByScore req.textPositions scores.l1 dart.pivotTextTokens

/-- The chunks of a request. -/
def requestChunks (dart : Dart) (scores : Scores F) (req : PruneRequest) : Option (List Chunk) :=
  packChunks (textPivots dart scores req) req.imageSpans.length
    (req.imageSpans.map (spanPivots dart scores))

/-- The growth of the spans of a chunk. -/
def growChunk (arithmetic : Arithmetic F) (scores : Scores F) (textCount : Nat) (chunk : Chunk) :
    Except String (List Nat) := do
  requireThat (0 < chunk.pivotHost.length) "DART selected no pivots"
  requireThat (chunk.pivotHost.length ≤ dartMaxPivots) "numPivots out of range"
  pure ((chunk.members.zip chunk.spanPivotOffsets).flatMap fun m =>
    growSpanGreedily arithmetic scores chunk m.1.span m.2 m.1.pivots.length textCount)

def selectRetainedImageTokens (config : Config) (dart : Dart) (arithmetic : Arithmetic F)
    (scores : Scores F) (req : PruneRequest) : Except String (List Nat) := do
  requireThat (req.origLen ≤ config.maxInputLength) "Tensor reshape failed"
  let chunks ← (requestChunks dart scores req).elim (.error "chunk loop does not end") .ok
  let retained ← chunks.mapM (growChunk arithmetic scores (textPivots dart scores req).length)
  pure retained.flatten

/-- `DartPruner::prune`. -/
def dartPrune (config : Config) (dart : Dart) (arithmetic : Arithmetic F) (scores : Scores F) :
    Prune := fun req => do
  let retained ← selectRetainedImageTokens config dart arithmetic scores req
  pure (some (retained.map fun pos : Nat => (pos : Int)))

end Dart

end EdgeLLM.Ports.VisualPruner
