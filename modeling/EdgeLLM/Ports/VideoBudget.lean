import EdgeLLM.Verified.Checked
import Mathlib.Data.List.Infix
import Mathlib.Data.Int.Order.Basic

/-!
# The visual token budget of a video

A clip is clamped to the frames that the visual engine's profile holds
(`clampNframesToProfile`); a list of pre-sampled frames is accepted or refused as
it is (`presampledTokens`).  Both estimate the visual tokens that the engine will
produce, each in its own way for the four families of models.

Floating point is a parameter: the operations of the source, without their
rounding.  The divisors of the integer divisions are positive.
-/

namespace EdgeLLM.Ports.VideoBudget

open Verified

/-- The float operations of the estimates, and the order in which a set yields its
elements. -/
structure Floats (F : Type) where
  ofInt : Int → F
  /-- `a / b` of two integers. -/
  trueDiv : Int → Int → F
  div : F → F → F
  mul : F → F → F
  sub : F → F → F
  sqrt : F → F
  log : F → F
  abs : F → F
  floor : F → Int
  ceil : F → Int
  round : F → Int
  /-- `int(x)`. -/
  trunc : F → Int
  lt : F → F → Bool
  /-- `1e-12`. -/
  tolerance : F
  iterate : List (Int × Int) → List (Int × Int)

inductive Family
  | qwen
  | internvl
  | nemotron
  | muse
  deriving DecidableEq

/-- The engine's limits; a missing field has the default that the code reads. -/
structure Limits (F : Type) where
  modelType : String
  minImageTokens : Int
  maxImageTokens : Int
  maxImageTokensPerImage : Int
  maxCuSeqlenGroups : Int
  patchSize : Int
  mergeSize : Int
  temporalPatchSize : Int
  maxImageTokensCheckpoint : Int
  maxVideoFrameTokens : Int
  videoPruningRate : F
  videoTemporalPatchSize : Int
  videoTargetNumPatches : Int
  downsampleRatio : F
  internvlImageSize : Int
  internvlPatchSize : Int

def fpsMaxFrames : Int := 768

def maxDecodePixels : Int := 256 * 1024 * 1024

def internvlDefaultTilePixels : Int := 448

def internvlDefaultBlockTokens : Int := 256

/-- `-(-a // b)`. -/
def ceilDiv (a b : Int) : Int := -(-a / b)

/-- The frames of a temporal group. -/
def Limits.tps {F : Type} (limits : Limits F) : Int := max 1 limits.temporalPatchSize

section Estimates

variable {F : Type} (floats : Floats F)

def roundByFactor (n : F) (factor : Int) : Int :=
  floats.round (floats.div n (floats.ofInt factor)) * factor

def ceilByFactor (n : F) (factor : Int) : Int :=
  floats.ceil (floats.div n (floats.ofInt factor)) * factor

def floorByFactor (n : F) (factor : Int) : Int :=
  floats.floor (floats.div n (floats.ofInt factor)) * factor

def pixelCap (pixelBudget : Option Int) : Int :=
  pixelBudget.elim maxDecodePixels (min maxDecodePixels)

def checkAspectRatio (width height : Int) : Except String Unit :=
  requireThat (¬(0 < width ∧ 0 < height ∧
      floats.lt (floats.ofInt 200) (floats.trueDiv (max width height) (min width height)) = true))
    ("absolute aspect ratio of " ++ toString width ++ "x" ++ toString height ++
      " exceeds the supported maximum of 200")

/-- The ratio is checked where the runner's resize enforces it. -/
def checkFamilyAspect (family : Family) (width height : Int) : Except String Unit :=
  if family = .internvl ∨ family = .nemotron then .ok ()
  else checkAspectRatio floats width height

/-- `sub in text`. -/
def contains (sub text : String) : Prop := sub.toList <:+: text.toList

instance (sub text : String) : Decidable (contains sub text) :=
  inferInstanceAs (Decidable (_ <:+: _))

def usesQwen3dResize (modelType : String) : Prop :=
  contains "qwen3_vl" modelType ∨ contains "qwen3_5" modelType ∨
    modelType = "cosmos3_edge_vision"

instance (modelType : String) : Decidable (usesQwen3dResize modelType) :=
  inferInstanceAs (Decidable (_ ∨ _ ∨ _))

/-- `min(candidates, key=key)`: the first of the least. -/
def minBy (key : Int × Int → F) : List (Int × Int) → Option (Int × Int)
  | [] => none
  | first :: rest => some (rest.foldl (fun best grid =>
    if floats.lt (key grid) (key best) = true then grid else best) first)

/-- The grid of a Muse frame, for at most `maxTokens` tokens. -/
def museFrameTokens (width height factor maxTokens : Int) : Except String Int :=
  let idealH := floats.trueDiv height factor
  let idealW := floats.trueDiv width factor
  let ratio := floats.div idealW idealH
  let ideal :=
    if floats.lt (floats.ofInt maxTokens) (floats.mul idealH idealW) = true then
      let h := floats.sqrt (floats.div (floats.ofInt maxTokens) ratio)
      (h, floats.mul h ratio)
    else (idealH, idealW)
  let candidates := floats.iterate
    [(floats.floor ideal.1, floats.floor ideal.2), (floats.floor ideal.1, floats.ceil ideal.2),
      (floats.ceil ideal.1, floats.floor ideal.2), (floats.ceil ideal.1, floats.ceil ideal.2)]
  let candidates := candidates.filter fun grid =>
    1 ≤ grid.1 ∧ 1 ≤ grid.2 ∧ grid.1 * grid.2 ≤ maxTokens
  let key := fun grid : Int × Int => floats.abs
    (floats.sub (floats.trueDiv grid.1 grid.2) (floats.trueDiv height width))
  (minBy floats key candidates).elim (.error "min() iterable argument is empty")
    fun grid => .ok (grid.1 * grid.2)

/-- `_estimate_qwen2d_frame_tokens` of a video frame. -/
def estimateQwen2dFrameTokens (width height : Int) (limits : Limits F) : Except String Int :=
  let patch := limits.patchSize
  let merge := limits.mergeSize
  if patch ≤ 0 ∨ merge ≤ 0 ∨ width ≤ 0 ∨ height ≤ 0 then .ok 0
  else
    let factor := patch * merge
    if limits.modelType = "muse_glimmer_vision" then
      let caps := [limits.maxVideoFrameTokens, limits.maxImageTokensPerImage].filter (0 < ·)
      match caps with
      | [] => .ok 0
      | first :: rest => museFrameTokens floats width height factor (rest.foldl min first)
    else
      let minPx := limits.minImageTokens * factor * factor
      let maxPx := limits.maxImageTokensPerImage * factor * factor
      let hBar := max factor (floats.round (floats.trueDiv height factor) * factor)
      let wBar := max factor (floats.round (floats.trueDiv width factor) * factor)
      let bars :=
        if 0 < maxPx ∧ maxPx < hBar * wBar then
          let beta := floats.sqrt (floats.trueDiv (height * width) maxPx)
          (max factor (floorByFactor floats (floats.div (floats.ofInt height) beta) factor),
            max factor (floorByFactor floats (floats.div (floats.ofInt width) beta) factor))
        else if 0 < minPx ∧ hBar * wBar < minPx then
          let beta := floats.sqrt (floats.trueDiv minPx (height * width))
          (ceilByFactor floats (floats.mul (floats.ofInt height) beta) factor,
            ceilByFactor floats (floats.mul (floats.ofInt width) beta) factor)
        else (hBar, wBar)
      .ok (max 1 (bars.1 * bars.2 / (factor * factor)))

def internvlTilePixels (limits : Limits F) : Int :=
  if 0 < limits.internvlImageSize then limits.internvlImageSize else internvlDefaultTilePixels

def internvlTokensPerBlock (limits : Limits F) : Int :=
  let imageSize := limits.internvlImageSize
  let patch := limits.internvlPatchSize
  if imageSize ≤ 0 ∨ patch ≤ 0 ∨ imageSize % patch ≠ 0 ∨
      floats.lt (floats.ofInt 0) limits.downsampleRatio = false then
    internvlDefaultBlockTokens
  else
    let scale := floats.round (floats.div (floats.ofInt 1) limits.downsampleRatio)
    let patchesPerSide := imageSize / patch
    if scale < 1 ∨ patchesPerSide % scale ≠ 0 then internvlDefaultBlockTokens
    else patchesPerSide / scale * (patchesPerSide / scale)

/-! ## The three-dimensional resize -/

/-- The grid found so far: its distance, its gap and its sides. -/
structure GridChoice (F : Type) where
  dist : F
  gap : Int
  pp : Int
  qq : Int

/-- A turn of the loop over the grid shapes. -/
def considerGrid (target : F) (pqMin pqMax pqTarget : Int) (best : Option (GridChoice F))
    (pp : Int) : Option (GridChoice F) :=
  let qLo := max 1 (ceilDiv pqMin pp)
  let qHi := pqMax / pp
  if qHi < qLo then best
  else
    let qq := min (max (floats.round (floats.div (floats.ofInt pp) target)) qLo) qHi
    let dist := floats.abs (floats.log (floats.div (floats.trueDiv pp qq) target))
    let gap := ((pp * qq - pqTarget).natAbs : Int)
    best.elim (some ⟨dist, gap, pp, qq⟩) fun found =>
      if floats.lt dist (floats.sub found.dist floats.tolerance) = true ∨
          (floats.lt floats.tolerance (floats.abs (floats.sub dist found.dist)) = false ∧
            gap < found.gap) then
        some ⟨dist, gap, pp, qq⟩
      else some found

/-- The sides after the scaling by the aspect. -/
def scaledBars (nframes width height factor tBar minPx maxPx : Int) : Int × Int :=
  let hBar := max factor (floats.round (floats.trueDiv height factor) * factor)
  let wBar := max factor (floats.round (floats.trueDiv width factor) * factor)
  let budget := tBar * hBar * wBar
  let shrunk := fun frames : Int =>
    let beta := floats.sqrt (floats.trueDiv (frames * height * width) maxPx)
    (max factor (floorByFactor floats (floats.div (floats.ofInt height) beta) factor),
      max factor (floorByFactor floats (floats.div (floats.ofInt width) beta) factor))
  let bars :=
    if 0 < maxPx ∧ maxPx < budget then shrunk nframes
    else if 0 < minPx ∧ budget < minPx then
      let beta := floats.sqrt (floats.trueDiv minPx (nframes * height * width))
      (ceilByFactor floats (floats.mul (floats.ofInt height) beta) factor,
        ceilByFactor floats (floats.mul (floats.ofInt width) beta) factor)
    else (hBar, wBar)
  if 0 < maxPx ∧ maxPx < tBar * bars.1 * bars.2 then shrunk tBar else bars

/-- The factor-grid fallback. -/
def gridBars (nframes width height factor tBar minPx maxPx : Int) (bars : Int × Int) :
    Except String (Int × Int) := do
  let unit := tBar * factor * factor
  let pqMin := if 0 < minPx then max 1 (ceilDiv minPx unit) else 1
  let pqMax := if 0 < maxPx then maxPx / unit else 0
  requireThat (¬(0 < maxPx ∧ (pqMax < 1 ∨ pqMax < pqMin)))
    ("no resized visual shape fits the engine profile (frames=" ++ toString nframes ++ ", " ++
      toString height ++ "x" ++ toString width ++ "); reduce the frame count/resolution or " ++
      "rebuild the visual engine with wider --min-image-tokens/--max-image-tokens bounds")
  if 1 ≤ pqMax ∧ pqMin ≤ pqMax then
    let target := floats.trueDiv height width
    let pqTarget := if tBar * bars.1 * bars.2 < minPx then pqMin else pqMax
    let best := ((List.range pqMax.toNat).map fun i : Nat => (i : Int) + 1).foldl
      (considerGrid floats target pqMin pqMax pqTarget) none
    pure (best.elim bars fun found => (found.pp * factor, found.qq * factor))
  else pure bars

/-- The sides after the fallback, where they are outside the profile. -/
def fittedBars (nframes width height factor tBar minPx maxPx : Int) : Except String (Int × Int) :=
  let bars := scaledBars floats nframes width height factor tBar minPx maxPx
  if (0 < maxPx ∧ maxPx < tBar * bars.1 * bars.2) ∨
      (0 < minPx ∧ tBar * bars.1 * bars.2 < minPx) then
    gridBars floats nframes width height factor tBar minPx maxPx bars
  else .ok bars

/-- `_estimate_qwen3d_video_tokens` of a video. -/
def estimateQwen3dVideoTokens (nframes width height : Int) (limits : Limits F) :
    Except String Int :=
  let patch := limits.patchSize
  let merge := limits.mergeSize
  if patch ≤ 0 ∨ merge ≤ 0 ∨ width ≤ 0 ∨ height ≤ 0 ∨ nframes ≤ 0 then .ok 0
  else do
    let factor := patch * merge
    let temporalFactor := limits.tps
    let minPx := limits.minImageTokens * temporalFactor * factor * factor
    let maxPx := limits.maxImageTokensPerImage * temporalFactor * factor * factor
    let tBar := floats.ceil (floats.trueDiv nframes limits.tps) * limits.tps
    let bars ← fittedBars floats nframes width height factor tBar minPx maxPx
    pure (max 1 (tBar * bars.1 * bars.2 / (temporalFactor * factor * factor)))

/-- Frames and tokens of a tubelet. -/
structure TubeletGeometry where
  t : Int
  tokensPerTubelet : Int

def nemotronTubeletGeometry (limits : Limits F) : Option TubeletGeometry :=
  let t := max 1 limits.videoTemporalPatchSize
  let target := limits.videoTargetNumPatches
  if target ≤ 0 ∨ floats.lt (floats.ofInt 0) limits.downsampleRatio = false then none
  else
    let scale := max 1 (floats.round (floats.div (floats.ofInt 1) limits.downsampleRatio))
    let tokensPerTubelet := target / (scale * scale)
    if tokensPerTubelet ≤ 0 then none else some ⟨t, tokensPerTubelet⟩

/-- `int(tokens * (1.0 - q))`: what EVS keeps. -/
def keptTokens (limits : Limits F) (tokens : Int) : Int :=
  floats.trunc (floats.mul (floats.ofInt tokens)
    (floats.sub (floats.ofInt 1) limits.videoPruningRate))

def estimateNemotronVideoTokens (nframes : Int) (limits : Limits F) : Int :=
  (nemotronTubeletGeometry floats limits).elim 0 fun geom =>
    if nframes ≤ 0 then 0
    else max geom.tokensPerTubelet
      (keptTokens floats limits (ceilDiv nframes geom.t * geom.tokensPerTubelet))

end Estimates

/-! ## Clamping a clip -/

section Clamping

variable {F : Type} (floats : Floats F)

/-- The tokens that are left for a video. -/
def tokenCap (limits : Limits F) (budget : Option Int) : Int :=
  budget.elim limits.maxImageTokens fun left => min left limits.maxImageTokens

/-- The `cu_seqlens` groups of a clip: the remaining budget, or the recorded capacity,
or the one derived from the token bounds. -/
def clipGroups (limits : Limits F) (cuBudget : Option Int) : Int :=
  cuBudget.getD (if limits.maxCuSeqlenGroups = 0 then
      limits.maxImageTokens / max 1 limits.minImageTokens
    else limits.maxCuSeqlenGroups)

/-- The tokens that one video may take. -/
def mediaCap (limits : Limits F) (cap : Int) : Int :=
  if 0 < limits.maxImageTokensPerImage then min limits.maxImageTokensPerImage cap else cap

/-- The tubelets of the engine's block profile. -/
def engineTubelets (limits : Limits F) (geom : TubeletGeometry) : Int :=
  max 1 (limits.maxImageTokens / geom.tokensPerTubelet)

/-- The tubelets that a clip is clamped to. -/
def maxTubelets (limits : Limits F) (geom : TubeletGeometry) (cap : Int) : Int :=
  min (engineTubelets limits geom)
    (max 1 (cap / max 1 (keptTokens floats limits geom.tokensPerTubelet)))

/-- The branch for one family of frames with separate temporal groups. -/
def clampGroups (nframes width height : Int) (limits : Limits F) (cap : Int)
    (cuBudget : Option Int) : Except String (Int × Int) := do
  let frameTokens ← estimateQwen2dFrameTokens floats width height limits
  if frameTokens ≤ 0 then pure (nframes, 0)
  else do
    let maxGroups := cuBudget.elim (cap / frameTokens) (min (cap / frameTokens))
    requireThat (1 ≤ maxGroups)
      ("video frames need " ++ toString frameTokens ++ " visual tokens each but only " ++
        toString cap ++ " remain in the engine budget; reduce other media in the request or " ++
        "rebuild the visual engine with a larger --max-image-tokens")
    let n := min nframes (maxGroups * limits.tps)
    pure (n, (n + limits.tps - 1) / limits.tps * frameTokens)

/-- The branch for the three-dimensional resize. -/
def clampVolume (nframes width height : Int) (limits : Limits F) (cap : Int)
    (cuBudget : Option Int) : Except String (Int × Int) := do
  let cuGroups := clipGroups limits cuBudget
  requireThat (0 < cuGroups)
    ("the request's other media already consume the visual engine's cu_seqlens capacity; " ++
      "reduce the media count")
  let n := min (min nframes (limits.tps * mediaCap limits cap)) (limits.tps * cuGroups)
  let est ← estimateQwen3dVideoTokens floats n width height limits
  requireThat (est ≤ cap)
    ("video needs ~" ++ toString est ++ " visual tokens but only " ++ toString cap ++
      " remain in the engine budget; reduce other media in the request")
  pure (n, est)

/-- The branches of the families. -/
def clampFamily (nframes : Int) (family : Family) (width height : Int) (limits : Limits F)
    (cap : Int) (cuBudget : Option Int) : Except String (Int × Int) :=
  if family = .internvl then
    let blockTokens := internvlTokensPerBlock floats limits
    let maxBlocks := max 1 (cap / blockTokens)
    let n := min nframes maxBlocks
    .ok (n, n * blockTokens)
  else if family = .nemotron then
    .ok ((nemotronTubeletGeometry floats limits).elim (nframes, 0) fun geom =>
      let n := min nframes (maxTubelets floats limits geom cap * geom.t)
      (n, estimateNemotronVideoTokens floats n limits))
  else if usesQwen3dResize limits.modelType then
    clampVolume floats nframes width height limits cap cuBudget
  else clampGroups floats nframes width height limits cap cuBudget

def clampNframesToProfile (nframes : Int) (family : Family) (width height : Int)
    (limits : Limits F) (budget cuBudget : Option Int) : Except String (Int × Int) := do
  checkFamilyAspect floats family width height
  if limits.maxImageTokens ≤ 0 then pure (nframes, 0)
  else do
    let cap := tokenCap limits budget
    requireThat (0 < cap)
      ("the request's other media already consume the engine's visual token budget (" ++
        toString limits.maxImageTokens ++ "); no room left for this video")
    clampFamily floats nframes family width height limits cap cuBudget

end Clamping

/-! ## Pre-sampled frames -/

section Presampled

variable {F : Type} (floats : Floats F)

def checkCuBudget (frames : Int) (family : Family) (limits : Limits F) (cuBudget : Option Int) :
    Except String Unit :=
  requireThat (family = .internvl ∨ family = .nemotron ∨
      ∀ left ∈ cuBudget, ceilDiv frames limits.tps ≤ left)
    ("video needs " ++ toString (ceilDiv frames limits.tps) ++
      " cu_seqlens entries but only " ++ toString (max 0 (cuBudget.getD 0)) ++
      " remain in the visual engine's capacity; reduce the media in the request")

def rawVideoFrameTokens (family : Family) (count width height : Int) (limits : Limits F) :
    Except String Int :=
  if family = .internvl then do
    let tile := internvlTilePixels limits
    requireThat (width = tile ∧ height = tile)
      ("do_resize=false InternVL video frames must be " ++ toString tile ++ "x" ++
        toString tile ++ ", got " ++ toString width ++ "x" ++ toString height)
    pure (count * internvlTokensPerBlock floats limits)
  else
    let orOne := fun n : Int => if n = 0 then 1 else n
    let factor := orOne limits.patchSize * orOne limits.mergeSize
    if factor ≤ 1 then .ok 0
    else do
      requireThat (width % factor = 0 ∧ height % factor = 0)
        ("do_resize=false video frames must be " ++ toString factor ++ "-aligned, got " ++
          toString width ++ "x" ++ toString height)
      let tBar := ceilDiv count limits.tps * limits.tps
      let groupTokens := height * width / (factor * factor)
      let perImage := limits.maxImageTokensPerImage
      requireThat (perImage = 0 ∨ groupTokens ≤ perImage)
        ("do_resize=false video frames yield " ++ toString groupTokens ++
          " tokens per temporal group, over the engine's per-image capacity " ++
          toString perImage ++ "; lower the resolution")
      pure (max 1 (tBar / limits.tps * groupTokens))

/-- The check of an estimate against what is left. -/
def requireFits (nframes est cap : Int) : Except String Unit :=
  requireThat (est ≤ cap)
    (toString nframes ++ " pre-sampled frames need ~" ++ toString est ++
      " visual tokens but only " ++ toString cap ++
      " remain in the engine budget; reduce the frame count or other media")

def presampledTubelets (nframes : Int) (limits : Limits F) (cap : Int) : Except String Int := do
  requireThat (∀ geom ∈ nemotronTubeletGeometry floats limits,
      ceilDiv nframes geom.t ≤ engineTubelets limits geom)
    (toString nframes ++ " pre-sampled frames need more tubelets than the visual engine " ++
      "profile holds; reduce the frame count")
  requireFits nframes (estimateNemotronVideoTokens floats nframes limits) cap
  pure (estimateNemotronVideoTokens floats nframes limits)

def presampledBlocks (nframes : Int) (limits : Limits F) (cap : Int) (cuBudget : Option Int) :
    Except String Int := do
  let blockTokens := internvlTokensPerBlock floats limits
  requireThat (nframes ≤ cap / blockTokens)
    (toString nframes ++ " pre-sampled frames exceed the engine's remaining budget of " ++
      toString (cap / blockTokens) ++ " InternVL blocks")
  checkCuBudget nframes .internvl limits cuBudget
  pure (nframes * blockTokens)

/-- The groups of pre-sampled frames; the recorded capacity is not consulted. -/
def presampledGroups (limits : Limits F) (cuBudget : Option Int) : Int :=
  cuBudget.getD (limits.maxImageTokens / max 1 limits.minImageTokens)

def presampledVolume (nframes width height : Int) (limits : Limits F) (cap : Int)
    (cuBudget : Option Int) : Except String Int := do
  checkAspectRatio floats width height
  let cuGroups := presampledGroups limits cuBudget
  requireThat (0 < cuGroups)
    "the request's other media already consume the visual engine's cu_seqlens capacity"
  let perMedia := min (mediaCap limits cap) cuGroups
  requireThat (nframes ≤ limits.tps * perMedia)
    (toString nframes ++ " pre-sampled frames exceed the engine's per-media capacity of " ++
      toString (limits.tps * perMedia) ++ " frames")
  let est ← estimateQwen3dVideoTokens floats nframes width height limits
  requireFits nframes est cap
  pure est

def presampledFrames (nframes : Int) (family : Family) (width height : Int) (limits : Limits F)
    (cap : Int) (cuBudget : Option Int) : Except String Int := do
  checkAspectRatio floats width height
  let frameTokens ← estimateQwen2dFrameTokens floats width height limits
  checkCuBudget nframes family limits cuBudget
  if 0 < frameTokens then do
    let est := (nframes + limits.tps - 1) / limits.tps * frameTokens
    requireThat (est ≤ cap)
      (toString nframes ++ " pre-sampled " ++ toString width ++ "x" ++ toString height ++
        " frames need ~" ++ toString est ++ " visual tokens but only " ++ toString cap ++
        " remain in the engine budget (max ~" ++
        toString (cap / frameTokens * limits.tps) ++
        " frames); reduce the frame count or other media in the request")
    pure est
  else
    pure (min (if limits.maxImageTokensPerImage = 0 then cap else limits.maxImageTokensPerImage)
      cap)

/-- The branches of the families. -/
def presampledFamily (nframes : Int) (family : Family) (width height : Int) (limits : Limits F)
    (cap : Int) (cuBudget : Option Int) : Except String Int :=
  if family = .nemotron then presampledTubelets floats nframes limits cap
  else if family = .internvl then presampledBlocks floats nframes limits cap cuBudget
  else if usesQwen3dResize limits.modelType then
    presampledVolume floats nframes width height limits cap cuBudget
  else presampledFrames floats nframes family width height limits cap cuBudget

/-- Pre-sampled frames that are not resized. -/
def presampledRaw (nframes : Int) (family : Family) (width height : Int) (limits : Limits F)
    (cap : Int) (cuBudget : Option Int) : Except String Int := do
  let est ← rawVideoFrameTokens floats family nframes width height limits
  checkCuBudget nframes family limits cuBudget
  requireThat (limits.maxImageTokens = 0 ∨ est ≤ cap)
    ("pre-resized video needs ~" ++ toString est ++ " visual tokens but only " ++
      toString cap ++ " remain in the engine budget; reduce frames or other media in the " ++
      "request")
  pure est

/-- The budget of `load_video_buffer` for pre-sampled frames of one size: the tokens that
are charged for them. -/
def presampledTokens (nframes : Int) (family : Family) (width height : Int) (limits : Limits F)
    (budget pixelBudget cuBudget : Option Int) (doResize : Bool) : Except String Int := do
  requireThat (¬(family = .nemotron ∧ doResize = false))
    ("Nemotron-Omni video does not support do_resize=false; the runner always resizes frames " ++
      "to the target patch grid")
  requireThat (nframes ≤ fpsMaxFrames)
    (toString nframes ++ " pre-sampled frames exceed the supported maximum " ++
      toString fpsMaxFrames)
  requireThat (doResize = false ∨ checkFamilyAspect floats family width height = .ok ())
    ("absolute aspect ratio of " ++ toString width ++ "x" ++ toString height ++
      " exceeds the supported maximum of 200")
  requireThat (nframes * (width * height) ≤ pixelCap pixelBudget)
    (toString nframes ++ " frames of " ++ toString width ++ "x" ++ toString height ++
      " exceed the request's remaining host pixel limit " ++ toString (pixelCap pixelBudget) ++
      "; lower the frame count, resolution, or number of videos")
  let cap := tokenCap limits budget
  requireThat (limits.maxImageTokens = 0 ∨ 0 < cap)
    ("the request's other media already consume the engine's visual token budget; no room " ++
      "left for these frames")
  if doResize = false then presampledRaw floats nframes family width height limits cap cuBudget
  else if limits.maxImageTokens = 0 then pure 0
  else presampledFamily floats nframes family width height limits cap cuBudget

end Presampled

end EdgeLLM.Ports.VideoBudget
