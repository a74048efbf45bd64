import EdgeLLM.Ports.VideoBudget
import Mathlib.Algebra.Order.Ring.Int

/-!
# When a clamped clip stays within the visual budget

The families whose frames fill temporal groups stay within the budget and take
every clip whose frames would be taken pre-sampled.  A clip clamped to at least
one block or tubelet may not fit; the exact condition is `FitsProfile`.
-/

namespace EdgeLLM.Ports.VideoBudget

open Verified

section Groups

variable {a b k : Int}

theorem ceilDiv_le_iff (hb : 0 < b) : ceilDiv a b ≤ k ↔ a ≤ k * b := by
  have hdiv : -k ≤ -a / b ↔ -k * b ≤ -a := Int.le_ediv_iff_mul_le hb
  rw [Int.neg_mul] at hdiv
  unfold ceilDiv
  omega

theorem add_sub_one_ediv (hb : 0 < b) : (a + b - 1) / b = ceilDiv a b := by
  apply eq_of_forall_ge_iff
  intro k
  have hdiv : (a + b - 1) / b < k + 1 ↔ a + b - 1 < (k + 1) * b := Int.ediv_lt_iff_lt_mul hb
  rw [Int.add_mul, Int.one_mul] at hdiv
  rw [ceilDiv_le_iff hb]
  omega

theorem ceilDiv_min (hb : 0 < b) : ceilDiv (min a (k * b)) b = min (ceilDiv a b) k := by
  apply eq_of_forall_ge_iff
  intro c
  have hmul : k * b ≤ c * b ↔ k ≤ c := Int.mul_le_mul_iff_of_pos_right hb
  rw [ceilDiv_le_iff hb, min_le_iff, min_le_iff, ceilDiv_le_iff hb, hmul]

end Groups

section Budget

variable {F : Type} {floats : Floats F} {limits : Limits F} {nframes width height : Int}
  {family : Family} {budget pixelBudget cuBudget : Option Int}

theorem Limits.tps_pos : 0 < limits.tps := by
  unfold Limits.tps
  omega

/-- The estimate of a video of `m` frames. -/
def videoEstimate (floats : Floats F) (family : Family) (width height : Int) (limits : Limits F)
    (m : Int) : Except String Int :=
  if family = .internvl then .ok (m * internvlTokensPerBlock floats limits)
  else if family = .nemotron then .ok (estimateNemotronVideoTokens floats m limits)
  else if usesQwen3dResize limits.modelType then
    estimateQwen3dVideoTokens floats m width height limits
  else do
    let frameTokens ← estimateQwen2dFrameTokens floats width height limits
    pure (if frameTokens ≤ 0 then 0 else ceilDiv m limits.tps * frameTokens)

/-- A clamped clip has frames, fits the budget and is charged with its estimate; and every
clip whose frames would be taken pre-sampled is taken whole. -/
structure Admits (floats : Floats F) (nframes : Int) (family : Family) (width height : Int)
    (limits : Limits F) (budget pixelBudget cuBudget : Option Int) : Prop where
  within : ∀ m est,
    clampNframesToProfile floats nframes family width height limits budget cuBudget =
      .ok (m, est) →
    1 ≤ m ∧ m ≤ nframes ∧ est ≤ tokenCap limits budget ∧
      videoEstimate floats family width height limits m = .ok est
  whole : ∀ charged,
    presampledTokens floats nframes family width height limits budget pixelBudget cuBudget true =
      .ok charged →
    ∃ est, clampNframesToProfile floats nframes family width height limits budget cuBudget =
      .ok (nframes, est)

/-- The tubelets that the clip is clamped to keep no more than the budget, and a clip of more
tubelets would not be taken pre-sampled either. -/
def FitsTubelets (floats : Floats F) (nframes width height : Int) (limits : Limits F)
    (pixelBudget : Option Int) (cap : Int) (geom : TubeletGeometry) : Prop :=
  let tubelets := ceilDiv nframes geom.t
  let bound := maxTubelets floats limits geom cap
  let kept := fun count => keptTokens floats limits (count * geom.tokensPerTubelet)
  geom.tokensPerTubelet ≤ cap ∧ kept (min tubelets bound) ≤ cap ∧
    (tubelets ≤ bound ∨ engineTubelets limits geom < tubelets ∨ cap < kept tubelets ∨
      fpsMaxFrames < nframes ∨ pixelCap pixelBudget < nframes * (width * height))

/-- The remaining groups are known, or none are recorded, or the clip fits the recorded
ones, or its frames would not be taken pre-sampled. -/
def FitsVolume (floats : Floats F) (nframes width height : Int) (limits : Limits F)
    (pixelBudget cuBudget : Option Int) (cap : Int) : Prop :=
  let fallback := limits.maxImageTokens / max 1 limits.minImageTokens
  cuBudget ≠ none ∨ limits.maxCuSeqlenGroups = 0 ∨
    nframes ≤ limits.tps * limits.maxCuSeqlenGroups ∨
    limits.tps * min (mediaCap limits cap) fallback < nframes ∨
    (∀ est, estimateQwen3dVideoTokens floats nframes width height limits = .ok est → cap < est) ∨
    checkAspectRatio floats width height ≠ .ok () ∨ fpsMaxFrames < nframes ∨
    pixelCap pixelBudget < nframes * (width * height)

/-- Where a clip stays within the visual budget. -/
def FitsProfile (floats : Floats F) (nframes : Int) (family : Family) (width height : Int)
    (limits : Limits F) (budget pixelBudget cuBudget : Option Int) : Prop :=
  let cap := tokenCap limits budget
  0 < cap →
    (family = .internvl → internvlTokensPerBlock floats limits ≤ cap) ∧
    (family = .nemotron → ∀ geom ∈ nemotronTubeletGeometry floats limits,
      FitsTubelets floats nframes width height limits pixelBudget cap geom) ∧
    (family ≠ .internvl → family ≠ .nemotron → usesQwen3dResize limits.modelType →
      FitsVolume floats nframes width height limits pixelBudget cuBudget cap)

variable {result : Int × Int} {charged cap frameTokens : Int} {geom : TubeletGeometry}

theorem clamp_eq_ok (hmax : 0 < limits.maxImageTokens) :
    clampNframesToProfile floats nframes family width height limits budget cuBudget = .ok result ↔
      checkFamilyAspect floats family width height = .ok () ∧ 0 < tokenCap limits budget ∧
        clampFamily floats nframes family width height limits (tokenCap limits budget) cuBudget =
          .ok result := by
  unfold clampNframesToProfile
  rw [check_bind_eq_ok, if_neg (by omega)]
  dsimp only
  rw [check_bind_eq_ok, requireThat_eq_ok]

theorem presampled_eq_ok (hmax : 0 < limits.maxImageTokens) :
    presampledTokens floats nframes family width height limits budget pixelBudget cuBudget true =
        .ok charged ↔
      nframes ≤ fpsMaxFrames ∧ checkFamilyAspect floats family width height = .ok () ∧
        nframes * (width * height) ≤ pixelCap pixelBudget ∧ 0 < tokenCap limits budget ∧
        presampledFamily floats nframes family width height limits (tokenCap limits budget)
          cuBudget = .ok charged := by
  have hne : limits.maxImageTokens ≠ 0 := by omega
  unfold presampledTokens
  simp only [check_bind_eq_ok, requireThat_eq_ok, Bool.true_eq_false, and_false,
    not_false_eq_true, true_and, false_or, if_false, hne]

/-- What remains to be shown of a family. -/
structure AdmitsFamily (floats : Floats F) (nframes : Int) (family : Family)
    (width height : Int) (limits : Limits F) (pixelBudget cuBudget : Option Int) (cap : Int) :
    Prop where
  within : ∀ m est,
    clampFamily floats nframes family width height limits cap cuBudget = .ok (m, est) →
    1 ≤ m ∧ m ≤ nframes ∧ est ≤ cap ∧
      videoEstimate floats family width height limits m = .ok est
  whole : ∀ charged, nframes ≤ fpsMaxFrames → nframes * (width * height) ≤ pixelCap pixelBudget →
    presampledFamily floats nframes family width height limits cap cuBudget = .ok charged →
    ∃ est, clampFamily floats nframes family width height limits cap cuBudget =
      .ok (nframes, est)

theorem admits_iff (hmax : 0 < limits.maxImageTokens) :
    Admits floats nframes family width height limits budget pixelBudget cuBudget ↔
      (0 < tokenCap limits budget → checkFamilyAspect floats family width height = .ok () →
        AdmitsFamily floats nframes family width height limits pixelBudget cuBudget
          (tokenCap limits budget)) := by
  constructor
  · intro h hcap haspect
    constructor
    · intro m est hclamp
      exact h.within m est ((clamp_eq_ok hmax).2 ⟨haspect, hcap, hclamp⟩)
    · intro charged hframes hpixels hpresampled
      obtain ⟨est, hclamp⟩ := h.whole charged
        ((presampled_eq_ok hmax).2 ⟨hframes, haspect, hpixels, hcap, hpresampled⟩)
      exact ⟨est, ((clamp_eq_ok hmax).1 hclamp).2.2⟩
  · intro h
    constructor
    · intro m est hclamp
      obtain ⟨haspect, hcap, hfamily⟩ := (clamp_eq_ok hmax).1 hclamp
      exact (h hcap haspect).within m est hfamily
    · intro charged hpresampled
      obtain ⟨hframes, haspect, hpixels, hcap, hfamily⟩ := (presampled_eq_ok hmax).1 hpresampled
      obtain ⟨est, hclamp⟩ := (h hcap haspect).whole charged hframes hpixels hfamily
      exact ⟨est, (clamp_eq_ok hmax).2 ⟨haspect, hcap, hclamp⟩⟩

theorem internvlTokensPerBlock_pos : 0 < internvlTokensPerBlock floats limits := by
  unfold internvlTokensPerBlock
  dsimp only
  split
  · decide
  · rename_i hgeometry
    split
    · decide
    · rename_i hscale
      rw [not_or, not_or, not_or] at hgeometry
      rw [not_or, Int.not_lt, not_ne_iff] at hscale
      generalize floats.round (floats.div (floats.ofInt 1) limits.downsampleRatio) = scale at hscale
      obtain ⟨hsize, hpatch, hmod, -⟩ := hgeometry
      have hside : 0 < limits.internvlImageSize / limits.internvlPatchSize := by
        apply Int.ediv_pos_of_pos_of_dvd (by omega) (by omega)
        exact Int.dvd_of_emod_eq_zero (not_ne_iff.1 hmod)
      have hblocks : 0 < limits.internvlImageSize / limits.internvlPatchSize / scale :=
        Int.ediv_pos_of_pos_of_dvd hside (by omega) (Int.dvd_of_emod_eq_zero hscale.2)
      exact Int.mul_pos hblocks hblocks

theorem admits_internvl (hn : 1 ≤ nframes) :
    AdmitsFamily floats nframes .internvl width height limits pixelBudget cuBudget cap ↔
      internvlTokensPerBlock floats limits ≤ cap := by
  have hpos := @internvlTokensPerBlock_pos F floats limits
  have hclamp : clampFamily floats nframes .internvl width height limits cap cuBudget =
      .ok (min nframes (max 1 (cap / internvlTokensPerBlock floats limits)),
        min nframes (max 1 (cap / internvlTokensPerBlock floats limits)) *
          internvlTokensPerBlock floats limits) := rfl
  constructor
  · intro h
    obtain ⟨hone, -, hle, -⟩ := h.within _ _ hclamp
    have hblock := Int.mul_le_mul_of_nonneg_right hone (Int.le_of_lt hpos)
    rw [Int.one_mul] at hblock
    exact hblock.trans hle
  · intro hfits
    have hblocks : 1 ≤ cap / internvlTokensPerBlock floats limits := by
      rw [Int.le_ediv_iff_mul_le hpos, Int.one_mul]
      exact hfits
    constructor
    · intro m est hresult
      rw [hclamp] at hresult
      cases hresult
      refine ⟨by omega, min_le_left _ _, ?_, rfl⟩
      have hm : min nframes (max 1 (cap / internvlTokensPerBlock floats limits)) ≤
          cap / internvlTokensPerBlock floats limits := by omega
      exact (Int.le_ediv_iff_mul_le hpos).1 hm
    · intro charged _ _ hpresampled
      change presampledBlocks floats nframes limits cap cuBudget = .ok charged at hpresampled
      unfold presampledBlocks at hpresampled
      rw [check_bind_eq_ok, requireThat_eq_ok] at hpresampled
      have hle := hpresampled.1
      rw [hclamp, min_eq_left (by omega)]
      exact ⟨_, rfl⟩

theorem nemotronTubeletGeometry_pos (h : nemotronTubeletGeometry floats limits = some geom) :
    0 < geom.t ∧ 0 < geom.tokensPerTubelet := by
  unfold nemotronTubeletGeometry at h
  dsimp only at h
  split at h
  · cases h
  · split at h
    · cases h
    · cases h
      exact ⟨by dsimp only; omega, by dsimp only; omega⟩

theorem estimateNemotron_eq (h : nemotronTubeletGeometry floats limits = some geom) {m : Int}
    (hm : 1 ≤ m) : estimateNemotronVideoTokens floats m limits = max geom.tokensPerTubelet
      (keptTokens floats limits (ceilDiv m geom.t * geom.tokensPerTubelet)) := by
  unfold estimateNemotronVideoTokens
  rw [h]
  exact if_neg (by omega)

theorem admits_nemotron_none (hn : 1 ≤ nframes) (hcap : 0 < cap)
    (h : nemotronTubeletGeometry floats limits = none) :
    AdmitsFamily floats nframes .nemotron width height limits pixelBudget cuBudget cap := by
  have hclamp : clampFamily floats nframes .nemotron width height limits cap cuBudget =
      .ok (nframes, 0) := by
    unfold clampFamily
    rw [if_neg (by decide), if_pos rfl, h]
    rfl
  constructor
  · intro m est hresult
    rw [hclamp] at hresult
    cases hresult
    refine ⟨hn, Int.le_refl _, Int.le_of_lt hcap, ?_⟩
    unfold videoEstimate estimateNemotronVideoTokens
    rw [if_neg (by decide), if_pos rfl, h]
    rfl
  · intro charged _ _ _
    exact ⟨0, hclamp⟩

theorem admits_nemotron (hn : 1 ≤ nframes) (h : nemotronTubeletGeometry floats limits = some geom) :
    AdmitsFamily floats nframes .nemotron width height limits pixelBudget cuBudget cap ↔
      FitsTubelets floats nframes width height limits pixelBudget cap geom := by
  obtain ⟨ht, htokens⟩ := nemotronTubeletGeometry_pos h
  have hbound : 1 ≤ maxTubelets floats limits geom cap := by
    unfold maxTubelets engineTubelets
    omega
  have hframes : 1 ≤ maxTubelets floats limits geom cap * geom.t := by
    have hmul := Int.mul_le_mul hbound (show 1 ≤ geom.t from ht) (by omega) (by omega)
    rwa [Int.one_mul] at hmul
  have hclamp : clampFamily floats nframes .nemotron width height limits cap cuBudget =
      .ok (min nframes (maxTubelets floats limits geom cap * geom.t),
        estimateNemotronVideoTokens floats
          (min nframes (maxTubelets floats limits geom cap * geom.t)) limits) := by
    unfold clampFamily
    rw [if_neg (by decide), if_pos rfl, h]
    rfl
  have hestimate := estimateNemotron_eq h
    (m := min nframes (maxTubelets floats limits geom cap * geom.t)) (by omega)
  rw [ceilDiv_min ht] at hestimate
  -- The clip is taken whole where its tubelets are within the bound.
  have hwhole : (∃ est, clampFamily floats nframes .nemotron width height limits cap cuBudget =
      .ok (nframes, est)) ↔ ceilDiv nframes geom.t ≤ maxTubelets floats limits geom cap := by
    rw [hclamp, ceilDiv_le_iff ht]
    constructor
    · intro hsome
      obtain ⟨est, hsome⟩ := hsome
      have hsame := congrArg Prod.fst (Except.ok.inj hsome)
      dsimp only at hsame
      omega
    · intro hle
      rw [min_eq_left hle]
      exact ⟨_, rfl⟩
  have hpresampled : (∃ charged, presampledFamily floats nframes .nemotron width height limits cap
      cuBudget = .ok charged) ↔ ceilDiv nframes geom.t ≤ engineTubelets limits geom ∧
        geom.tokensPerTubelet ≤ cap ∧
        keptTokens floats limits (ceilDiv nframes geom.t * geom.tokensPerTubelet) ≤ cap := by
    have hunfold : presampledFamily floats nframes .nemotron width height limits cap cuBudget =
        presampledTubelets floats nframes limits cap := rfl
    rw [hunfold]
    unfold presampledTubelets requireFits
    simp only [check_bind_eq_ok, requireThat_eq_ok, exists_and_left]
    rw [estimateNemotron_eq h hn, h, max_le_iff]
    constructor
    · intro hall
      exact ⟨hall.1 geom rfl, hall.2.1⟩
    · intro hall
      refine ⟨?_, hall.2, _, rfl⟩
      intro geom' hgeom
      cases hgeom
      exact hall.1
  constructor
  · intro hadmits
    obtain ⟨-, -, hle, -⟩ := hadmits.within _ _ hclamp
    rw [hestimate, max_le_iff] at hle
    refine ⟨hle.1, hle.2, ?_⟩
    by_contra hnot
    rw [not_or, not_or, not_or, not_or] at hnot
    obtain ⟨hover, hengine, hkept, hmany, hpixels⟩ := hnot
    obtain ⟨charged, hcharged⟩ := hpresampled.2
      ⟨Int.not_lt.1 hengine, hle.1, Int.not_lt.1 hkept⟩
    exact hover (hwhole.1 (hadmits.whole charged (Int.not_lt.1 hmany) (Int.not_lt.1 hpixels)
      hcharged))
  · intro hfits
    obtain ⟨htubelet, hkept, hwithin⟩ := hfits
    constructor
    · intro m est hresult
      rw [hclamp] at hresult
      cases hresult
      refine ⟨by omega, min_le_left _ _, ?_, rfl⟩
      rw [hestimate, max_le_iff]
      exact ⟨htubelet, hkept⟩
    · intro charged hmany hpixels hcharged
      rw [hwhole]
      obtain ⟨hengine, -, hall⟩ := hpresampled.1 ⟨charged, hcharged⟩
      rcases hwithin with hle | hover | hover | hover | hover
      · exact hle
      · omega
      · exact absurd hall (Int.not_le.2 hover)
      · omega
      · omega

/-! ## Volumes -/

theorem mediaCap_pos (hcap : 0 < cap) : 0 < mediaCap limits cap := by
  unfold mediaCap
  split
  · omega
  · exact hcap

theorem clampVolume_eq_ok :
    clampVolume floats nframes width height limits cap cuBudget = .ok result ↔
      0 < clipGroups limits cuBudget ∧ result.1 = min (min nframes
        (limits.tps * mediaCap limits cap)) (limits.tps * clipGroups limits cuBudget) ∧
      estimateQwen3dVideoTokens floats result.1 width height limits = .ok result.2 ∧
      result.2 ≤ cap := by
  unfold clampVolume
  simp only [bind_eq_ok, requireThat_eq_ok, exists_const]
  constructor
  · intro h
    obtain ⟨hgroups, est, hest, hle, hpure⟩ := h
    cases hpure
    exact ⟨hgroups, rfl, hest, hle⟩
  · intro h
    obtain ⟨hgroups, hframes, hest, hle⟩ := h
    refine ⟨hgroups, result.2, ?_, hle, ?_⟩
    · rw [← hframes]
      exact hest
    · rw [← hframes]
      rfl

theorem presampledVolume_eq_ok :
    presampledVolume floats nframes width height limits cap cuBudget = .ok charged ↔
      checkAspectRatio floats width height = .ok () ∧ 0 < presampledGroups limits cuBudget ∧
      nframes ≤ limits.tps * min (mediaCap limits cap) (presampledGroups limits cuBudget) ∧
      estimateQwen3dVideoTokens floats nframes width height limits = .ok charged ∧
      charged ≤ cap := by
  unfold presampledVolume requireFits
  simp only [check_bind_eq_ok]
  simp only [bind_eq_ok, requireThat_eq_ok, exists_const]
  constructor
  · intro h
    obtain ⟨haspect, hgroups, hframes, est, hest, hle, hpure⟩ := h
    cases hpure
    exact ⟨haspect, hgroups, hframes, hest, hle⟩
  · intro h
    obtain ⟨haspect, hgroups, hframes, hest, hle⟩ := h
    exact ⟨haspect, hgroups, hframes, charged, hest, hle, rfl⟩

theorem mul_min_tps (a b : Int) : limits.tps * min a b = min (limits.tps * a) (limits.tps * b) :=
  mul_min_of_nonneg _ _ (Int.le_of_lt Limits.tps_pos)

theorem admits_volume (hn : 1 ≤ nframes) (hcap : 0 < cap) (hinternvl : family ≠ .internvl)
    (hnemotron : family ≠ .nemotron) (h3d : usesQwen3dResize limits.modelType)
    (haspect : checkAspectRatio floats width height = .ok ()) :
    AdmitsFamily floats nframes family width height limits pixelBudget cuBudget cap ↔
      FitsVolume floats nframes width height limits pixelBudget cuBudget cap := by
  have htps := @Limits.tps_pos F limits
  have hclamp : clampFamily floats nframes family width height limits cap cuBudget =
      clampVolume floats nframes width height limits cap cuBudget := by
    unfold clampFamily
    rw [if_neg hinternvl, if_neg hnemotron, if_pos h3d]
  have hpresampled : presampledFamily floats nframes family width height limits cap cuBudget =
      presampledVolume floats nframes width height limits cap cuBudget := by
    unfold presampledFamily
    rw [if_neg hnemotron, if_neg hinternvl, if_pos h3d]
  have hestimate : ∀ m, videoEstimate floats family width height limits m =
      estimateQwen3dVideoTokens floats m width height limits := by
    intro m
    unfold videoEstimate
    rw [if_neg hinternvl, if_neg hnemotron, if_pos h3d]
  have hmedia : 0 < limits.tps * mediaCap limits cap := Int.mul_pos htps (mediaCap_pos hcap)
  -- Frames that would be taken pre-sampled are taken whole if the groups suffice.
  have hwhole : ∀ charged, presampledVolume floats nframes width height limits cap cuBudget =
      .ok charged → ((∃ est, clampVolume floats nframes width height limits cap cuBudget =
        .ok (nframes, est)) ↔ nframes ≤ limits.tps * clipGroups limits cuBudget) := by
    intro charged hcharged
    obtain ⟨-, -, hframes, hest, hle⟩ := presampledVolume_eq_ok.1 hcharged
    rw [mul_min_tps] at hframes
    constructor
    · intro hsome
      obtain ⟨est, hsome⟩ := hsome
      have hsame := (clampVolume_eq_ok.1 hsome).2.1
      dsimp only at hsame
      omega
    · intro hgroups
      refine ⟨charged, clampVolume_eq_ok.2 ⟨?_, ?_, hest, hle⟩⟩
      · by_contra hnot
        have hmul : limits.tps * clipGroups limits cuBudget ≤ 0 :=
          Int.mul_nonpos_of_nonneg_of_nonpos (Int.le_of_lt htps) (Int.not_lt.1 hnot)
        omega
      · dsimp only
        omega
  constructor
  · intro hadmits
    by_contra hnot
    unfold FitsVolume at hnot
    dsimp only at hnot
    simp only [not_or] at hnot
    obtain ⟨hnone, hrecorded, hframes, hfallback, hest, -, hmany, hpixels⟩ := hnot
    rw [not_not] at hnone
    subst hnone
    push Not at hest
    obtain ⟨est, hest, hle⟩ := hest
    have hgroups : presampledGroups limits none =
        limits.maxImageTokens / max 1 limits.minImageTokens := rfl
    have hcharged : presampledVolume floats nframes width height limits cap none = .ok est := by
      refine presampledVolume_eq_ok.2 ⟨haspect, ?_, Int.not_lt.1 hfallback, hest, hle⟩
      by_contra hnot
      have hmul : limits.tps * min (mediaCap limits cap) (presampledGroups limits none) ≤ 0 :=
        Int.mul_nonpos_of_nonneg_of_nonpos (Int.le_of_lt htps)
          ((min_le_right _ _).trans (Int.not_lt.1 hnot))
      rw [hgroups] at hmul
      omega
    have hclip : clipGroups limits none = limits.maxCuSeqlenGroups := if_neg hrecorded
    have hsome := hadmits.whole est (Int.not_lt.1 hmany) (Int.not_lt.1 hpixels)
      (hpresampled.trans hcharged)
    rw [hclamp, hwhole est hcharged, hclip] at hsome
    exact hframes hsome
  · intro hfits
    constructor
    · intro m est hresult
      rw [hclamp, clampVolume_eq_ok] at hresult
      obtain ⟨hgroups, hframes, hest, hle⟩ := hresult
      dsimp only at hframes hest hle
      have hgroups' := Int.mul_pos htps hgroups
      exact ⟨by omega, by omega, hle, (hestimate m).trans hest⟩
    · intro charged hmany hpixels hcharged
      rw [hpresampled] at hcharged
      rw [hclamp, hwhole charged hcharged]
      obtain ⟨-, -, hframes, hest, hle⟩ := presampledVolume_eq_ok.1 hcharged
      have hsame : cuBudget ≠ none ∨ limits.maxCuSeqlenGroups = 0 →
          nframes ≤ limits.tps * clipGroups limits cuBudget := by
        intro hknown
        have hgroups : clipGroups limits cuBudget = presampledGroups limits cuBudget := by
          cases hbudget : cuBudget with
          | some left => rfl
          | none => exact if_pos (hknown.resolve_left fun hne => hne hbudget)
        rw [mul_min_tps] at hframes
        rw [hgroups]
        omega
      unfold FitsVolume at hfits
      dsimp only at hfits
      rcases hfits with hsome | hzero | hrecorded | hover | hover | hover | hover | hover
      · exact hsame (.inl hsome)
      · exact hsame (.inr hzero)
      · by_cases hknown : cuBudget ≠ none ∨ limits.maxCuSeqlenGroups = 0
        · exact hsame hknown
        · rw [not_or, not_not] at hknown
          rw [hknown.1]
          exact hrecorded.trans (Int.le_of_eq (congrArg (limits.tps * ·) (if_neg hknown.2).symm))
      · by_cases hknown : cuBudget ≠ none
        · exact hsame (.inl hknown)
        · rw [not_not] at hknown
          subst hknown
          exact absurd hframes (Int.not_le.2 hover)
      · exact absurd hle (Int.not_le.2 (hover charged hest))
      · exact absurd haspect hover
      · omega
      · omega

/-! ## Frames in temporal groups -/

/-- The groups that a clip may fill. -/
def groupBound (cap frameTokens : Int) (cuBudget : Option Int) : Int :=
  cuBudget.elim (cap / frameTokens) (min (cap / frameTokens))

theorem groupBound_le (cap frameTokens : Int) (cuBudget : Option Int) :
    groupBound cap frameTokens cuBudget ≤ cap / frameTokens := by
  cases cuBudget with
  | none => exact Int.le_refl _
  | some left => exact min_le_left _ _

theorem le_groupBound {groups : Int} (hgroups : groups ≤ cap / frameTokens)
    (hleft : ∀ left ∈ cuBudget, groups ≤ left) : groups ≤ groupBound cap frameTokens cuBudget := by
  cases hbudget : cuBudget with
  | none => exact hgroups
  | some left => exact le_min hgroups (hleft left hbudget)

theorem clampGroups_eq (h : estimateQwen2dFrameTokens floats width height limits = .ok frameTokens)
    (hpos : 0 < frameTokens) :
    clampGroups floats nframes width height limits cap cuBudget = .ok result ↔
      1 ≤ groupBound cap frameTokens cuBudget ∧
        result = (min nframes (groupBound cap frameTokens cuBudget * limits.tps),
          ceilDiv (min nframes (groupBound cap frameTokens cuBudget * limits.tps)) limits.tps *
            frameTokens) := by
  unfold clampGroups
  rw [h]
  change (if frameTokens ≤ 0 then _ else _) = Except.ok result ↔ _
  rw [if_neg (Int.not_le.2 hpos), check_bind_eq_ok, requireThat_eq_ok]
  dsimp only
  rw [add_sub_one_ediv Limits.tps_pos]
  constructor
  · intro hresult
    exact ⟨hresult.1, (Except.ok.inj hresult.2).symm⟩
  · intro hresult
    exact ⟨hresult.1, congrArg Except.ok hresult.2.symm⟩

theorem presampledFrames_le (hinternvl : family ≠ .internvl) (hnemotron : family ≠ .nemotron)
    (h : estimateQwen2dFrameTokens floats width height limits = .ok frameTokens)
    (hpos : 0 < frameTokens)
    (hcharged : presampledFrames floats nframes family width height limits cap cuBudget =
      .ok charged) : (∀ left ∈ cuBudget, ceilDiv nframes limits.tps ≤ left) ∧
      ceilDiv nframes limits.tps * frameTokens ≤ cap := by
  unfold presampledFrames at hcharged
  rw [check_bind_eq_ok, h] at hcharged
  replace hcharged := hcharged.2
  change (checkCuBudget nframes family limits cuBudget >>= fun _ => _) = Except.ok charged
    at hcharged
  unfold checkCuBudget at hcharged
  rw [check_bind_eq_ok, requireThat_eq_ok, if_pos hpos] at hcharged
  obtain ⟨hgroups, hcharged⟩ := hcharged
  dsimp only at hcharged
  rw [check_bind_eq_ok, requireThat_eq_ok, add_sub_one_ediv Limits.tps_pos] at hcharged
  exact ⟨(hgroups.resolve_left hinternvl).resolve_left hnemotron, hcharged.1⟩

theorem admits_groups (hn : 1 ≤ nframes) (hcap : 0 < cap) (hinternvl : family ≠ .internvl)
    (hnemotron : family ≠ .nemotron) (h2d : ¬usesQwen3dResize limits.modelType) :
    AdmitsFamily floats nframes family width height limits pixelBudget cuBudget cap := by
  have htps := @Limits.tps_pos F limits
  have hclamp : clampFamily floats nframes family width height limits cap cuBudget =
      clampGroups floats nframes width height limits cap cuBudget := by
    unfold clampFamily
    rw [if_neg hinternvl, if_neg hnemotron, if_neg h2d]
  have hpresampled : presampledFamily floats nframes family width height limits cap cuBudget =
      presampledFrames floats nframes family width height limits cap cuBudget := by
    unfold presampledFamily
    rw [if_neg hnemotron, if_neg hinternvl, if_neg h2d]
  have hestimate : ∀ m, videoEstimate floats family width height limits m =
      (estimateQwen2dFrameTokens floats width height limits >>= fun frameTokens =>
        pure (if frameTokens ≤ 0 then 0 else ceilDiv m limits.tps * frameTokens)) := by
    intro m
    unfold videoEstimate
    rw [if_neg hinternvl, if_neg hnemotron, if_neg h2d]
  cases hframe : estimateQwen2dFrameTokens floats width height limits with
  | error e =>
    constructor
    · intro m est hresult
      rw [hclamp] at hresult
      unfold clampGroups at hresult
      rw [hframe] at hresult
      cases hresult
    · intro charged _ _ hcharged
      rw [hpresampled] at hcharged
      unfold presampledFrames at hcharged
      rw [check_bind_eq_ok, hframe] at hcharged
      cases hcharged.2
  | ok frameTokens =>
    by_cases hpos : 0 < frameTokens
    · constructor
      · intro m est hresult
        rw [hclamp, clampGroups_eq hframe hpos] at hresult
        obtain ⟨hone, hpair⟩ := hresult
        cases hpair
        have hframes : 1 ≤ groupBound cap frameTokens cuBudget * limits.tps := by
          have hmul := Int.mul_le_mul hone (show 1 ≤ limits.tps from htps) (by omega) (by omega)
          rwa [Int.one_mul] at hmul
        refine ⟨by omega, min_le_left _ _, ?_, ?_⟩
        · rw [ceilDiv_min htps]
          have hgroups : min (ceilDiv nframes limits.tps) (groupBound cap frameTokens cuBudget) ≤
              cap / frameTokens := (min_le_right _ _).trans (groupBound_le _ _ _)
          exact (Int.le_ediv_iff_mul_le hpos).1 hgroups
        · rw [hestimate, hframe]
          exact congrArg Except.ok (if_neg (Int.not_le.2 hpos))
      · intro charged _ _ hcharged
        rw [hpresampled] at hcharged
        obtain ⟨hleft, hle⟩ := presampledFrames_le hinternvl hnemotron hframe hpos hcharged
        have hgroups : ceilDiv nframes limits.tps ≤ groupBound cap frameTokens cuBudget :=
          le_groupBound ((Int.le_ediv_iff_mul_le hpos).2 hle) hleft
        have hone : 1 ≤ ceilDiv nframes limits.tps := by
          by_contra hnot
          have hzero := (ceilDiv_le_iff htps).1 (show ceilDiv nframes limits.tps ≤ 0 by omega)
          rw [Int.zero_mul] at hzero
          omega
        rw [ceilDiv_le_iff htps] at hgroups
        refine ⟨ceilDiv nframes limits.tps * frameTokens,
          hclamp.trans ((clampGroups_eq hframe hpos).2 ⟨?_, ?_⟩)⟩
        · have hbound : ceilDiv nframes limits.tps ≤ groupBound cap frameTokens cuBudget :=
            (ceilDiv_le_iff htps).2 hgroups
          omega
        · rw [min_eq_left hgroups]
    · have hnone : clampGroups floats nframes width height limits cap cuBudget =
          .ok (nframes, 0) := by
        unfold clampGroups
        rw [hframe]
        exact if_pos (Int.not_lt.1 hpos)
      constructor
      · intro m est hresult
        rw [hclamp, hnone] at hresult
        cases hresult
        refine ⟨hn, Int.le_refl _, Int.le_of_lt hcap, ?_⟩
        rw [hestimate, hframe]
        exact congrArg Except.ok (if_pos (Int.not_lt.1 hpos))
      · intro charged _ _ _
        exact ⟨0, hclamp.trans hnone⟩

/-! ## A request -/

/-- A clip of a request. -/
structure Clip where
  nframes : Int
  family : Family
  width : Int
  height : Int
  pixelBudget : Option Int

/-- The `cu_seqlens` entries of a clip. -/
def usedGroups (limits : Limits F) (family : Family) (m : Int) : Int :=
  if family = .internvl ∨ family = .nemotron then 0 else ceilDiv m limits.tps

/-- The loop over the clips of a request: the tokens charged for each. -/
def chargeClips (floats : Floats F) (limits : Limits F) :
    List Clip → Int → Option Int → Except String (List Int)
  | [], _, _ => pure []
  | clip :: rest, budget, cuBudget => do
    let clamped ← clampNframesToProfile floats clip.nframes clip.family clip.width clip.height
      limits (some budget) cuBudget
    let charged ← chargeClips floats limits rest (budget - clamped.2)
      (cuBudget.map fun left => left - usedGroups limits clip.family clamped.1)
    pure (clamped.2 :: charged)

/-- Every clip fits what the clips in front of it leave. -/
def FitsRequest (floats : Floats F) (limits : Limits F) :
    List Clip → Int → Option Int → Prop
  | [], _, _ => True
  | clip :: rest, budget, cuBudget =>
    FitsProfile floats clip.nframes clip.family clip.width clip.height limits (some budget)
        clip.pixelBudget cuBudget ∧
      ∀ m est, clampNframesToProfile floats clip.nframes clip.family clip.width clip.height
          limits (some budget) cuBudget = .ok (m, est) →
        FitsRequest floats limits rest (budget - est)
          (cuBudget.map fun left => left - usedGroups limits clip.family m)

theorem admits_iff_fitsProfile (hn : 1 ≤ nframes) (hmax : 0 < limits.maxImageTokens) :
    Admits floats nframes family width height limits budget pixelBudget cuBudget ↔
      FitsProfile floats nframes family width height limits budget pixelBudget cuBudget := by
  rw [admits_iff hmax]
  unfold FitsProfile
  dsimp only
  constructor
  · intro h hcap
    refine ⟨?_, ?_, ?_⟩
    · intro hfamily
      subst hfamily
      exact (admits_internvl hn).1 (h hcap rfl)
    · intro hfamily geom hgeom
      subst hfamily
      exact (admits_nemotron hn hgeom).1 (h hcap rfl)
    · intro hinternvl hnemotron h3d
      by_cases haspect : checkAspectRatio floats width height = .ok ()
      · have hfamily : checkFamilyAspect floats family width height = .ok () := by
          unfold checkFamilyAspect
          rw [if_neg (fun hor => hor.elim hinternvl hnemotron), haspect]
        exact (admits_volume hn hcap hinternvl hnemotron h3d haspect).1 (h hcap hfamily)
      · exact .inr (.inr (.inr (.inr (.inr (.inl haspect)))))
  · intro h hcap haspect
    obtain ⟨hinternvl, hnemotron, hvolume⟩ := h hcap
    by_cases hblocks : family = .internvl
    · subst hblocks
      exact (admits_internvl hn).2 (hinternvl rfl)
    · by_cases htubelets : family = .nemotron
      · subst htubelets
        cases hgeom : nemotronTubeletGeometry floats limits with
        | none => exact admits_nemotron_none hn hcap hgeom
        | some geom => exact (admits_nemotron hn hgeom).2 (hnemotron rfl geom hgeom)
      · by_cases h3d : usesQwen3dResize limits.modelType
        · have hratio : checkAspectRatio floats width height = .ok () := by
            unfold checkFamilyAspect at haspect
            rwa [if_neg (fun hor => hor.elim hblocks htubelets)] at haspect
          exact (admits_volume hn hcap hblocks htubelets h3d hratio).2
            (hvolume hblocks htubelets h3d)
        · exact admits_groups hn hcap hblocks htubelets h3d

/-- The clips of a request together stay within its budget. -/
theorem sum_chargeClips_le (hmax : 0 < limits.maxImageTokens) {clips : List Clip} {left : Int}
    {groups : Option Int} {charged : List Int} (hframes : ∀ clip ∈ clips, 1 ≤ clip.nframes)
    (hleft : 0 ≤ left) (hfits : FitsRequest floats limits clips left groups)
    (h : chargeClips floats limits clips left groups = .ok charged) : charged.sum ≤ left := by
  induction clips generalizing left groups charged with
  | nil =>
    cases h
    exact hleft
  | cons clip rest ih =>
    unfold chargeClips at h
    simp only [bind_eq_ok] at h
    obtain ⟨clamped, hclamp, restCharged, hrest, hpure⟩ := h
    cases hpure
    have hadmits := (admits_iff_fitsProfile (hframes clip List.mem_cons_self) hmax).2 hfits.1
    obtain ⟨-, -, hle, -⟩ := hadmits.within clamped.1 clamped.2 hclamp
    have hbudget : clamped.2 ≤ left := hle.trans (min_le_left _ _)
    have hsum := ih (fun c hc => hframes c (List.mem_cons_of_mem clip hc))
      (Int.sub_nonneg_of_le hbudget) (hfits.2 clamped.1 clamped.2 hclamp) hrest
    rw [List.sum_cons]
    omega

end Budget

/-- Integers in the place of floats. -/
def integerFloats : Floats Int where
  ofInt := id
  trueDiv := (· / ·)
  div := (· / ·)
  mul := (· * ·)
  sub := (· - ·)
  sqrt := id
  log := id
  abs := fun x => max x (-x)
  floor := id
  ceil := id
  round := id
  trunc := id
  lt := fun a b => decide (a < b)
  tolerance := 0
  iterate := id

/-- An engine for a thousand tokens, in blocks of 256. -/
def blockLimits : Limits Int where
  modelType := "internvl_vision"
  minImageTokens := 1
  maxImageTokens := 1000
  maxImageTokensPerImage := 0
  maxCuSeqlenGroups := 0
  patchSize := 0
  mergeSize := 0
  temporalPatchSize := 2
  maxImageTokensCheckpoint := 0
  maxVideoFrameTokens := 0
  videoPruningRate := 0
  videoTemporalPatchSize := 2
  videoTargetNumPatches := 1024
  downsampleRatio := 0
  internvlImageSize := 0
  internvlPatchSize := 0

end EdgeLLM.Ports.VideoBudget
