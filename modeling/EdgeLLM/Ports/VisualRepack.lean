import EdgeLLM.Ports.VisualBatch

/-!
# The repacked planes

The slots are repacked in ascending order, so a row is read before it is
overwritten: every plane holds the kept rows of every slot at the new pitch, and
the rotary rows of the generation range move down behind the kept ones.
-/

namespace EdgeLLM.Ports.VisualPruner

open Verified

/-! ## Gathered rows -/

variable {keepList : List Nat} {oldLen newLen r : Nat}

theorem keepHost_of_not_lt (h : ¬newLen < oldLen) (r : Nat) :
    keepHost keepList oldLen newLen r = r := if_neg h

theorem keepHost_kept (h : newLen < oldLen) (hr : r < newLen) :
    keepHost keepList oldLen newLen r = keepList.getD r 0 := by
  unfold keepHost
  rw [if_pos h, if_pos hr]

/-- The rows of the generation range follow the original length. -/
theorem keepHost_shifted (h : newLen ≤ oldLen) (hr : newLen ≤ r) :
    keepHost keepList oldLen newLen r = r + (oldLen - newLen) := by
  unfold keepHost
  rw [if_neg (Nat.not_lt.2 hr)]
  split
  · omega
  · omega

/-- The plane after its first `rows` rows have been gathered. -/
def Plane.gathered {α : Type} (oldPitch newPitch : Nat) (count : Nat → Nat)
    (keep : Nat → Nat → Nat) (rows : Nat) (plane : Plane α) : Plane α :=
  { plane with row := (List.range rows).foldl (gatherRow oldPitch newPitch count keep) plane.row }

section Gathering

variable {α : Type} {oldPitch newPitch i : Nat} {count : Nat → Nat} {keep : Nat → Nat → Nat}

theorem gathered_succ (plane : Plane α) :
    plane.gathered oldPitch newPitch count keep (i + 1) =
      { plane with
        row := gatherRow oldPitch newPitch count keep
          (plane.gathered oldPitch newPitch count keep i).row i } := by
  unfold Plane.gathered
  rw [List.range_succ, List.foldl_append]
  rfl

theorem gatherInto_gathered (plane : Plane α) :
    gatherInto (i * newPitch) (i * oldPitch) (count i) (keep i)
        (plane.gathered oldPitch newPitch count keep i) =
      plane.gathered oldPitch newPitch count keep (i + 1) := (gathered_succ plane).symm

theorem gathered_idle (plane : Plane α) (h : gatherRow oldPitch newPitch count keep
        (plane.gathered oldPitch newPitch count keep i).row i =
      (plane.gathered oldPitch newPitch count keep i).row) :
    plane.gathered oldPitch newPitch count keep i =
      plane.gathered oldPitch newPitch count keep (i + 1) := by
  rw [gathered_succ, h]
  rfl

theorem gatherRow_empty {buf : Nat → α} (h : count i = 0) :
    gatherRow oldPitch newPitch count keep buf i = buf := by
  unfold gatherRow
  rw [h]
  rfl

end Gathering

/-! ## The loop over the slots -/

section Loop

variable {α β : Type} {config : Config} {keepLists : Nat → List Nat} {oldLens newLens : Nat → Nat}
  {oldMaxLen newMaxLen batch : Nat}

/-- The lengths of the slots before and after the pass fit the planes. -/
structure FitsPlanes (config : Config) (oldLens newLens : Nat → Nat) (oldMaxLen newMaxLen batch : Nat) :
    Prop where
  le : ∀ i < batch, newLens i ≤ oldLens i
  zero : ∀ i < batch, newLens i = 0 → oldLens i = 0
  fits : ∀ i < batch, newLens i ≤ newMaxLen
  pitch : newMaxLen ≤ oldMaxLen
  capacity : ∀ i < batch, oldLens i ≤ config.maxKVCacheCapacity

/-- The planes after `rows` turns. -/
def repacked (config : Config) (keepLists : Nat → List Nat) (oldLens newLens : Nat → Nat)
    (oldMaxLen newMaxLen : Nat) (io : PipelineIo α β) (rows : Nat) : PipelineIo α β :=
  let keep := fun i => keepHost (keepLists i) (oldLens i) (newLens i)
  { inputsEmbeds := io.inputsEmbeds.gathered oldMaxLen newMaxLen newLens keep rows
    deepstackEmbeds := io.deepstackEmbeds.map
      (Plane.gathered oldMaxLen newMaxLen newLens keep rows)
    mropeActiveCosSin := io.mropeActiveCosSin.map
      (Plane.gathered config.maxKVCacheCapacity config.maxKVCacheCapacity
        (fun i => config.maxKVCacheCapacity - (oldLens i - newLens i)) keep rows) }

/-- One turn gathers the rows of its slot in every plane. -/
theorem repackSlot_repacked (h : FitsPlanes config oldLens newLens oldMaxLen newMaxLen batch)
    (io : PipelineIo α β) {i : Nat} (hi : i < batch) :
    repackSlot config keepLists oldLens newLens oldMaxLen newMaxLen
        (repacked config keepLists oldLens newLens oldMaxLen newMaxLen io i) i =
      repacked config keepLists oldLens newLens oldMaxLen newMaxLen io (i + 1) := by
  have hle := h.le i hi
  -- The rotary rows of a slot that keeps all its tokens stay where they are.
  have hrope : ¬0 < oldLens i - newLens i → ∀ plane : Plane β,
      plane.gathered config.maxKVCacheCapacity config.maxKVCacheCapacity
          (fun i => config.maxKVCacheCapacity - (oldLens i - newLens i))
          (fun i => keepHost (keepLists i) (oldLens i) (newLens i)) i =
        plane.gathered config.maxKVCacheCapacity config.maxKVCacheCapacity
          (fun i => config.maxKVCacheCapacity - (oldLens i - newLens i))
          (fun i => keepHost (keepLists i) (oldLens i) (newLens i)) (i + 1) := by
    intro hkept plane
    apply gathered_idle
    apply gatherRow_self rfl
    intro j _
    exact keepHost_of_not_lt (by omega) j
  unfold repackSlot
  dsimp only
  by_cases hidle : newLens i = 0 ∨ (oldLens i - newLens i = 0 ∧ (i = 0 ∨ newMaxLen = oldMaxLen))
  · rw [if_pos hidle]
    have hkept : ¬0 < oldLens i - newLens i := by
      have hzero := h.zero i hi
      omega
    have hembed : ∀ plane : Plane α, plane.gathered oldMaxLen newMaxLen newLens
            (fun i => keepHost (keepLists i) (oldLens i) (newLens i)) i =
          plane.gathered oldMaxLen newMaxLen newLens
            (fun i => keepHost (keepLists i) (oldLens i) (newLens i)) (i + 1) := by
      intro plane
      apply gathered_idle
      rcases hidle with hzero | hplace
      · exact gatherRow_empty hzero
      · apply gatherRow_self
        · cases hplace.2 with
          | inl hfirst => rw [hfirst, Nat.zero_mul, Nat.zero_mul]
          | inr hpitch => rw [hpitch]
        · intro j _
          exact keepHost_of_not_lt (by omega) j
    unfold repacked
    dsimp only
    rw [hembed io.inputsEmbeds, funext hembed, funext (hrope hkept)]
  · rw [if_neg hidle]
    unfold repacked
    dsimp only
    rw [List.map_map, Option.map_map, PipelineIo.mk.injEq]
    refine ⟨gatherInto_gathered _, congrArg (fun turn => List.map turn _)
      (funext gatherInto_gathered), congrArg (fun turn => Option.map turn _) (funext ?_)⟩
    intro plane
    show (if 0 < oldLens i - newLens i then _ else _) = _
    by_cases hpruned : 0 < oldLens i - newLens i
    · rw [if_pos hpruned]
      exact gatherInto_gathered plane
    · rw [if_neg hpruned]
      exact hrope hpruned plane

/-- A plane holds the kept rows of another at a new pitch. -/
structure Plane.Keeps (old new : Plane α) (oldPitch newPitch batch : Nat) (newLens : Nat → Nat)
    (keep : Nat → Nat → Nat) : Prop where
  width : new.width = newPitch
  row : ∀ i < batch, ∀ j < newLens i,
    new.row (i * newPitch + j) = old.row (i * oldPitch + keep i j)

theorem reshape_gathered {plane plane' : Plane α} {keep : Nat → Nat → Nat}
    (h : FitsPlanes config oldLens newLens oldMaxLen newMaxLen batch)
    (hreshape : (plane.gathered oldMaxLen newMaxLen newLens keep batch).reshape batch newMaxLen =
      .ok plane') : plane.Keeps plane' oldMaxLen newMaxLen batch newLens keep := by
  unfold Plane.reshape at hreshape
  rw [check_bind_eq_ok] at hreshape
  cases hreshape.2
  exact ⟨rfl, (gatherRows_get h.fits h.pitch).done⟩

theorem executeBatchCompaction_spec {io io' : PipelineIo α β}
    (h : FitsPlanes config oldLens newLens oldMaxLen newMaxLen batch)
    (hcompact : executeBatchCompaction config keepLists batch oldLens newLens oldMaxLen newMaxLen
      io = .ok io') : io.inputsEmbeds.Keeps io'.inputsEmbeds oldMaxLen newMaxLen batch newLens
        (fun i => keepHost (keepLists i) (oldLens i) (newLens i)) ∧
      List.Forall₂ (fun old new : Plane α => old.Keeps new oldMaxLen newMaxLen batch newLens
        fun i => keepHost (keepLists i) (oldLens i) (newLens i))
        io.deepstackEmbeds io'.deepstackEmbeds ∧
      Option.Rel (fun old new : Plane β => old.Keeps new config.maxKVCacheCapacity
        config.maxKVCacheCapacity batch
        (fun i => config.maxKVCacheCapacity - (oldLens i - newLens i))
        fun i => keepHost (keepLists i) (oldLens i) (newLens i))
        io.mropeActiveCosSin io'.mropeActiveCosSin := by
  unfold executeBatchCompaction at hcompact
  rw [check_bind_eq_ok, requireThat_eq_ok] at hcompact
  obtain ⟨hwidth, hcompact⟩ := hcompact
  rw [check_bind_eq_ok] at hcompact
  replace hcompact := hcompact.2
  have hloop := @foldl_range_eq (PipelineIo α β)
    (repackSlot config keepLists oldLens newLens oldMaxLen newMaxLen) batch
    (repacked config keepLists oldLens newLens oldMaxLen newMaxLen io)
    fun i hi => repackSlot_repacked h io hi
  have hstart : repacked config keepLists oldLens newLens oldMaxLen newMaxLen io 0 = io := by
    unfold repacked
    dsimp only
    rw [PipelineIo.mk.injEq]
    exact ⟨rfl, List.map_id _, congrFun Option.map_id io.mropeActiveCosSin⟩
  rw [hstart] at hloop
  dsimp only at hcompact
  rw [hloop, bind_eq_ok] at hcompact
  obtain ⟨inputsEmbeds, hinputs, hcompact⟩ := hcompact
  rw [bind_eq_ok] at hcompact
  obtain ⟨deepstackEmbeds, hdeepstack, hcompact⟩ := hcompact
  cases hcompact
  refine ⟨reshape_gathered h hinputs, ?_, ?_⟩
  · have hplanes := mapM_forall₂ hdeepstack
    unfold repacked at hplanes
    dsimp only at hplanes
    rw [List.forall₂_map_left_iff] at hplanes
    exact hplanes.imp fun _ _ hreshape => reshape_gathered h hreshape
  · unfold repacked
    dsimp only
    cases hrope : io.mropeActiveCosSin with
    | none => exact Option.Rel.none
    | some plane =>
      apply Option.Rel.some
      refine ⟨hwidth plane hrope, ?_⟩
      exact (gatherRows_get (fun i _ => Nat.sub_le _ _) (Nat.le_refl _)).done

end Loop

end EdgeLLM.Ports.VisualPruner
