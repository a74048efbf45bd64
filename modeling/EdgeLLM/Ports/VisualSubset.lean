import EdgeLLM.Ports.VisualAuxiliary
import EdgeLLM.Ports.VisualRepack
import EdgeLLM.Ports.VisualSelection

/-!
# One subset everywhere

A pass publishes one keep list for every slot: the text positions and the
retained visual ones.  The embeddings, the deepstack planes, the rotary rows,
the token ids and the visual features all hold the tokens of these lists, and
the lengths are theirs (`pruneBatch_consistent`).  A batch whose token ids do not
cover its prefill is left alone, and nothing is published for it.
-/

namespace EdgeLLM.Ports.VisualPruner

open Verified

/-! ## Published lists -/

/-- The published keep list of a slot. -/
def publishedKeep (state : PrunerState) (slot : Nat) : List Nat :=
  let start := state.keepStartOffsets.getD slot 0
  let stop := state.keepStartOffsets.getD (slot + 1) 0
  (state.concatenatedKeepIndices.drop start).take (stop - start)

section Publishing

variable {lengths : Nat → Nat} {state : PrunerState} {batch i : Nat}

/-- The keep list of a slot once it is published. -/
def publishedList (lengths : Nat → Nat) (lists : Nat → List Nat) (i : Nat) : List Nat :=
  if (lists i).isEmpty then List.range (lengths i) else lists i

/-- The state after the lists of `i` slots have been published. -/
def publishedAfter (lengths : Nat → Nat) (lists : Nat → List Nat) (i : Nat) : PrunerState where
  slotKeepLists := fun slot => if slot < i then publishedList lengths lists slot else lists slot
  keepStartOffsets := (List.range (i + 1)).map
    (blockStart fun slot => (publishedList lengths lists slot).length)
  concatenatedKeepIndices := (List.range i).flatMap (publishedList lengths lists)

theorem length_flatMap_range (lists : Nat → List Nat) (i : Nat) :
    ((List.range i).flatMap lists).length = blockStart (fun slot => (lists slot).length) i := by
  rw [List.length_flatMap]
  rfl

theorem publishKeepMap_eq : publishKeepMap lengths batch state =
    publishedAfter lengths state.slotKeepLists batch := by
  have hloop := @foldl_range_eq PrunerState (publishSlot lengths) batch
    (publishedAfter lengths state.slotKeepLists) (by
      intro i _
      have hown : (publishedAfter lengths state.slotKeepLists i).slotKeepLists i =
          state.slotKeepLists i := if_neg (Nat.lt_irrefl i)
      unfold publishSlot
      dsimp only
      rw [hown]
      show PrunerState.mk _ _ _ = PrunerState.mk _ _ _
      rw [PrunerState.mk.injEq]
      refine ⟨?_, ?_, flatMap_range_succ.symm⟩
      · funext slot
        by_cases heq : slot = i
        · rw [heq, Function.update_self, if_pos (Nat.lt_succ_self i)]
          rfl
        · rw [Function.update_of_ne heq]
          unfold publishedAfter
          dsimp only
          by_cases hlt : slot < i
          · rw [if_pos hlt, if_pos (Nat.lt_succ_of_lt hlt)]
          · rw [if_neg hlt, if_neg (by omega)]
      · show (List.range (i + 1)).map _ ++
            [((List.range i).flatMap (publishedList lengths state.slotKeepLists) ++
              publishedList lengths state.slotKeepLists i).length] = (List.range (i + 1 + 1)).map _
        rw [map_range_succ (i := i + 1), ← flatMap_range_succ, length_flatMap_range])
  exact hloop

theorem publishedKeep_eq {lists : Nat → List Nat} (hi : i < batch) :
    publishedKeep (publishedAfter lengths lists batch) i = publishedList lengths lists i := by
  have hsplit : (List.range batch).flatMap (publishedList lengths lists) =
      (List.range i).flatMap (publishedList lengths lists) ++ (publishedList lengths lists i ++
        (List.range' (i + 1) (batch - i - 1)).flatMap (publishedList lengths lists)) := by
    have hbatch : batch = i + 1 + (batch - i - 1) := by omega
    conv_lhs => rw [hbatch, List.range_add, List.flatMap_append, flatMap_range_succ]
    rw [List.append_assoc, List.range'_eq_map_range]
  unfold publishedKeep publishedAfter
  dsimp only
  rw [getD_map_range (Nat.lt_succ_of_lt hi), getD_map_range (Nat.succ_lt_succ hi),
    blockStart_succ, Nat.add_sub_cancel_left, hsplit, ← length_flatMap_range, List.drop_left,
    List.take_left]

end Publishing

/-! ## The selection of a slot -/

/-- A position that stays: one of the text, or a retained one if a set was returned. -/
def Stays (config : Config) (prune : Prune) (ids : List Int) (p : Nat) : Prop :=
  ids.getD p 0 ≠ config.imageTokenId ∨ ∀ req retained, pruneRequest config ids = some req →
    prune req = .ok (some retained) → (p : Int) ∈ retained

/-- The keep list of a slot. -/
structure SlotKeep (config : Config) (prune : Prune) (ids : List Int) (keep : List Nat) :
    Prop where
  ascending : keep.Pairwise (· < ·)
  mem_iff : ∀ p, p ∈ keep ↔ p < ids.length ∧ Stays config prune ids p

section Selecting

variable {config : Config} {prune : Prune} {ids : List Int}

theorem SlotKeep.length_le {keep : List Nat} (h : SlotKeep config prune ids keep) :
    keep.length ≤ ids.length :=
  ((sublist_range h.ascending fun p hp => ((h.mem_iff p).1 hp).1).length_le).trans
    (Nat.le_of_eq List.length_range)

theorem slotKeep_range (h : ∀ req retained, pruneRequest config ids = some req →
    prune req ≠ .ok (some retained)) : SlotKeep config prune ids (List.range ids.length) where
  ascending := List.pairwise_lt_range
  mem_iff := by
    intro p
    rw [List.mem_range]
    exact ⟨fun hp => ⟨hp, .inr fun req retained hreq hprune =>
      absurd hprune (h req retained hreq)⟩, fun hp => hp.1⟩

theorem slotKeep_keepIndices {req : PruneRequest} {retained : List Int}
    (hreq : pruneRequest config ids = some req) (hprune : prune req = .ok (some retained))
    (hretained : Retainable req retained) :
    SlotKeep config prune ids (keepIndices req retained) := by
  obtain ⟨himage, htext, -, -, -, horig⟩ := pruneRequest_eq_some hreq
  have hmem : ∀ p, p ∈ keepIndices req retained ↔ p ∈ req.textPositions ∨ (p : Int) ∈ retained := by
    intro p
    unfold keepIndices
    rw [List.mem_insertionSort, List.mem_append, List.mem_map]
    constructor
    · intro hp
      rcases hp with hp | hp
      · exact .inl hp
      · obtain ⟨idx, hidx, heq⟩ := hp
        have hpos := (hretained.visual idx hidx).1
        have hcast : (p : Int) = idx := by omega
        rw [hcast]
        exact .inr hidx
    · intro hp
      rcases hp with hp | hp
      · exact .inl hp
      · exact .inr ⟨p, hp, Int.toNat_natCast p⟩
  constructor
  · have hnodup : (keepIndices req retained).Nodup := by
      unfold keepIndices
      rw [(List.perm_insertionSort _ _).nodup_iff]
      apply List.Nodup.append
      · rw [htext]
        exact pairwise_textPositions.imp Nat.ne_of_lt
      · apply List.Nodup.map_on _ hretained.nodup
        intro a ha b hb hab
        have hapos := (hretained.visual a ha).1
        have hbpos := (hretained.visual b hb).1
        omega
      · intro p hp hp'
        obtain ⟨idx, hidx, rfl⟩ := List.mem_map.1 hp'
        have hvisual := (hretained.visual idx hidx).2.2
        rw [himage] at hvisual
        rw [htext] at hp
        exact (mem_textPositions.1 hp).2 (mem_imagePositions.1 hvisual).2
    have hsorted : (keepIndices req retained).Pairwise (· ≤ ·) :=
      List.pairwise_insertionSort _ _
    exact (hsorted.and hnodup).imp fun hboth => Nat.lt_of_le_of_ne hboth.1 hboth.2
  · intro p
    rw [hmem, htext, mem_textPositions]
    unfold Stays
    constructor
    · intro hp
      rcases hp with hp | hp
      · exact ⟨hp.1, .inl hp.2⟩
      · have hvisual := (hretained.visual p hp).2.1
        rw [horig] at hvisual
        refine ⟨Int.ofNat_lt.1 hvisual, .inr ?_⟩
        intro req' retained' hreq' hprune'
        rw [hreq] at hreq'
        cases hreq'
        rw [hprune] at hprune'
        cases hprune'
        exact hp
    · intro hp
      obtain ⟨hlt, hstays⟩ := hp
      rcases hstays with htoken | hall
      · exact .inl ⟨hlt, htoken⟩
      · exact .inr (hall req retained hreq hprune)

theorem selectForSlot_eq_ok {keep : Option (List Nat)}
    (h : selectForSlot config prune ids = .ok keep) :
    SlotKeep config prune ids (keep.getD (List.range ids.length)) ∧
      (0 < ids.length → 0 < prunedLength ids.length keep) ∧ keep ≠ some [] := by
  unfold selectForSlot at h
  cases hreq : pruneRequest config ids with
  | none =>
    rw [hreq] at h
    cases h
    refine ⟨?_, fun hpos => hpos, fun hnone => by cases hnone⟩
    apply slotKeep_range
    intro req retained hsome
    rw [hreq] at hsome
    cases hsome
  | some req =>
    rw [hreq] at h
    change (runPrune prune req >>= fun keep => _) = Except.ok keep at h
    rw [bind_eq_ok] at h
    obtain ⟨keep', hrun, h⟩ := h
    rw [check_bind_eq_ok, requireThat_eq_ok] at h
    obtain ⟨hlength, hpure⟩ := h
    cases hpure
    obtain ⟨himage, htext, -, -, hmore, horig⟩ := pruneRequest_eq_some hreq
    rw [horig] at hlength
    unfold runPrune at hrun
    rw [bind_eq_ok] at hrun
    obtain ⟨retained, hprune, hrun⟩ := hrun
    cases retained with
    | none =>
      cases hrun
      refine ⟨?_, fun hpos => hpos, fun hnone => by cases hnone⟩
      apply slotKeep_range
      intro req' retained' hreq' hprune'
      rw [hreq] at hreq'
      cases hreq'
      rw [hprune] at hprune'
      cases hprune'
    | some retained =>
      change compactToKeepList retained req = .ok keep at hrun
      rw [compactToKeepList_eq_ok, length_keepIndices] at hrun
      obtain ⟨hretained, hkeep⟩ := hrun
      have htotal := @length_positions config ids
      rw [← himage, ← htext, ← horig] at htotal
      have hle := hretained.length_le
      rw [if_neg (by omega)] at hkeep
      subst hkeep
      refine ⟨slotKeep_keepIndices hreq hprune hretained, fun _ => hlength.1, ?_⟩
      intro hnil
      have hzero := congrArg List.length (Option.some.inj hnil)
      rw [length_keepIndices, List.length_nil] at hzero
      exact hretained.nonempty (List.eq_nil_of_length_eq_zero (by omega))

end Selecting

/-- What a turn of the selection yields for the slot. -/
theorem selectSlot_eq_ok {config : Config} {prune : Nat → Prune} {hostTokenIds : List (List Int)}
    {i : Nat} {selection : SlotSelection}
    (h : selectSlot config prune hostTokenIds i = .ok selection) (lists : Nat → List Nat)
    (lengths : Nat → Nat) (hlist : lists i = selection.keepList)
    (hlength : lengths i = selection.prunedLen) :
    SlotKeep config (prune i) (hostTokenIds.getD i []) (publishedList lengths lists i) ∧
      (publishedList lengths lists i).length = lengths i ∧
      (0 < (hostTokenIds.getD i []).length → 0 < lengths i) := by
  unfold selectSlot at h
  dsimp only at h
  rw [bind_eq_ok] at h
  obtain ⟨keep, hselect, h⟩ := h
  rw [check_bind_eq_ok] at h
  obtain ⟨hkeep, hpos, hnonempty⟩ := selectForSlot_eq_ok hselect
  cases h.2
  dsimp only at hlist hlength
  rw [hlength]
  unfold publishedList
  rw [hlist, hlength]
  cases keep with
  | none => exact ⟨hkeep, List.length_range, hpos⟩
  | some keep =>
    cases keep with
    | nil => exact absurd rfl hnonempty
    | cons p rest => exact ⟨hkeep, rfl, hpos⟩

/-! ## The planes of a pass -/

/-- A plane holds the kept rows at the new pitch. -/
structure Plane.Holds {α : Type} (old new : Plane α) (keep : Nat → List Nat)
    (batch oldPitch newPitch : Nat) : Prop where
  width : old.width = oldPitch → new.width = newPitch
  row : ∀ i < batch, ∀ j < (keep i).length,
    new.row (i * newPitch + j) = old.row (i * oldPitch + (keep i).getD j 0)

/-- The rotary rows are the kept ones and behind them those of the generation range. -/
structure Plane.Continues {β : Type} (old new : Plane β) (keep : Nat → List Nat)
    (lens : Nat → Nat) (batch capacity : Nat) : Prop where
  kept : ∀ i < batch, ∀ j < (keep i).length,
    new.row (i * capacity + j) = old.row (i * capacity + (keep i).getD j 0)
  shifted : ∀ i < batch, ∀ r, (keep i).length ≤ r → r + (lens i - (keep i).length) < capacity →
    new.row (i * capacity + r) = old.row (i * capacity + (r + (lens i - (keep i).length)))

/-- The planes hold the tokens of the keep lists. -/
structure PipelineIo.Holds {α β : Type} (old new : PipelineIo α β) (config : Config)
    (keep : Nat → List Nat) (lens : Nat → Nat) (batch oldPitch newPitch : Nat) : Prop where
  inputsEmbeds : old.inputsEmbeds.Holds new.inputsEmbeds keep batch oldPitch newPitch
  deepstackEmbeds : List.Forall₂ (fun old new : Plane α => old.Holds new keep batch oldPitch newPitch)
    old.deepstackEmbeds new.deepstackEmbeds
  mropeActiveCosSin : Option.Rel (fun old new : Plane β =>
    old.Continues new keep lens batch config.maxKVCacheCapacity)
    old.mropeActiveCosSin new.mropeActiveCosSin

section Congruence

variable {α β : Type} {config : Config} {keep keep' : Nat → List Nat} {lens lens' : Nat → Nat}
  {io io' : PipelineIo α β} {batch oldPitch newPitch : Nat}

theorem PipelineIo.Holds.congr (h : io.Holds io' config keep lens batch oldPitch newPitch)
    (hkeep : ∀ i < batch, keep' i = keep i) (hlens : ∀ i < batch, lens' i = lens i) :
    io.Holds io' config keep' lens' batch oldPitch newPitch := by
  have hplane : ∀ old new : Plane α, old.Holds new keep batch oldPitch newPitch →
      old.Holds new keep' batch oldPitch newPitch := by
    intro old new hold
    refine ⟨hold.width, ?_⟩
    intro i hi j hj
    rw [hkeep i hi] at hj ⊢
    exact hold.row i hi j hj
  have hrope := h.mropeActiveCosSin
  refine ⟨hplane _ _ h.inputsEmbeds, h.deepstackEmbeds.imp hplane, ?_⟩
  generalize io.mropeActiveCosSin = rope at hrope
  generalize io'.mropeActiveCosSin = rope' at hrope
  cases hrope with
  | none => exact Option.Rel.none
  | some hcontinues =>
    apply Option.Rel.some
    constructor
    · intro i hi j hj
      rw [hkeep i hi] at hj ⊢
      exact hcontinues.kept i hi j hj
    · intro i hi r hr hcapacity
      rw [hkeep i hi, hlens i hi] at hcapacity ⊢
      rw [hkeep i hi] at hr
      exact hcontinues.shifted i hi r hr hcapacity

variable {newLens : Nat → Nat} {maxLen width : Nat}

theorem holds_self (hkeep : ∀ i < batch, keep i = List.range (lens i)) :
    io.Holds io config keep lens batch maxLen maxLen := by
  have hrow : ∀ i < batch, ∀ j < (keep i).length, (keep i).getD j 0 = j := by
    intro i hi j hj
    rw [hkeep i hi, List.length_range] at hj
    rw [hkeep i hi, List.getD_eq_getElem _ _ (by rwa [List.length_range]), List.getElem_range]
  have hplane : ∀ plane : Plane α, plane.Holds plane keep batch maxLen maxLen := by
    intro plane
    refine ⟨fun hwidth => hwidth, ?_⟩
    intro i hi j hj
    rw [hrow i hi j hj]
  refine ⟨hplane _, List.forall₂_same.2 fun plane _ => hplane plane, ?_⟩
  cases io.mropeActiveCosSin with
  | none => exact Option.Rel.none
  | some plane =>
    apply Option.Rel.some
    constructor
    · intro i hi j hj
      rw [hrow i hi j hj]
    · intro i hi r _ _
      rw [hkeep i hi, List.length_range, Nat.sub_self, Nat.add_zero]

theorem holds_of_compaction {keepLists : Nat → List Nat}
    (h : FitsPlanes config lens newLens maxLen width batch)
    (hlists : ∀ i < batch, keepLists i = keep i)
    (hlength : ∀ i < batch, (keep i).length = newLens i)
    (hrange : ∀ i < batch, newLens i = lens i → keep i = List.range (lens i))
    (hcompact : executeBatchCompaction config keepLists batch lens newLens maxLen width io =
      .ok io') : io.Holds io' config keep lens batch maxLen width := by
  obtain ⟨hinputs, hdeepstack, hrope⟩ := executeBatchCompaction_spec h hcompact
  have hrow : ∀ i < batch, ∀ j < newLens i,
      keepHost (keepLists i) (lens i) (newLens i) j = (keep i).getD j 0 := by
    intro i hi j hj
    have hle := h.le i hi
    by_cases hpruned : newLens i < lens i
    · rw [keepHost_kept hpruned hj, hlists i hi]
    · rw [keepHost_of_not_lt hpruned, hrange i hi (by omega),
        List.getD_eq_getElem _ _ (by rw [List.length_range]; omega), List.getElem_range]
  have hplane : ∀ old new : Plane α, old.Keeps new maxLen width batch newLens
      (fun i => keepHost (keepLists i) (lens i) (newLens i)) →
      old.Holds new keep batch maxLen width := by
    intro old new hkeeps
    refine ⟨fun _ => hkeeps.width, ?_⟩
    intro i hi j hj
    rw [hlength i hi] at hj
    rw [hkeeps.row i hi j hj, hrow i hi j hj]
  refine ⟨hplane _ _ hinputs, hdeepstack.imp hplane, ?_⟩
  generalize io.mropeActiveCosSin = rope at hrope
  generalize io'.mropeActiveCosSin = rope' at hrope
  cases hrope with
  | none => exact Option.Rel.none
  | some hkeeps =>
    apply Option.Rel.some
    constructor
    · intro i hi j hj
      rw [hlength i hi] at hj
      have hle := h.le i hi
      have hcapacity := h.capacity i hi
      rw [hkeeps.row i hi j (by omega), hrow i hi j hj]
    · intro i hi r hr hcapacity
      rw [hlength i hi] at hr hcapacity ⊢
      rw [hkeeps.row i hi r (by omega), keepHost_shifted (h.le i hi) hr]

/-! ## A pass -/

variable {prune : Nat → Prune} {hostTokenIds : List (List Int)} {lists : Nat → List Nat}

/-- The slots of a pass, with their lengths before and after. -/
structure SelectedSlots (config : Config) (prune : Nat → Prune) (hostTokenIds : List (List Int))
    (lens newLens : Nat → Nat) (lists : Nat → List Nat) (maxLen batch : Nat) : Prop where
  fits : maxLen ≤ config.maxInputLength
  ids : ∀ i < batch, (hostTokenIds.getD i []).length = lens i
  le : ∀ i < batch, lens i ≤ maxLen
  selected : ∀ i < batch, ∃ selection, selectSlot config prune hostTokenIds i = .ok selection ∧
    lists i = selection.keepList ∧ newLens i = selection.prunedLen

theorem SelectedSlots.slotKeep
    (h : SelectedSlots config prune hostTokenIds lens newLens lists maxLen batch) {i : Nat}
    (hi : i < batch) :
    SlotKeep config (prune i) (hostTokenIds.getD i []) (publishedList newLens lists i) ∧
      (publishedList newLens lists i).length = newLens i ∧ (0 < lens i → 0 < newLens i) := by
  obtain ⟨selection, hselect, hlist, hlength⟩ := h.selected i hi
  have hslot := selectSlot_eq_ok hselect lists newLens hlist hlength
  rw [h.ids i hi] at hslot
  exact hslot

theorem SelectedSlots.newLens_le
    (h : SelectedSlots config prune hostTokenIds lens newLens lists maxLen batch) {i : Nat}
    (hi : i < batch) : newLens i ≤ lens i := by
  obtain ⟨hkeep, hlength, -⟩ := h.slotKeep hi
  rw [← hlength, ← h.ids i hi]
  exact hkeep.length_le

/-- A slot that keeps its length keeps all its tokens. -/
theorem SelectedSlots.eq_range
    (h : SelectedSlots config prune hostTokenIds lens newLens lists maxLen batch) {i : Nat}
    (hi : i < batch) (hsame : newLens i = lens i) :
    publishedList newLens lists i = List.range (lens i) := by
  obtain ⟨hkeep, hlength, -⟩ := h.slotKeep hi
  have hsublist := sublist_range hkeep.ascending fun p hp => ((hkeep.mem_iff p).1 hp).1
  rw [h.ids i hi] at hsublist
  apply hsublist.eq_of_length
  rw [hlength, hsame, List.length_range]

theorem SelectedSlots.fitsPlanes
    (h : SelectedSlots config prune hostTokenIds lens newLens lists maxLen batch)
    (hwidth : width = (List.range batch).foldl (fun most i => max most (newLens i)) 0) :
    FitsPlanes config lens newLens maxLen width batch where
  le := fun i hi => h.newLens_le hi
  zero := by
    intro i hi hzero
    have hpos := (h.slotKeep hi).2.2
    omega
  fits := by
    intro i hi
    rw [hwidth]
    exact le_foldl_max hi
  pitch := by
    rw [hwidth]
    exact foldl_max_le fun i hi => (h.newLens_le hi).trans (h.le i hi)
  capacity := fun i hi => ((h.le i hi).trans h.fits).trans config.maxInputLength_le

/-- A pass holds the tokens of the lists it publishes, whether it repacks or not. -/
theorem SelectedSlots.holds
    (h : SelectedSlots config prune hostTokenIds lens newLens lists maxLen batch)
    (hpruned : (∃ i < batch, newLens i < lens i) →
      width = (List.range batch).foldl (fun most i => max most (newLens i)) 0 ∧
        executeBatchCompaction config (publishedAfter newLens lists batch).slotKeepLists batch lens
          newLens maxLen width io = .ok io')
    (hkept : (¬∃ i < batch, newLens i < lens i) → width = maxLen ∧ io' = io) :
    io.Holds io' config (publishedList newLens lists) lens batch maxLen width := by
  by_cases hany : ∃ i < batch, newLens i < lens i
  · obtain ⟨hwidth, hcompact⟩ := hpruned hany
    apply holds_of_compaction (h.fitsPlanes hwidth) _ (fun i hi => (h.slotKeep hi).2.1)
      (fun i hi hsame => h.eq_range hi hsame) hcompact
    intro i hi
    exact if_pos hi
  · obtain ⟨rfl, rfl⟩ := hkept hany
    apply holds_self
    intro i hi
    apply h.eq_range hi
    have hle := h.newLens_le hi
    have hnot : ¬newLens i < lens i := fun hlt => hany ⟨i, hi, hlt⟩
    omega

/-- The result of a pass agrees with the keep lists it publishes. -/
structure PruneResult.Consistent (pruned : PruneResult α β) (config : Config)
    (prune : Nat → Prune) (hostTokenIds : List (List Int)) (io : PipelineIo α β)
    (effectiveLens : List Nat) (maxLen : Nat) : Prop where
  keepStartOffsets : pruned.state.keepStartOffsets =
    (List.range (io.inputsEmbeds.batch + 1)).map
      (blockStart fun i => (publishedKeep pruned.state i).length)
  concatenatedKeepIndices : pruned.state.concatenatedKeepIndices =
    (List.range io.inputsEmbeds.batch).flatMap (publishedKeep pruned.state)
  slotKeepLists : ∀ i < io.inputsEmbeds.batch,
    pruned.state.slotKeepLists i = publishedKeep pruned.state i
  slot : ∀ i < io.inputsEmbeds.batch,
    SlotKeep config (prune i) (hostTokenIds.getD i []) (publishedKeep pruned.state i)
  planes : io.Holds pruned.io config (publishedKeep pruned.state)
    (fun i => (hostTokenIds.getD i []).length) io.inputsEmbeds.batch maxLen pruned.width
  effectiveLens_length : pruned.effectiveLens.length = effectiveLens.length
  keptLens : ∀ i < io.inputsEmbeds.batch,
    pruned.effectiveLens.getD i 0 = (publishedKeep pruned.state i).length
  otherLens : ∀ i, io.inputsEmbeds.batch ≤ i →
    pruned.effectiveLens.getD i 0 = effectiveLens.getD i 0
  prunedTokens : pruned.prunedTokens = (List.range io.inputsEmbeds.batch).map fun i =>
    (hostTokenIds.getD i []).length - (publishedKeep pruned.state i).length
  width_pruned : (∃ i < io.inputsEmbeds.batch,
      (publishedKeep pruned.state i).length < (hostTokenIds.getD i []).length) →
    pruned.width = (List.range io.inputsEmbeds.batch).foldl
      (fun most i => max most (publishedKeep pruned.state i).length) 0
  width_kept : (¬∃ i < io.inputsEmbeds.batch,
      (publishedKeep pruned.state i).length < (hostTokenIds.getD i []).length) →
    pruned.width = maxLen

theorem foldl_max_congr {f g : Nat → Nat} {n : Nat} (h : ∀ i < n, f i = g i) :
    (List.range n).foldl (fun most i => max most (f i)) 0 =
      (List.range n).foldl (fun most i => max most (g i)) 0 := by
  apply Nat.le_antisymm
  · exact foldl_max_le fun i hi => (Nat.le_of_eq (h i hi)).trans (le_foldl_max hi)
  · exact foldl_max_le fun i hi => (Nat.le_of_eq (h i hi).symm).trans (le_foldl_max hi)

theorem SelectedSlots.consistent {pruned : PruneResult α β} {effectiveLens : List Nat}
    (h : SelectedSlots config prune hostTokenIds lens newLens lists maxLen io.inputsEmbeds.batch)
    (hstate : pruned.state = publishedAfter newLens lists io.inputsEmbeds.batch)
    (hpruned : (∃ i < io.inputsEmbeds.batch, newLens i < lens i) →
      pruned.width = (List.range io.inputsEmbeds.batch).foldl
          (fun most i => max most (newLens i)) 0 ∧ executeBatchCompaction config
          (publishedAfter newLens lists io.inputsEmbeds.batch).slotKeepLists
          io.inputsEmbeds.batch lens newLens maxLen pruned.width io = .ok pruned.io)
    (hkept : (¬∃ i < io.inputsEmbeds.batch, newLens i < lens i) →
      pruned.width = maxLen ∧ pruned.io = io)
    (hlength : pruned.effectiveLens.length = effectiveLens.length)
    (hlens : ∀ i < io.inputsEmbeds.batch, pruned.effectiveLens.getD i 0 = newLens i)
    (hothers : ∀ i, io.inputsEmbeds.batch ≤ i →
      pruned.effectiveLens.getD i 0 = effectiveLens.getD i 0) (htokens : pruned.prunedTokens =
      (List.range io.inputsEmbeds.batch).map fun i => lens i - newLens i) :
    pruned.Consistent config prune hostTokenIds io effectiveLens maxLen := by
  have hkeep : ∀ i < io.inputsEmbeds.batch,
      publishedKeep pruned.state i = publishedList newLens lists i := by
    intro i hi
    rw [hstate]
    exact publishedKeep_eq hi
  have hcount : ∀ i < io.inputsEmbeds.batch, (publishedKeep pruned.state i).length = newLens i := by
    intro i hi
    rw [hkeep i hi]
    exact (h.slotKeep hi).2.1
  -- The condition of the pass in terms of the published lists.
  have hany : (∃ i < io.inputsEmbeds.batch,
      (publishedKeep pruned.state i).length < (hostTokenIds.getD i []).length) ↔
      ∃ i < io.inputsEmbeds.batch, newLens i < lens i := by
    constructor
    · intro hsome
      obtain ⟨i, hi, hlt⟩ := hsome
      rw [hcount i hi, h.ids i hi] at hlt
      exact ⟨i, hi, hlt⟩
    · intro hsome
      obtain ⟨i, hi, hlt⟩ := hsome
      refine ⟨i, hi, ?_⟩
      rw [hcount i hi, h.ids i hi]
      exact hlt
  have hstarts : ∀ i ≤ io.inputsEmbeds.batch,
      blockStart (fun slot => (publishedList newLens lists slot).length) i =
        blockStart (fun slot => (publishedKeep pruned.state slot).length) i := by
    intro i hi
    unfold blockStart
    congr 1
    apply List.map_congr_left
    intro slot hslot
    rw [hkeep slot (Nat.lt_of_lt_of_le (List.mem_range.1 hslot) hi)]
  refine ⟨?_, ?_, ?_, ?_, ?_, hlength, ?_, hothers, ?_, ?_, ?_⟩
  · conv_lhs => rw [hstate]
    apply List.map_congr_left
    intro i hi
    exact hstarts i (Nat.le_of_lt_succ (List.mem_range.1 hi))
  · conv_lhs => rw [hstate]
    apply List.flatMap_congr
    intro i hi
    exact (hkeep i (List.mem_range.1 hi)).symm
  · intro i hi
    rw [hkeep i hi, hstate]
    exact if_pos hi
  · intro i hi
    rw [hkeep i hi]
    exact (h.slotKeep hi).1
  · exact (h.holds hpruned hkept).congr hkeep fun i hi => h.ids i hi
  · intro i hi
    rw [hlens i hi, hcount i hi]
  · rw [htokens]
    apply List.map_congr_left
    intro i hi
    rw [hcount i (List.mem_range.1 hi), h.ids i (List.mem_range.1 hi)]
  · intro hsome
    rw [(hpruned (hany.1 hsome)).1]
    exact foldl_max_congr fun i hi => (hcount i hi).symm
  · intro hnone
    exact (hkept fun hsome => hnone (hany.2 hsome)).1

end Congruence

end EdgeLLM.Ports.VisualPruner
