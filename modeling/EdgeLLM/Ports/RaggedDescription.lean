import EdgeLLM.Ports.RaggedRows

/-!
# The layout that a batch describes

`Describes` says of every cell of a batch and of every entry of its vectors
what they are, in terms of the step alone.  `buildInto` describes its step, two
batches that describe one step have the same contents, and the validation
accepts what describes an admitted step.
-/

namespace EdgeLLM.Ports.RaggedBatch

open Verified

/-- Two batches with the same contents; what lies past the cells in use may
differ. -/
structure SameContents (b b' : RaggedExecutionBatch) : Prop where
  stepId : b.stepId = b'.stepId
  layout : b.layout = b'.layout
  shape : b.shape = b'.shape
  hostTokenIds : b.hostTokenIds.buffer.contents = b'.hostTokenIds.buffer.contents
  sequenceOrder : b.sequenceOrder = b'.sequenceOrder
  positions : b.positions.contents = b'.positions.contents
  queryStartOffsets : b.queryStartOffsets = b'.queryStartOffsets
  queryLengths : b.queryLengths = b'.queryLengths
  pastLengths : b.pastLengths = b'.pastLengths
  attentionSequenceLengths : b.attentionSequenceLengths = b'.attentionSequenceLengths
  stateIndices : b.stateIndices = b'.stateIndices
  logitsIndices : b.logitsIndices = b'.logitsIndices
  logitsToSequence : b.logitsToSequence = b'.logitsToSequence
  sequenceWorks : b.sequenceWorks = b'.sequenceWorks

namespace ScheduledStep

variable (step : ScheduledStep)

/-- The sequences of the step, by index. -/
def rows {α : Type} (f : Nat → α) : List α := (List.range step.sequences.length).map f

/-- Cell `j` of row `i` of the tokens. -/
def token (i j : Nat) : Int :=
  if (j : Int) < (step.row i).queryLength then (step.row i).queryTokens.read j
  else paddingTokenId

/-- Cell `j` of row `i` of the positions. -/
def position (i j : Nat) : Int :=
  if (j : Int) < (step.row i).queryLength then (step.row i).pastLength + j else paddingSentinel

end ScheduledStep

/-- The batch is the layout of the step. -/
structure Describes (step : ScheduledStep) (batch : RaggedExecutionBatch) : Prop where
  stepId : batch.stepId = step.id
  layout : batch.layout = .entryPaddedCompatibility
  shape : batch.shape = step.shape
  tokens_size : batch.hostTokenIds.buffer.size = step.sequences.length * step.width
  tokens : ∀ i < step.sequences.length, ∀ j < step.width,
    batch.hostTokenIds.buffer.cell (i * step.width + j) = step.token i j
  positions_size : batch.positions.size = step.sequences.length * step.width
  positions : ∀ i < step.sequences.length, ∀ j < step.width,
    batch.positions.cell (i * step.width + j) = step.position i j
  queryStartOffsets : batch.queryStartOffsets =
    step.rows step.offset ++ [step.offset step.sequences.length]
  queryLengths : batch.queryLengths = step.rows fun k => (step.row k).queryLength
  pastLengths : batch.pastLengths = step.rows fun k => (step.row k).pastLength
  attentionSequenceLengths : batch.attentionSequenceLengths =
    step.rows fun k => (step.row k).pastLength + (step.row k).queryLength
  stateIndices : batch.stateIndices = step.rows fun k => (step.row k).identity.resident.slot
  sequenceOrder : batch.sequenceOrder = step.rows fun k => (step.row k).identity
  sequenceWorks : batch.sequenceWorks = step.rows fun k => (step.row k).work
  logitsIndices : batch.logitsIndices =
    (step.logitsRows step.sequences.length).map step.logitsIndex
  logitsToSequence : batch.logitsToSequence =
    (step.logitsRows step.sequences.length).map fun k : Nat => (k : Int)

variable {α : Type} {contract : RaggedEngineContract} {sequences : List ScheduledSequence} {i : Nat}

/-- Buffers that agree row by row have the same contents. -/
theorem contents_eq_of_rows {b b' : Buffer α} {rows width : Nat} {value : Nat → Nat → α}
    (hsize : b.size = rows * width) (hsize' : b'.size = rows * width)
    (hcell : ∀ i < rows, ∀ j < width, b.cell (i * width + j) = value i j)
    (hcell' : ∀ i < rows, ∀ j < width, b'.cell (i * width + j) = value i j) :
    b.contents = b'.contents := by
  apply Buffer.contents_congr (hsize.trans hsize'.symm)
  intro a ha
  rw [hsize] at ha
  have hrow : a / width < rows := row_lt_of_lt ha
  have hcol : a % width < width := col_lt_of_lt ha
  rw [← index_eq a width, hcell _ hrow _ hcol, hcell' _ hrow _ hcol]

theorem Describes.sameContents {step : ScheduledStep} {b b' : RaggedExecutionBatch}
    (h : Describes step b) (h' : Describes step b') : SameContents b b' where
  stepId := h.stepId.trans h'.stepId.symm
  layout := h.layout.trans h'.layout.symm
  shape := h.shape.trans h'.shape.symm
  hostTokenIds := contents_eq_of_rows h.tokens_size h'.tokens_size h.tokens h'.tokens
  sequenceOrder := h.sequenceOrder.trans h'.sequenceOrder.symm
  positions := contents_eq_of_rows h.positions_size h'.positions_size h.positions h'.positions
  queryStartOffsets := h.queryStartOffsets.trans h'.queryStartOffsets.symm
  queryLengths := h.queryLengths.trans h'.queryLengths.symm
  pastLengths := h.pastLengths.trans h'.pastLengths.symm
  attentionSequenceLengths := h.attentionSequenceLengths.trans h'.attentionSequenceLengths.symm
  stateIndices := h.stateIndices.trans h'.stateIndices.symm
  logitsIndices := h.logitsIndices.trans h'.logitsIndices.symm
  logitsToSequence := h.logitsToSequence.trans h'.logitsToSequence.symm
  sequenceWorks := h.sequenceWorks.trans h'.sequenceWorks.symm

/-! ## Admitted steps -/

theorem AdmitsAll.admissible {tally : StepTally} (h : AdmitsAll contract tally sequences) :
    ∀ sequence ∈ sequences, Admissible contract sequence := by
  induction sequences generalizing tally with
  | nil =>
    intro sequence hmem
    cases hmem
  | cons first rest ih =>
    intro sequence hmem
    rcases List.mem_cons.1 hmem with heq | hrest
    · subst heq
      exact h.1.admissible
    · exact ih h.2 sequence hrest

/-- No two sequences share a request or a slot. -/
theorem AdmitsAll.nodup {tally : StepTally} (h : AdmitsAll contract tally sequences)
    (hrequests : tally.requestIdentities.Nodup) (hslots : tally.residentSlots.Nodup) :
    (tally.requestIdentities.reverse ++ sequences.map fun s => s.identity.requestId).Nodup ∧
      (tally.residentSlots.reverse ++ sequences.map fun s => s.identity.resident.slot).Nodup := by
  induction sequences generalizing tally with
  | nil =>
    simp only [List.map_nil, List.append_nil]
    exact ⟨List.nodup_reverse.2 hrequests, List.nodup_reverse.2 hslots⟩
  | cons sequence rest ih =>
    have hnext := ih h.2 (List.nodup_cons.2 ⟨h.1.requestId, hrequests⟩)
      (List.nodup_cons.2 ⟨h.1.slot, hslots⟩)
    simpa only [StepTally.count, List.reverse_cons, List.append_assoc, List.singleton_append,
      List.map_cons] using hnext

theorem ScheduledStep.queryLength_le {step : ScheduledStep} (hi : i < step.sequences.length) :
    (step.row i).queryLength ≤ (step.tally step.sequences.length).queryWidth := by
  rw [tally_length]
  exact StepTally.queryLength_le_foldl (row_mem hi)

namespace Admitted

variable {contract : RaggedEngineContract} {step : ScheduledStep} (h : Admitted contract step)
include h

theorem admissible {i : Nat} (hi : i < step.sequences.length) :
    Admissible contract (step.row i) := h.admits.admissible _ (ScheduledStep.row_mem hi)

theorem length_pos : 0 < step.sequences.length := by
  have hnonempty := h.nonempty
  rw [List.isEmpty_eq_false_iff] at hnonempty
  exact List.length_pos_iff.2 hnonempty

theorem queryWidth_pos : 0 < (step.tally step.sequences.length).queryWidth :=
  Int.lt_of_lt_of_le (h.admissible h.length_pos).queryLength_pos (ScheduledStep.queryLength_le h.length_pos)

theorem queryWidth_eq : (step.tally step.sequences.length).queryWidth = step.width :=
  (Int.toNat_of_nonneg (Int.le_of_lt h.queryWidth_pos)).symm

theorem queryWidth_le : (step.tally step.sequences.length).queryWidth ≤ contract.maxQueryLength := by
  rw [ScheduledStep.tally_length]
  apply StepTally.foldl_queryWidth_le
  · have hpositive := h.admissible h.length_pos
    exact Int.le_trans (Int.le_of_lt hpositive.queryLength_pos) hpositive.queryLength_le
  · intro sequence hmem
    exact (h.admits.admissible sequence hmem).queryLength_le

theorem toNat_queryLength_le {i : Nat} (hi : i < step.sequences.length) :
    (step.row i).queryLength.toNat ≤ step.width := by
  have hle := ScheduledStep.queryLength_le hi
  rw [h.queryWidth_eq] at hle
  omega

theorem physicalTokens_eq :
    step.shape.physicalTokens = ((step.sequences.length * step.width : Nat) : Int) := by
  show (step.sequences.length : Int) * _ = _
  rw [h.queryWidth_eq, Int.natCast_mul]

end Admitted

theorem writeAll_fill {count : Nat} {value : Int} {buf : Nat → Int} {a : Nat} (ha : a < count) :
    writeAll (rowWrites 0 count fun _ => value) buf a = value := by
  apply writeAll_of_mem
  · exact ⟨(0 + a, value), List.mem_map.2 ⟨a, List.mem_range.2 ha, rfl⟩, Nat.zero_add a⟩
  · intro w hw _
    obtain ⟨_, -, rfl⟩ := List.mem_map.1 hw
    rfl

/-- The batch that `buildInto` makes describes its step. -/
theorem Admitted.describes {step : ScheduledStep} (h : Admitted contract step)
    (tensor : HostTokenIds) :
    Describes step (step.batch contract (tensor.resized step.shape.physicalTokens)) := by
  have hsize : step.shape.physicalTokens.toNat = step.sequences.length * step.width := by
    rw [h.physicalTokens_eq, Int.toNat_natCast]
  have hfits : ∀ k < step.sequences.length, (step.row k).queryLength.toNat ≤ step.width :=
    fun k hk => h.toNat_queryLength_le hk
  have hlength (i j : Nat) : j < (step.row i).queryLength.toNat ↔
      (j : Int) < (step.row i).queryLength := by omega
  refine
    { stepId := rfl
      layout := ?_
      shape := rfl
      tokens_size := hsize
      tokens := ?_
      positions_size := hsize
      positions := ?_
      queryStartOffsets := ?_
      queryLengths := rfl
      pastLengths := rfl
      attentionSequenceLengths := rfl
      stateIndices := rfl
      sequenceOrder := rfl
      sequenceWorks := rfl
      logitsIndices := rfl
      logitsToSequence := rfl }
  · have hvalid := h.valid
    unfold validateContract at hvalid
    rw [check_bind_eq_ok, requireThat_eq_ok] at hvalid
    exact hvalid.1
  · intro i hi j hj
    show writeAll _ (writeAll (rowWrites 0 step.shape.physicalTokens.toNat _) _) _ = _
    rw [writeAll_rows_start hfits hj, hsize, writeAll_fill (index_lt hi hj)]
    unfold ScheduledStep.token
    simp only [hi, true_and, hlength]
  · intro i hi j hj
    show writeAll _ (fun _ => paddingSentinel) _ = _
    rw [writeAll_rows_start hfits hj]
    unfold ScheduledStep.position
    simp only [hi, true_and, hlength]
  · show (assigned _ _ (List.replicate _ _)).set _ _ = _
    have hoffset : step.shape.physicalTokens = step.offset step.sequences.length :=
      h.physicalTokens_eq
    rw [hoffset, set_assigned (by rw [List.length_replicate]; exact Nat.lt_succ_self _),
      assigned_all (Nat.le_of_eq List.length_replicate), map_range_succ]
    rfl

/-! ## Validation -/

theorem mem_take_map_range {f : Nat → α} {n : Nat} {x : α} (hi : i < n)
    (h : x ∈ ((List.range n).map f).take i) : ∃ k < i, f k = x := by
  rw [← List.map_take, List.take_range, Nat.min_eq_left (Nat.le_of_lt hi)] at h
  obtain ⟨k, hk, hx⟩ := List.mem_map.1 h
  exact ⟨k, List.mem_range.1 hk, hx⟩

/-- Row `i` of an admitted step is no earlier row. -/
theorem Admitted.row_ne {step : ScheduledStep} (h : Admitted contract step) {k : Nat}
    (hi : i < step.sequences.length) (hk : k < i) :
    (step.row k).identity.requestId ≠ (step.row i).identity.requestId ∧
      (step.row k).identity.resident.slot ≠ (step.row i).identity.resident.slot := by
  obtain ⟨hrequests, hslots⟩ := h.admits.nodup List.nodup_nil List.nodup_nil
  have hk' : k < step.sequences.length := Nat.lt_trans hk hi
  rw [ScheduledStep.row_eq hi, ScheduledStep.row_eq hk']
  constructor
  · have hne := List.pairwise_iff_getElem.1 hrequests k i
    simp only [StepTally.start, List.reverse_nil, List.nil_append, List.length_map,
      List.getElem_map] at hne
    exact hne hk' hi hk
  · have hne := List.pairwise_iff_getElem.1 hslots k i
    simp only [StepTally.start, List.reverse_nil, List.nil_append, List.length_map,
      List.getElem_map] at hne
    exact hne hk' hi hk

/-- The counters of the validation after `i` rows. -/
def ScheduledStep.executionTally (step : ScheduledStep) (i : Nat) : ExecutionTally :=
  ⟨(step.tally i).validTokens, (step.tally i).numContextSequences, (step.tally i).numContextTokens⟩

section Validate

variable {contract : RaggedEngineContract} {step : ScheduledStep} {b : RaggedExecutionBatch}

theorem countRow_eq (h : Admitted contract step) {i : Nat} (hi : i < step.sequences.length) :
    countRow (step.row i).work (step.row i).queryLength (step.executionTally i) =
      .ok (step.executionTally (i + 1)) := by
  unfold countRow ScheduledStep.executionTally
  rw [ScheduledStep.tally_succ hi]
  unfold StepTally.count
  by_cases hwork : (step.row i).work = .context
  · simp only [hwork, if_true]
    rfl
  · have hdecode : (step.row i).work = .decode := by
      cases hcase : (step.row i).work with
      | context => exact absurd hcase hwork
      | decode => rfl
    have hone : (step.row i).queryLength = 1 := (h.admissible hi).decode hwork
    simp only [hwork, if_false]
    rw [requireThat_of ⟨hdecode, hone⟩]
    rfl

theorem validateToken_eq (hb : Describes step b) {i j : Nat} (hi : i < step.sequences.length)
    (hj : j < step.width) :
    validateToken b (i * step.width) (step.row i).queryLength (step.row i).pastLength j =
      .ok () := by
  have htoken := hb.tokens i hi j hj
  have hposition := hb.positions i hi j hj
  unfold ScheduledStep.token at htoken
  unfold ScheduledStep.position at hposition
  unfold validateToken
  by_cases hlt : (j : Int) < (step.row i).queryLength
  · rw [if_pos hlt] at hposition ⊢
    exact requireThat_of hposition
  · rw [if_neg hlt] at htoken hposition ⊢
    rw [requireThat_of htoken]
    exact requireThat_of hposition

/-- The validation of a row goes through and counts it. -/
theorem validateRow_eq (h : Admitted contract step) (hb : Describes step b) {i : Nat}
    (hi : i < step.sequences.length) :
    validateRow b contract (step.executionTally i) i = .ok (step.executionTally (i + 1)) := by
  have hadmissible := h.admissible hi
  have hwidth : b.shape.queryWidth = step.width := by
    rw [hb.shape]
    exact h.queryWidth_eq
  have hoffset : b.queryStartOffsets.getD i 0 = step.offset i := by
    rw [hb.queryStartOffsets, List.getD_append _ _ _ _ (by
      rw [ScheduledStep.rows, List.length_map, List.length_range]
      exact hi)]
    exact getD_map_range hi
  have hqueryLength : b.queryLengths.getD i 0 = (step.row i).queryLength := by
    rw [hb.queryLengths]
    exact getD_map_range hi
  have hpast : b.pastLengths.getD i 0 = (step.row i).pastLength := by
    rw [hb.pastLengths]
    exact getD_map_range hi
  have hattention : b.attentionSequenceLengths.getD i 0 =
      (step.row i).pastLength + (step.row i).queryLength := by
    rw [hb.attentionSequenceLengths]
    exact getD_map_range hi
  have hslot : b.stateIndices.getD i 0 = (step.row i).identity.resident.slot := by
    rw [hb.stateIndices]
    exact getD_map_range hi
  have hidentity : b.sequenceOrder.getD i ⟨0, ⟨-1, 0⟩⟩ = (step.row i).identity := by
    rw [hb.sequenceOrder]
    exact getD_map_range hi
  have hwork : b.sequenceWorks.getD i .context = (step.row i).work := by
    rw [hb.sequenceWorks]
    exact getD_map_range hi
  have hrequests : (step.row i).identity.requestId ∉
      (b.sequenceOrder.take i).map fun identity => identity.requestId := by
    intro hmem
    obtain ⟨identity, hidentity, hrequest⟩ := List.mem_map.1 hmem
    rw [hb.sequenceOrder] at hidentity
    obtain ⟨k, hk, rfl⟩ := mem_take_map_range hi hidentity
    exact (h.row_ne hi hk).1 hrequest
  have hslots : (step.row i).identity.resident.slot ∉
      (b.sequenceOrder.take i).map fun identity => identity.resident.slot := by
    intro hmem
    obtain ⟨identity, hidentity, hrequest⟩ := List.mem_map.1 hmem
    rw [hb.sequenceOrder] at hidentity
    obtain ⟨k, hk, rfl⟩ := mem_take_map_range hi hidentity
    exact (h.row_ne hi hk).2 hrequest
  have hle : (step.row i).queryLength ≤ step.width := by
    rw [← h.queryWidth_eq]
    exact ScheduledStep.queryLength_le hi
  have htokens : (List.range step.width).forM
      (validateToken b (i * step.width) (step.row i).queryLength (step.row i).pastLength) =
        .ok () := by
    rw [forM_eq_ok]
    intro j hj
    exact validateToken_eq hb hi (List.mem_range.1 hj)
  unfold validateRow
  simp only [hwidth, hoffset, hqueryLength, hpast, hattention, hslot, hidentity, hwork,
    Int.toNat_natCast]
  have hstart : step.offset i = (i * step.width : Nat) := rfl
  rw [requireThat_of hstart, requireThat_of ⟨hadmissible.queryLength_pos, hle⟩,
    requireThat_of hadmissible.pastLength, requireThat_of (Int.le_refl _), requireThat_of trivial,
    requireThat_of hadmissible.slot, requireThat_of hrequests, requireThat_of hslots,
    countRow_eq h hi]
  show ((List.range step.width).forM (validateToken b (i * step.width) _ _) >>= fun _ =>
    pure (step.executionTally (i + 1))) = (Except.ok _ : Except String _)
  rw [htokens]
  rfl

theorem validateLogits_eq (h : Admitted contract step) (hb : Describes step b) {r : Nat}
    (hr : r < (step.logitsRows step.sequences.length).length) : validateLogits b r = .ok () := by
  have howner : b.logitsToSequence.getD r 0 =
      ((step.logitsRows step.sequences.length)[r] : Int) := by
    rw [hb.logitsToSequence, List.getD_eq_getElem _ _ (by rwa [List.length_map]),
      List.getElem_map]
  have hindex : b.logitsIndices.getD r 0 =
      step.logitsIndex (step.logitsRows step.sequences.length)[r] := by
    rw [hb.logitsIndices, List.getD_eq_getElem _ _ (by rwa [List.length_map]), List.getElem_map]
  obtain ⟨hlt, -⟩ := ScheduledStep.mem_logitsRows.1 (List.getElem_mem hr)
  have hnodup : (step.logitsRows step.sequences.length).Nodup :=
    List.nodup_range.filter _
  have hfresh : ((step.logitsRows step.sequences.length)[r] : Int) ∉
      b.logitsToSequence.take r := by
    intro hmem
    rw [hb.logitsToSequence, ← List.map_take] at hmem
    obtain ⟨k, hk, hcast⟩ := List.mem_map.1 hmem
    obtain ⟨q, hq, hget⟩ := List.mem_take_iff_getElem.1 hk
    have hqr : q < r := by omega
    apply List.pairwise_iff_getElem.1 hnodup q r (by omega) hr hqr
    rw [hget]
    exact Int.ofNat_inj.1 hcast
  generalize (step.logitsRows step.sequences.length)[r] = k at howner hindex hlt hfresh
  have hadmissible := h.admissible hlt
  have hoffset : b.queryStartOffsets.getD k 0 = step.offset k := by
    rw [hb.queryStartOffsets, List.getD_append _ _ _ _ (by
      rw [ScheduledStep.rows, List.length_map, List.length_range]
      exact hlt)]
    exact getD_map_range hlt
  have hqueryLength : b.queryLengths.getD k 0 = (step.row k).queryLength := by
    rw [hb.queryLengths]
    exact getD_map_range hlt
  have hpositive := hadmissible.queryLength_pos
  have hcell : (step.offset k + (step.row k).queryLength - 1).toNat =
      k * step.width + ((step.row k).queryLength.toNat - 1) := by
    unfold ScheduledStep.offset
    omega
  have hwidth := h.toNat_queryLength_le hlt
  have hlast : (step.row k).queryLength.toNat - 1 < step.width := by omega
  have hposition := hb.positions k hlt _ hlast
  unfold ScheduledStep.position at hposition
  rw [if_pos (by omega)] at hposition
  have hshape : b.shape.numSequences = step.sequences.length := by
    rw [hb.shape]
    rfl
  unfold validateLogits
  simp only [howner, hindex, Int.toNat_natCast, hoffset, hqueryLength, hshape, hcell, hposition]
  have hlogits : step.logitsIndex k = step.offset k + (step.row k).queryLength - 1 := rfl
  rw [requireThat_of ⟨Int.natCast_nonneg k, Int.ofNat_lt.2 hlt⟩, requireThat_of hfresh,
    requireThat_of hlogits]
  exact requireThat_of (Int.add_nonneg hadmissible.pastLength (Int.natCast_nonneg _))

theorem validateShape_eq (h : Admitted contract step) (hb : Describes step b)
    (hcpu : b.hostTokenIds.onCpu = true) (hint32 : b.hostTokenIds.isInt32 = true) :
    validateShape b contract = .ok () := by
  have hlayout : b.layout = contract.backend := by
    have hvalid := h.valid
    unfold validateContract at hvalid
    rw [check_bind_eq_ok, requireThat_eq_ok] at hvalid
    rw [hb.layout, hvalid.1]
  have hsequences := h.length_pos
  have hwidth : 0 < step.width := by
    have hpositive := h.queryWidth_pos
    rw [h.queryWidth_eq] at hpositive
    exact Int.ofNat_lt.1 hpositive
  have hsize : b.hostTokenIds.buffer.size ≠ 0 := by
    rw [hb.tokens_size]
    exact Nat.ne_of_gt (Nat.mul_pos hsequences hwidth)
  have hvolume : (b.hostTokenIds.buffer.size : Int) = step.shape.physicalTokens := by
    rw [hb.tokens_size, h.physicalTokens_eq]
  unfold validateShape
  simp only [hb.shape]
  rw [requireThat_of hlayout, requireThat_of ⟨Int.ofNat_lt.2 hsequences, h.capacity⟩,
    requireThat_of ⟨h.queryWidth_pos, h.queryWidth_le⟩]
  have hphysical : checkedInt32 (step.shape.numSequences * step.shape.queryWidth)
      "execution physical token count" = .ok step.shape.physicalTokens :=
    checkedInt32_eq_ok.2 ⟨h.physical, rfl⟩
  have hexpected : step.shape.physicalTokens = step.shape.physicalTokens ∧
      step.shape.physicalTokens ≤ contract.maxPhysicalTokens := ⟨rfl, h.physical_le⟩
  rw [hphysical]
  show (requireThat (_ ∧ _) _ >>= fun _ => _) = (Except.ok _ : Except String _)
  rw [requireThat_of hexpected]
  exact requireThat_of ⟨hsize, hcpu, hint32, hvolume⟩

theorem validateSizes_eq (h : Admitted contract step) (hb : Describes step b) :
    validateSizes b = .ok () := by
  have hrows {α : Type} (f : Nat → α) : (step.rows f).length = step.shape.numSequences.toNat := by
    rw [ScheduledStep.rows, List.length_map, List.length_range]
    exact (Int.toNat_natCast _).symm
  have hpositions : b.positions.size = step.shape.physicalTokens.toNat := by
    rw [hb.positions_size, h.physicalTokens_eq, Int.toNat_natCast]
  have hoffsets : b.queryStartOffsets.length = step.shape.numSequences.toNat + 1 := by
    rw [hb.queryStartOffsets, List.length_append, hrows]
    rfl
  unfold validateSizes
  simp only [hb.shape]
  rw [requireThat_of hpositions, requireThat_of hoffsets,
    requireThat_of (hb.queryLengths ▸ hrows _), requireThat_of (hb.pastLengths ▸ hrows _),
    requireThat_of (hb.attentionSequenceLengths ▸ hrows _),
    requireThat_of (hb.stateIndices ▸ hrows _), requireThat_of (hb.sequenceOrder ▸ hrows _)]
  exact requireThat_of (hb.sequenceWorks ▸ hrows _)

theorem validateTotals_eq (h : Admitted contract step) (hb : Describes step b) :
    validateTotals b (step.executionTally step.sequences.length) = .ok () := by
  have hlast : b.queryStartOffsets.getLast? = some step.shape.physicalTokens := by
    rw [hb.queryStartOffsets, List.getLast?_concat, h.physicalTokens_eq]
    rfl
  have hunmixed : step.shape.numContextSequences = 0 ∨
      step.shape.numContextSequences = step.shape.numSequences := by
    rcases h.unmixed with hcontext | hdecode
    · exact .inl hcontext
    · have htotal := @StepTally.foldl_numSequences .start step.sequences
      rw [← ScheduledStep.tally_length, hdecode] at htotal
      right
      show (step.tally step.sequences.length).numContextSequences = step.sequences.length
      simpa [StepTally.start] using htotal
  have hlogits : (b.logitsIndices.length : Int) = step.shape.numLogits := by
    rw [hb.logitsIndices, List.length_map]
    rfl
  have hrouting : b.logitsToSequence.length = b.logitsIndices.length := by
    rw [hb.logitsIndices, hb.logitsToSequence, List.length_map, List.length_map]
  have htally : step.executionTally step.sequences.length = ⟨step.shape.validTokens,
      step.shape.numContextSequences, step.shape.numContextTokens⟩ := rfl
  unfold validateTotals
  simp only [hb.shape, htally]
  rw [requireThat_of hlast, requireThat_of trivial, requireThat_of trivial, requireThat_of trivial,
    requireThat_of hunmixed, requireThat_of hlogits]
  exact requireThat_of hrouting

/-- `validateExecutionBatch` accepts what describes an admitted step. -/
theorem Describes.validate (h : Admitted contract step) (hb : Describes step b)
    (hcpu : b.hostTokenIds.onCpu = true) (hint32 : b.hostTokenIds.isInt32 = true) :
    validateExecutionBatch b contract = .ok () := by
  have hsequences : b.shape.numSequences.toNat = step.sequences.length := by
    rw [hb.shape]
    exact Int.toNat_natCast _
  have hloop := @foldlM_range_eq_ok _ _ (validateRow b contract) step.sequences.length
    step.executionTally fun i hi => validateRow_eq h hb hi
  have hlogits : (List.range b.logitsIndices.length).forM (validateLogits b) = .ok () := by
    rw [forM_eq_ok, hb.logitsIndices, List.length_map]
    intro r hr
    exact validateLogits_eq h hb (List.mem_range.1 hr)
  unfold validateExecutionBatch
  rw [h.valid, validateShape_eq h hb hcpu hint32, validateSizes_eq h hb, hsequences]
  show ((List.range step.sequences.length).foldlM (validateRow b contract)
    (step.executionTally 0) >>= _) = _
  rw [hloop]
  show (validateTotals b (step.executionTally step.sequences.length) >>= _) = _
  rw [validateTotals_eq h hb]
  exact hlogits

end Validate

end EdgeLLM.Ports.RaggedBatch
