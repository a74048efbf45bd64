import EdgeLLM.Ports.RaggedDescription

/-!
# Subset selection is building from the subset

`ScheduledStep.select` is the step in which every sequence queries its kept
tokens.  Finalizing the batch of a step leaves the batch of that step: the
keep lists only make rows shorter, so the moves to the smaller pitch never go
upwards, and what the last loop rebuilds is what `buildInto` computes from the
shorter rows.
-/

namespace EdgeLLM.Ports.RaggedBatch

open Verified

/-! ## Keep lists -/

/-- A non-empty, strictly increasing list of tokens of the query. -/
structure Keeps (sequence : ScheduledSequence) (keep : List Int) : Prop where
  nonempty : keep ≠ []
  increasing : keep.Pairwise (· < ·)
  inside : ∀ index ∈ keep, 0 ≤ index ∧ index < sequence.queryLength

namespace Keeps

variable {sequence : ScheduledSequence} {keep : List Int} (h : Keeps sequence keep)
include h

theorem length_pos : 0 < keep.length := List.length_pos_iff.2 h.nonempty

/-- A kept token is no further to the front than its place in the list. -/
theorem le_getElem {j : Nat} (hj : j < keep.length) : (j : Int) ≤ keep[j] := by
  induction j with
  | zero => exact (h.inside _ (List.getElem_mem hj)).1
  | succ j ih =>
    have hlt := List.pairwise_iff_getElem.1 h.increasing j (j + 1) (by omega) hj (by omega)
    have hle := ih (by omega)
    omega

theorem length_le : (keep.length : Int) ≤ sequence.queryLength := by
  have hpositive := h.length_pos
  have hlast : keep.length - 1 < keep.length := by omega
  have hle := h.le_getElem hlast
  have hlt := (h.inside _ (List.getElem_mem hlast)).2
  omega

end Keeps

/-- The query tokens that are kept. -/
def HostTokenRange.select (range : HostTokenRange) (keep : List Int) : HostTokenRange where
  data := some (keep.map fun index => range.read index.toNat)
  extent := keep.length
  begin := 0
  count := keep.length
  covered := by
    intro tokens htokens
    cases htokens
    exact Int.le_of_eq (congrArg Int.ofNat (List.length_map _).symm)

def ScheduledSequence.select (sequence : ScheduledSequence) (keep : List Int) : ScheduledSequence :=
  { sequence with
    queryLength := keep.length
    queryTokens := sequence.queryTokens.select keep }

/-- The step in which every sequence queries its kept tokens. -/
def ScheduledStep.select (step : ScheduledStep) (keeps : List (List Int)) : ScheduledStep :=
  { step with sequences := List.zipWith ScheduledSequence.select step.sequences keeps }

/-- The offsets of the keep lists in their concatenation. -/
def startOffsets (keeps : List (List Int)) : List Int :=
  (List.range (keeps.length + 1)).map fun i => ((keeps.take i).flatten.length : Int)

/-! ## The smaller step -/

variable {contract : RaggedEngineContract} {sequence : ScheduledSequence} {t' t : StepTally}
variable {offsets : List Int}

theorem Admissible.select {keep : List Int} (h : Admissible contract sequence)
    (hkeep : Keeps sequence keep) : Admissible contract (sequence.select keep) := by
  have hpositive : (0 : Int) < keep.length := Int.ofNat_lt.2 hkeep.length_pos
  have hlength := hkeep.length_le
  exact
    { requestId := h.requestId
      epoch := h.epoch
      slot := h.slot
      queryLength_pos := hpositive
      queryLength_le := Int.le_trans hlength h.queryLength_le
      pastLength := h.pastLength
      data := rfl
      bounds := ⟨Int.natCast_nonneg _, Int.le_refl 0, hpositive⟩
      count := rfl
      extent := Int.le_of_eq (Int.zero_add _)
      fits := Int.le_trans (Int.add_le_add_left hlength _) h.fits
      decode := by
        intro hwork
        have hone := h.decode hwork
        show (keep.length : Int) = 1
        omega }

/-- The tally of shorter sequences. -/
structure StepTally.Narrower (t' t : StepTally) : Prop where
  requestIdentities : t'.requestIdentities = t.requestIdentities
  residentSlots : t'.residentSlots = t.residentSlots
  numContextSequences : t'.numContextSequences = t.numContextSequences
  numDecodeSequences : t'.numDecodeSequences = t.numDecodeSequences
  queryWidth : 0 ≤ t'.queryWidth ∧ t'.queryWidth ≤ t.queryWidth
  validTokens : 0 ≤ t'.validTokens ∧ t'.validTokens ≤ t.validTokens
  numContextTokens : 0 ≤ t'.numContextTokens ∧ t'.numContextTokens ≤ t.numContextTokens

theorem StepTally.Narrower.count {keep : List Int} (h : t'.Narrower t)
    (hkeep : Keeps sequence keep) :
    (t'.count (sequence.select keep)).Narrower (t.count sequence) := by
  have hpositive : (0 : Int) < keep.length := Int.ofNat_lt.2 hkeep.length_pos
  have hlength := hkeep.length_le
  have hwidth := h.queryWidth
  have hvalid := h.validTokens
  have hcontext := h.numContextTokens
  have hsequences := h.numContextSequences
  have hdecode := h.numDecodeSequences
  unfold StepTally.count ScheduledSequence.select
  refine ⟨?_, ?_, ?_, ?_, ?_, ?_, ?_⟩
  · rw [h.requestIdentities]
  · rw [h.residentSlots]
  · rw [hsequences]
  · rw [hdecode]
  · dsimp only
    omega
  · dsimp only
    omega
  · by_cases hwork : sequence.work = .context
    · simp only [hwork, if_true]
      omega
    · simp only [hwork, if_false]
      exact hcontext

theorem AdmitsAll.select {sequences : List ScheduledSequence} {keeps : List (List Int)}
    (hkeeps : List.Forall₂ Keeps sequences keeps) (h : AdmitsAll contract t sequences)
    (hnarrower : t'.Narrower t) :
    AdmitsAll contract t' (List.zipWith ScheduledSequence.select sequences keeps) ∧
      ((List.zipWith ScheduledSequence.select sequences keeps).foldl
        StepTally.count t').Narrower (sequences.foldl StepTally.count t) := by
  induction hkeeps generalizing t t' with
  | nil => exact ⟨trivial, hnarrower⟩
  | cons hkeep _ ih =>
    have hnext := hnarrower.count hkeep
    obtain ⟨hrest, hfold⟩ := ih h.2 hnext
    refine ⟨⟨⟨h.1.admissible.select hkeep, ?_, ?_, ?_, ?_⟩, hrest⟩, hfold⟩
    · rw [hnarrower.requestIdentities]
      exact h.1.requestId
    · rw [hnarrower.residentSlots]
      exact h.1.slot
    · exact Int.le_trans hnext.validTokens.2 h.1.validTokens
    · exact Int.le_trans hnext.numContextTokens.2 h.1.numContextTokens

section Select

variable {contract : RaggedEngineContract} {step : ScheduledStep} {keeps : List (List Int)}
  (hkeeps : List.Forall₂ Keeps step.sequences keeps)
include hkeeps

theorem select_length : (step.select keeps).sequences.length = step.sequences.length := by
  show (List.zipWith _ _ _).length = _
  rw [List.length_zipWith, ← hkeeps.length_eq, Nat.min_self]

theorem keeps_row {i : Nat} (hi : i < step.sequences.length) :
    Keeps (step.row i) (keeps.getD i []) := by
  have hi' : i < keeps.length := hkeeps.length_eq ▸ hi
  rw [ScheduledStep.row_eq hi, List.getD_eq_getElem _ _ hi']
  exact hkeeps.get hi hi'

theorem select_row {i : Nat} (hi : i < step.sequences.length) :
    (step.select keeps).row i = (step.row i).select (keeps.getD i []) := by
  have hi' : i < keeps.length := hkeeps.length_eq ▸ hi
  rw [ScheduledStep.row_eq (by rwa [select_length hkeeps]), ScheduledStep.row_eq hi,
    List.getD_eq_getElem _ _ hi']
  exact List.getElem_zipWith

theorem select_narrower (h : Admitted contract step) :
    ((step.select keeps).tally step.sequences.length).Narrower
      (step.tally step.sequences.length) := by
  have hstart : StepTally.start.Narrower .start :=
    ⟨rfl, rfl, rfl, rfl, ⟨Int.le_refl 0, Int.le_refl 0⟩, ⟨Int.le_refl 0, Int.le_refl 0⟩,
      ⟨Int.le_refl 0, Int.le_refl 0⟩⟩
  rw [ScheduledStep.tally_length, ← select_length hkeeps, ScheduledStep.tally_length]
  exact (h.admits.select hkeeps hstart).2

theorem Admitted.select (h : Admitted contract step) : Admitted contract (step.select keeps) := by
  have hlength := select_length hkeeps
  have hnarrower := select_narrower hkeeps h
  have hstart : StepTally.start.Narrower .start :=
    ⟨rfl, rfl, rfl, rfl, ⟨Int.le_refl 0, Int.le_refl 0⟩, ⟨Int.le_refl 0, Int.le_refl 0⟩,
      ⟨Int.le_refl 0, Int.le_refl 0⟩⟩
  have hsmaller : (step.sequences.length : Int) *
      ((step.select keeps).tally step.sequences.length).queryWidth ≤
        step.sequences.length * (step.tally step.sequences.length).queryWidth :=
    Int.mul_le_mul_of_nonneg_left hnarrower.queryWidth.2 (Int.natCast_nonneg _)
  have hnonempty : (step.select keeps).sequences.isEmpty = false := by
    rw [List.isEmpty_eq_false_iff]
    apply List.length_pos_iff.1
    rw [hlength]
    exact h.length_pos
  refine
    { valid := h.valid
      nonempty := hnonempty
      capacity := by rw [hlength]; exact h.capacity
      length := by rw [hlength]; exact h.length
      admits := (h.admits.select hkeeps hstart).1
      unmixed := ?_
      physical := ?_
      physical_le := ?_
      validTokens := ?_
      contextTokens := ?_ }
  · rw [hlength, hnarrower.numContextSequences, hnarrower.numDecodeSequences]
    exact h.unmixed
  · rw [hlength]
    exact ⟨Int.mul_nonneg (Int.natCast_nonneg _) hnarrower.queryWidth.1,
      Int.le_trans hsmaller h.physical.2⟩
  · rw [hlength]
    exact Int.le_trans hsmaller h.physical_le
  · rw [hlength]
    exact ⟨hnarrower.validTokens.1, Int.le_trans hnarrower.validTokens.2 h.validTokens.2⟩
  · rw [hlength]
    exact ⟨hnarrower.numContextTokens.1,
      Int.le_trans hnarrower.numContextTokens.2 h.contextTokens.2⟩

theorem select_width_le (h : Admitted contract step) : (step.select keeps).width ≤ step.width := by
  have hwidth := (select_narrower hkeeps h).queryWidth
  have hselect := (h.select hkeeps).queryWidth_eq
  have hstep := h.queryWidth_eq
  rw [select_length hkeeps] at hselect
  omega

end Select

/-! ## The offsets of the keep lists -/

section Offsets

variable {keeps : List (List Int)} {i : Nat}

theorem getD_startOffsets (hi : i ≤ keeps.length) :
    (startOffsets keeps).getD i 0 = ((keeps.take i).flatten.length : Int) :=
  getD_map_range (Nat.lt_succ_of_le hi)

theorem flatten_take_succ (hi : i < keeps.length) :
    (keeps.take (i + 1)).flatten = (keeps.take i).flatten ++ keeps[i] := by
  rw [List.take_add_one, List.getElem?_eq_getElem hi, List.flatten_append]
  simp

theorem startOffsets_sub (hi : i < keeps.length) :
    (startOffsets keeps).getD (i + 1) 0 - (startOffsets keeps).getD i 0 =
      ((keeps.getD i []).length : Int) := by
  rw [getD_startOffsets hi, getD_startOffsets (Nat.le_of_lt hi), flatten_take_succ hi,
    List.length_append, List.getD_eq_getElem _ _ hi]
  omega

theorem startOffsets_le (hi : i ≤ keeps.length) :
    (startOffsets keeps).getD i 0 ≤ (startOffsets keeps).getD keeps.length 0 := by
  rw [getD_startOffsets hi, getD_startOffsets (Nat.le_refl _), List.take_length]
  conv =>
    rhs
    rw [← List.take_append_drop i keeps, List.flatten_append, List.length_append]
  omega

theorem keepOf_startOffsets (hi : i < keeps.length) :
    keepOf (startOffsets keeps) keeps.flatten i = keeps.getD i [] := by
  have hflatten : keeps.flatten =
      (keeps.take i).flatten ++ (keeps[i] ++ (keeps.drop (i + 1)).flatten) := by
    rw [← List.flatten_cons, ← List.drop_eq_getElem_cons hi, ← List.flatten_append,
      List.take_append_drop]
  unfold keepOf
  dsimp only
  rw [startOffsets_sub hi, getD_startOffsets (Nat.le_of_lt hi), Int.toNat_natCast,
    Int.toNat_natCast, List.getD_eq_getElem _ _ hi, hflatten, List.drop_left, List.take_left]

end Offsets

theorem checkKeep_eq {oldLength previous : Int} {keep : List Int}
    (hincreasing : keep.Pairwise (· < ·)) (hinside : ∀ index ∈ keep, index < oldLength)
    (hprevious : ∀ index ∈ keep, previous < index) : checkKeep oldLength previous keep = .ok () := by
  induction keep generalizing previous with
  | nil => rfl
  | cons index rest ih =>
    rw [List.pairwise_cons] at hincreasing
    unfold checkKeep
    rw [requireThat_of ⟨hprevious index List.mem_cons_self, hinside index List.mem_cons_self⟩]
    exact ih hincreasing.2 (fun k hk => hinside k (List.mem_cons_of_mem index hk)) hincreasing.1

/-- The counters of the first loop after `i` sequences. -/
def ScheduledStep.subsetTally (step : ScheduledStep) (i : Nat) : SubsetTally :=
  ⟨(step.tally i).queryWidth, (step.tally i).validTokens, (step.tally i).numContextTokens⟩

section Finalize

variable {contract : RaggedEngineContract} {step : ScheduledStep} {keeps : List (List Int)}
  {b : RaggedExecutionBatch}

theorem admitSubset_eq (hkeeps : List.Forall₂ Keeps step.sequences keeps) (hb : Describes step b)
    {i : Nat} (hi : i < step.sequences.length) :
    admitSubset step (startOffsets keeps) keeps.flatten b ((step.select keeps).subsetTally i) i =
      .ok ((step.select keeps).subsetTally (i + 1)) := by
  have hi' : i < keeps.length := hkeeps.length_eq ▸ hi
  have hkeep := keeps_row hkeeps hi
  have hpositive : (0 : Int) < (keeps.getD i []).length := Int.ofNat_lt.2 hkeep.length_pos
  have hget {α : Type} (f : Nat → α) : (step.rows f)[i]? = some (f i) := by
    rw [ScheduledStep.rows, List.getElem?_map, List.getElem?_range hi]
    rfl
  have hdescribes : describesRow (step.row i) b i := by
    unfold describesRow
    rw [hb.sequenceOrder, hb.sequenceWorks, hb.pastLengths, hb.queryLengths]
    exact ⟨hget _, hget _, hget _, hget _⟩
  have hsub := startOffsets_sub hi'
  have hstart : 0 ≤ (startOffsets keeps).getD i 0 := by
    rw [getD_startOffsets (Nat.le_of_lt hi')]
    exact Int.natCast_nonneg _
  have hstop := @startOffsets_le keeps (i + 1) hi'
  have htotal : b.shape.numSequences.toNat = keeps.length := by
    rw [hb.shape, ← hkeeps.length_eq]
    exact Int.toNat_natCast _
  have hrange : 0 ≤ (startOffsets keeps).getD i 0 ∧
      (startOffsets keeps).getD i 0 < (startOffsets keeps).getD (i + 1) 0 ∧
      (startOffsets keeps).getD (i + 1) 0 ≤
        (startOffsets keeps).getD b.shape.numSequences.toNat 0 := by
    rw [htotal]
    omega
  have hlength : b.queryLengths.getD i 0 = (step.row i).queryLength := by
    rw [hb.queryLengths]
    exact getD_map_range hi
  have hwork : b.sequenceWorks.getD i .context = (step.row i).work := by
    rw [hb.sequenceWorks]
    exact getD_map_range hi
  have hcheck : checkKeep (step.row i).queryLength (-1) (keeps.getD i []) = .ok () := by
    apply checkKeep_eq hkeep.increasing
    · intro index hindex
      exact (hkeep.inside index hindex).2
    · intro index hindex
      have hnonneg := (hkeep.inside index hindex).1
      omega
  have htally : (step.select keeps).subsetTally (i + 1) =
      { newQueryWidth := max ((step.select keeps).subsetTally i).newQueryWidth
          (keeps.getD i []).length
        validTokens := ((step.select keeps).subsetTally i).validTokens + (keeps.getD i []).length
        contextTokens :=
          if (step.row i).work = .context then
            ((step.select keeps).subsetTally i).contextTokens + (keeps.getD i []).length
          else ((step.select keeps).subsetTally i).contextTokens } := by
    unfold ScheduledStep.subsetTally
    rw [ScheduledStep.tally_succ (by rwa [select_length hkeeps]), select_row hkeeps hi]
    rfl
  have hdescribes' : describesRow (step.sequences.getD i default) b i := hdescribes
  unfold admitSubset
  dsimp only
  rw [hlength, hwork, hsub, keepOf_startOffsets hi', htally]
  rw [requireThat_of hdescribes', requireThat_of hrange]
  show (checkKeep _ _ _ >>= fun _ => _) = (Except.ok _ : Except String _)
  rw [hcheck]
  rfl

theorem checkSubset_eq (hkeeps : List.Forall₂ Keeps step.sequences keeps) (hb : Describes step b) :
    checkSubset step (startOffsets keeps) keeps.flatten b = .ok () := by
  have hsequences : b.shape.numSequences = step.sequences.length := by
    rw [hb.shape]
    rfl
  have htotal : (startOffsets keeps).getD step.sequences.length 0 = keeps.flatten.length := by
    rw [hkeeps.length_eq, getD_startOffsets (Nat.le_refl _), List.take_length]
  have hextent : (startOffsets keeps).length = step.sequences.length + 1 := by
    unfold startOffsets
    rw [List.length_map, List.length_range, hkeeps.length_eq]
  have hzero : (startOffsets keeps).getD 0 0 = 0 := getD_startOffsets (Nat.zero_le _)
  have hcover : (0 : Int) ≤ (keeps.flatten.length : Int) ∧ True :=
    ⟨Int.natCast_nonneg _, trivial⟩
  unfold checkSubset
  simp only [hsequences, Int.toNat_natCast, htotal]
  rw [requireThat_of hb.layout, requireThat_of hb.stepId.symm, requireThat_of trivial,
    requireThat_of hextent, requireThat_of hzero, requireThat_of hcover]
  rfl

end Finalize

/-! ## The last loop -/

/-- The batch after `i` turns of the last loop of `finalizeSubsetSelection`, for
the rows of the smaller step. -/
def ScheduledStep.rebuilt (step : ScheduledStep) (batch : RaggedExecutionBatch) (i : Nat) :
    RaggedExecutionBatch :=
  { batch with
    queryStartOffsets := assigned step.offset i batch.queryStartOffsets
    queryLengths := assigned (fun k => (step.row k).queryLength) i batch.queryLengths
    attentionSequenceLengths :=
      assigned (fun k => (step.row k).pastLength + (step.row k).queryLength) i
        batch.attentionSequenceLengths
    positions := batch.positions.store ((List.range i).flatMap fun k =>
      rowWrites (k * step.width) (step.row k).queryLength.toNat
        fun j => (step.row k).pastLength + j)
    hostTokenIds := batch.hostTokenIds.store ((List.range i).flatMap fun k =>
      rowWrites (k * step.width + (step.row k).queryLength.toNat)
        (step.width - (step.row k).queryLength.toNat) fun _ => paddingTokenId)
    logitsIndices := batch.logitsIndices ++ (step.logitsRows i).map step.logitsIndex
    logitsToSequence :=
      batch.logitsToSequence ++ (step.logitsRows i).map fun k : Nat => (k : Int) }

theorem ScheduledStep.rebuilt_zero (step : ScheduledStep) (batch : RaggedExecutionBatch) :
    step.rebuilt batch 0 = batch := by
  unfold rebuilt logitsRows
  simp only [List.range_zero, List.map_nil, List.append_nil, List.filter_nil, List.flatMap_nil]
  rfl

section Rebuild

variable {contract : RaggedEngineContract} {step : ScheduledStep} {keeps : List (List Int)}
  {b : RaggedExecutionBatch}

theorem rebuildSequence_rebuilt (hkeeps : List.Forall₂ Keeps step.sequences keeps) {i : Nat}
    (hi : i < step.sequences.length)
    (hpast : b.pastLengths = step.rows fun k => (step.row k).pastLength)
    (hoffsets : i < b.queryStartOffsets.length) (hlengths : i < b.queryLengths.length)
    (hattention : i < b.attentionSequenceLengths.length) :
    rebuildSequence step (startOffsets keeps) (step.select keeps).width
        ((step.select keeps).rebuilt b i) i = (step.select keeps).rebuilt b (i + 1) := by
  have hi' : i < keeps.length := hkeeps.length_eq ▸ hi
  have hrow := select_row hkeeps hi
  have hkept : (startOffsets keeps).getD (i + 1) 0 - (startOffsets keeps).getD i 0 =
      ((step.select keeps).row i).queryLength := by
    rw [startOffsets_sub hi', hrow]
    rfl
  have hpastLength : b.pastLengths.getD i 0 = ((step.select keeps).row i).pastLength := by
    rw [hpast, hrow]
    exact getD_map_range hi
  have hselected : (step.sequences.getD i default).selectLastTokenLogits =
      ((step.select keeps).row i).selectLastTokenLogits := by
    rw [hrow]
    rfl
  have hpastLength' : ((step.select keeps).rebuilt b i).pastLengths.getD i 0 =
      ((step.select keeps).row i).pastLength := hpastLength
  unfold rebuildSequence
  dsimp only
  rw [hkept, hselected, hpastLength', selectLogits_eq]
  unfold ScheduledStep.rebuilt
  simp only [flatMap_range_succ, ScheduledStep.logitsRows_map_succ,
    ← HostTokenIds.store_store, ← Buffer.store_store, ← set_assigned hoffsets,
    ← set_assigned hlengths, ← set_assigned hattention, List.append_assoc]
  rfl

/-- The moves of the kept token ids. -/
def keepMoves (step : ScheduledStep) (keeps : List (List Int)) : List (Nat × Nat) :=
  subsetMoves (startOffsets keeps) keeps.flatten step.sequences.length step.width
    (step.select keeps).width

/-- The batch after the last loop, with its last offset and its logits counted. -/
def closedBatch (step : ScheduledStep) (keeps : List (List Int)) (b : RaggedExecutionBatch) :
    RaggedExecutionBatch :=
  let small := step.select keeps
  let rebuilt := small.rebuilt
    (movedBatch b (keepMoves step keeps) { small.shape with numLogits := b.shape.numLogits })
    step.sequences.length
  { rebuilt with
    queryStartOffsets :=
      rebuilt.queryStartOffsets.set step.sequences.length small.shape.physicalTokens
    shape := small.shape }

/-- The batch with its storage reshaped. -/
def finalBatch (step : ScheduledStep) (keeps : List (List Int)) (b : RaggedExecutionBatch) :
    RaggedExecutionBatch :=
  { closedBatch step keeps b with
    hostTokenIds := (closedBatch step keeps b).hostTokenIds.resized
      (step.select keeps).shape.physicalTokens }

section Moves

variable (h : Admitted contract step) (hkeeps : List.Forall₂ Keeps step.sequences keeps)
include hkeeps

theorem length_keepOf {i : Nat} (hi : i < step.sequences.length) :
    (keepOf (startOffsets keeps) keeps.flatten i).length =
      ((step.select keeps).row i).queryLength.toNat := by
  have hi' : i < keeps.length := hkeeps.length_eq ▸ hi
  rw [keepOf_startOffsets hi', select_row hkeeps hi]
  exact (Int.toNat_natCast _).symm

theorem le_keepOf {i : Nat} (hi : i < step.sequences.length) {j : Nat}
    (hj : j < (keepOf (startOffsets keeps) keeps.flatten i).length) :
    j ≤ ((keepOf (startOffsets keeps) keeps.flatten i).getD j 0).toNat := by
  have hi' : i < keeps.length := hkeeps.length_eq ▸ hi
  rw [keepOf_startOffsets hi'] at hj ⊢
  rw [List.getD_eq_getElem _ _ hj]
  have hle := (keeps_row hkeeps hi).le_getElem hj
  omega

include h

theorem length_keepOf_le {i : Nat} (hi : i < step.sequences.length) :
    (keepOf (startOffsets keeps) keeps.flatten i).length ≤ (step.select keeps).width := by
  rw [length_keepOf hkeeps hi]
  exact (h.select hkeeps).toNat_queryLength_le (by rwa [select_length hkeeps])

/-- The moves overwrite no token that they still have to read. -/
theorem unclobbered_keepMoves : Unclobbered (keepMoves step keeps) :=
  rowMoves_forward (fun _ hi => length_keepOf_le h hkeeps hi) (select_width_le hkeeps h)
    fun _ hi _ hj => le_keepOf hkeeps hi hj

theorem moveAll_keepMoves (hb : Describes step b) {i j : Nat} (hi : i < step.sequences.length)
    (hj : (j : Int) < ((step.select keeps).row i).queryLength) :
    moveAll (keepMoves step keeps) b.hostTokenIds.buffer.cell (i * (step.select keeps).width + j) =
      ((step.select keeps).row i).queryTokens.read j := by
  have hi' : i < keeps.length := hkeeps.length_eq ▸ hi
  have hkeep := keeps_row hkeeps hi
  have hcount : j < (keepOf (startOffsets keeps) keeps.flatten i).length := by
    rw [length_keepOf hkeeps hi]
    omega
  have hmoved := @moveAll_rowMoves step.sequences.length step.width (step.select keeps).width
    (fun k => (keepOf (startOffsets keeps) keeps.flatten k).length)
    (fun k l => ((keepOf (startOffsets keeps) keeps.flatten k).getD l 0).toNat) Int
    b.hostTokenIds.buffer.cell (fun _ hi => length_keepOf_le h hkeeps hi)
    (select_width_le hkeeps h) (fun _ hi _ hj => le_keepOf hkeeps hi hj) i j hi hcount
  unfold keepMoves subsetMoves
  rw [hmoved]
  rw [keepOf_startOffsets hi'] at hcount ⊢
  rw [List.getD_eq_getElem _ _ hcount]
  obtain ⟨hnonneg, hlt⟩ := hkeep.inside _ (List.getElem_mem hcount)
  have hwidth := h.toNat_queryLength_le hi
  rw [hb.tokens i hi _ (by omega), select_row hkeeps hi]
  unfold ScheduledStep.token
  rw [if_pos (by omega)]
  show _ = (List.map _ (keeps.getD i [])).getD (0 + (j : Int)).toNat 0
  have hindex : (0 + (j : Int)).toNat = j := by omega
  generalize keeps.getD i [] = keep at hcount
  rw [hindex, List.getD_eq_getElem _ _ (by rwa [List.length_map]), List.getElem_map]

/-- What finalizing leaves describes the smaller step. -/
theorem finalBatch_describes (hb : Describes step b) :
    Describes (step.select keeps) (finalBatch step keeps b) := by
  have hsmall := h.select hkeeps
  have hlength := select_length hkeeps
  have hsize : (step.select keeps).shape.physicalTokens.toNat =
      (step.select keeps).sequences.length * (step.select keeps).width := by
    rw [hsmall.physicalTokens_eq, Int.toNat_natCast]
  have hfits : ∀ k < step.sequences.length,
      ((step.select keeps).row k).queryLength.toNat ≤ (step.select keeps).width := by
    intro k hk
    exact hsmall.toNat_queryLength_le (by rwa [hlength])
  have hrows {α : Type} {f g : Nat → α} (hfg : ∀ i < step.sequences.length, f i = g i) :
      step.rows f = (step.select keeps).rows g := by
    unfold ScheduledStep.rows
    rw [hlength]
    exact List.map_congr_left fun i hi => hfg i (List.mem_range.1 hi)
  have hassigned {α : Type} {f g : Nat → α} :
      assigned f step.sequences.length (step.rows g) = (step.select keeps).rows f := by
    rw [assigned_all (by rw [ScheduledStep.rows, List.length_map, List.length_range]),
      ScheduledStep.rows, hlength]
  refine
    { stepId := hb.stepId
      layout := hb.layout
      shape := rfl
      tokens_size := hsize
      tokens := ?_
      positions_size := hsize
      positions := ?_
      queryStartOffsets := ?_
      queryLengths := ?_
      pastLengths := ?_
      attentionSequenceLengths := ?_
      stateIndices := ?_
      sequenceOrder := ?_
      sequenceWorks := ?_
      logitsIndices := by rw [hlength]; rfl
      logitsToSequence := by rw [hlength]; rfl }
  · intro i hi j hj
    rw [hlength] at hi
    show writeAll _ (moveAll (keepMoves step keeps) b.hostTokenIds.buffer.cell) _ = _
    have hcell := @writeAll_rows Int step.sequences.length (step.select keeps).width
      (fun k => ((step.select keeps).row k).queryLength.toNat)
      (fun k => (step.select keeps).width - ((step.select keeps).row k).queryLength.toNat)
      (fun _ _ => paddingTokenId)
      (moveAll (keepMoves step keeps) b.hostTokenIds.buffer.cell) i j
      (fun k hk => by have hle := hfits k hk; omega) hj
    rw [hcell]
    have hle := hfits i hi
    unfold ScheduledStep.token
    by_cases hkept : (j : Int) < ((step.select keeps).row i).queryLength
    · rw [if_neg (by omega), if_pos hkept]
      exact moveAll_keepMoves h hkeeps hb hi hkept
    · rw [if_pos (by omega), if_neg hkept]
  · intro i hi j hj
    rw [hlength] at hi
    show writeAll _ (fun _ => paddingSentinel) _ = _
    rw [writeAll_rows_start hfits hj]
    unfold ScheduledStep.position
    have hiff : j < ((step.select keeps).row i).queryLength.toNat ↔
        (j : Int) < ((step.select keeps).row i).queryLength := by omega
    simp only [hi, true_and, hiff]
  · show (assigned _ _ b.queryStartOffsets).set _ _ = _
    have hoffset : (step.select keeps).shape.physicalTokens =
        (step.select keeps).offset step.sequences.length := by
      rw [hsmall.physicalTokens_eq, hlength]
      rfl
    have hextent : b.queryStartOffsets.length = step.sequences.length + 1 := by
      rw [hb.queryStartOffsets, List.length_append, ScheduledStep.rows, List.length_map,
        List.length_range]
      rfl
    rw [hoffset, set_assigned (by rw [hextent]; exact Nat.lt_succ_self _),
      assigned_all (Nat.le_of_eq hextent), map_range_succ, ScheduledStep.rows, hlength]
  · show assigned _ _ b.queryLengths = _
    rw [hb.queryLengths, hassigned]
  · show b.pastLengths = _
    rw [hb.pastLengths]
    exact hrows fun i hi => by rw [select_row hkeeps hi]; rfl
  · show assigned _ _ b.attentionSequenceLengths = _
    rw [hb.attentionSequenceLengths, hassigned]
  · show b.stateIndices = _
    rw [hb.stateIndices]
    exact hrows fun i hi => by rw [select_row hkeeps hi]; rfl
  · show b.sequenceOrder = _
    rw [hb.sequenceOrder]
    exact hrows fun i hi => by rw [select_row hkeeps hi]; rfl
  · show b.sequenceWorks = _
    rw [hb.sequenceWorks]
    exact hrows fun i hi => by rw [select_row hkeeps hi]; rfl

end Moves

theorem foldl_rebuildSequence (hkeeps : List.Forall₂ Keeps step.sequences keeps)
    (hb : Describes step b) (shape : RaggedStepShape) : (List.range step.sequences.length).foldl
        (rebuildSequence step (startOffsets keeps) (step.select keeps).width)
        (movedBatch b (keepMoves step keeps) shape) =
      (step.select keeps).rebuilt (movedBatch b (keepMoves step keeps) shape)
        step.sequences.length := by
  have hextent {α : Type} (f : Nat → α) : (step.rows f).length = step.sequences.length := by
    rw [ScheduledStep.rows, List.length_map, List.length_range]
  have hloop := foldl_range_eq
    (f := rebuildSequence step (startOffsets keeps) (step.select keeps).width)
    (n := step.sequences.length)
    ((step.select keeps).rebuilt (movedBatch b (keepMoves step keeps) shape)) fun i hi =>
      rebuildSequence_rebuilt hkeeps hi hb.pastLengths
        (by
          show i < b.queryStartOffsets.length
          rw [hb.queryStartOffsets, List.length_append, hextent]
          exact Nat.lt_succ_of_lt hi)
        (by
          show i < b.queryLengths.length
          rwa [hb.queryLengths, hextent])
        (by
          show i < b.attentionSequenceLengths.length
          rwa [hb.attentionSequenceLengths, hextent])
  rwa [ScheduledStep.rebuilt_zero] at hloop

/-- The last offset and the number of logits rows of the rebuilt batch. -/
theorem closeBatch_rebuilt (h : Admitted contract step)
    (hkeeps : List.Forall₂ Keeps step.sequences keeps) (description : String) :
    closeBatch step.sequences.length (step.select keeps).shape.physicalTokens description
        ((step.select keeps).rebuilt (movedBatch b (keepMoves step keeps)
          { (step.select keeps).shape with numLogits := b.shape.numLogits })
            step.sequences.length) = .ok (closedBatch step keeps b) := by
  have hsmall := h.select hkeeps
  have hlength := select_length hkeeps
  have hlogits : (((step.select keeps).rebuilt (movedBatch b (keepMoves step keeps)
      { (step.select keeps).shape with numLogits := b.shape.numLogits })
        step.sequences.length).logitsIndices.length : Int) =
      (step.select keeps).shape.numLogits := by
    show (([] ++ ((step.select keeps).logitsRows _).map _ : List Int).length : Int) = _
    rw [List.nil_append, List.length_map, ← hlength]
    rfl
  have hrows := (step.select keeps).length_logitsRows_le (step.select keeps).sequences.length
  have hfits := hsmall.length
  have hlogitsLe : (step.select keeps).shape.numLogits ≤ int32Max := by
    show (((step.select keeps).logitsRows _).length : Int) ≤ _
    omega
  rw [closeBatch_eq (hlogits ▸ hlogitsLe), hlogits]
  rfl

/-- `finalizeSubsetSelection` succeeds, with what describes the smaller step. -/
theorem finalizeSubsetSelection_eq_ok (asserts : Bool) (h : Admitted contract step)
    (hkeeps : List.Forall₂ Keeps step.sequences keeps) (hb : Describes step b)
    (hholds : b.hostTokenIds.Holds step.shape.physicalTokens)
    (hcpu : b.hostTokenIds.onCpu = true) (hint32 : b.hostTokenIds.isInt32 = true) :
    finalizeSubsetSelection asserts contract step (startOffsets keeps) keeps.flatten b =
      .ok (finalBatch step keeps b) := by
  have hsmall := h.select hkeeps
  have hlength := select_length hkeeps
  have hnarrower := select_narrower hkeeps h
  have hsequences : b.shape.numSequences = step.sequences.length := by
    rw [hb.shape]
    rfl
  set tally := (step.select keeps).subsetTally step.sequences.length with htally
  have hphysical : (step.sequences.length : Int) * tally.newQueryWidth =
      (step.select keeps).shape.physicalTokens := by
    rw [htally, ← hlength]
    rfl
  have hshape : (⟨step.sequences.length, tally.validTokens,
      (step.select keeps).shape.physicalTokens, tally.newQueryWidth, b.shape.numContextSequences,
      tally.contextTokens, b.shape.numLogits⟩ : RaggedStepShape) =
        { (step.select keeps).shape with numLogits := b.shape.numLogits } := by
    have hcontexts : b.shape.numContextSequences =
        ((step.select keeps).tally step.sequences.length).numContextSequences := by
      rw [hb.shape, hnarrower.numContextSequences]
      rfl
    rw [hcontexts]
    unfold ScheduledStep.shape
    rw [hlength]
    rfl
  have hwidth : tally.newQueryWidth.toNat = (step.select keeps).width := by
    unfold ScheduledStep.width
    rw [hlength]
    rfl
  have hmoves : subsetMoves (startOffsets keeps) keeps.flatten step.sequences.length
      b.shape.queryWidth.toNat (step.select keeps).width = keepMoves step keeps := by
    rw [hb.shape]
    rfl
  have hvalid := hsmall.validTokens
  have hcontext := hsmall.contextTokens
  rw [hlength] at hvalid hcontext
  have hloop : (List.range step.sequences.length).foldlM
      (admitSubset step (startOffsets keeps) keeps.flatten b) ⟨0, 0, 0⟩ = .ok tally :=
    @foldlM_range_eq_ok _ _ (admitSubset step (startOffsets keeps) keeps.flatten b) _
      (step.select keeps).subsetTally fun i hi => admitSubset_eq hkeeps hb hi
  have hstorage : (closedBatch step keeps b).hostTokenIds.ownMemory = true ∧
      (step.select keeps).shape.physicalTokens ≤
        (closedBatch step keeps b).hostTokenIds.memoryCapacity := by
    refine ⟨hholds.1, Int.le_trans ?_ hholds.2⟩
    rw [← hphysical]
    exact Int.mul_le_mul_of_nonneg_left hnarrower.queryWidth.2 (Int.natCast_nonneg _)
  have hassert : assertBatch asserts contract (finalBatch step keeps b) = .ok () := by
    unfold assertBatch
    cases asserts with
    | false => rfl
    | true => exact (finalBatch_describes h hkeeps hb).validate hsmall hcpu hint32
  unfold finalizeSubsetSelection
  simp only [bind_eq_ok, requireThat_eq_ok, checkedInt32_eq_ok, reshapeTokens_eq_ok, exists_const,
    hsequences, Int.toNat_natCast]
  refine ⟨(), h.valid, (), checkSubset_eq hkeeps hb, _, hloop, _,
    ⟨by rw [hphysical]; exact hsmall.physical, rfl⟩, by rw [hphysical]; exact hsmall.physical_le, _,
    ⟨hvalid, rfl⟩, _, ⟨hcontext, rfl⟩, closedBatch step keeps b, ?_, _,
    ⟨by rw [hphysical]; exact hstorage, rfl⟩, (), ?_, ?_⟩
  · rw [hwidth, hmoves, hphysical, hshape, foldl_rebuildSequence hkeeps hb]
    exact closeBatch_rebuilt h hkeeps _
  · rw [hphysical]
    exact hassert
  · rw [hphysical]
    rfl

end Rebuild

/-! ## The batches of a builder -/

/-- Reserved storage, and what the calls of a builder make of it. -/
inductive Prepared (contract : RaggedEngineContract) : RaggedExecutionBatch → Prop where
  | reserved {allocated : Nat → Int} {raw batch : RaggedExecutionBatch}
      (h : reserve contract allocated raw = .ok batch) : Prepared contract batch
  | built {asserts : Bool} {step : ScheduledStep} {batch built : RaggedExecutionBatch}
      (hbatch : Prepared contract batch) (h : buildInto asserts contract step batch = .ok built) :
      Prepared contract built
  | finalized {asserts : Bool} {step : ScheduledStep} {offsets indices : List Int}
      {batch final : RaggedExecutionBatch} (hbatch : Prepared contract batch)
      (h : finalizeSubsetSelection asserts contract step offsets indices batch = .ok final) :
      Prepared contract final

/-- What `reserve` checks of the storage, and no call changes. -/
def HostTokenIds.IsHostInt32 (tensor : HostTokenIds) : Prop :=
  tensor.onCpu = true ∧ tensor.isInt32 = true

theorem reserve_isHostInt32 {allocated : Nat → Int} {raw batch : RaggedExecutionBatch}
    (h : reserve contract allocated raw = .ok batch) : batch.hostTokenIds.IsHostInt32 := by
  unfold reserve at h
  rw [check_bind_eq_ok] at h
  by_cases hempty : raw.hostTokenIds.buffer.size = 0
  · rw [if_pos hempty] at h
    cases h.2
    exact ⟨rfl, rfl⟩
  · rw [if_neg hempty, check_bind_eq_ok, requireThat_eq_ok] at h
    obtain ⟨-, ⟨hint32, hcpu, -⟩, hbatch⟩ := h
    cases hbatch
    exact ⟨hcpu, hint32⟩

theorem rebuildSequence_isHostInt32 {step : ScheduledStep} {width : Nat} {indices : List Nat}
    {b : RaggedExecutionBatch} (hb : b.hostTokenIds.IsHostInt32) :
    (indices.foldl (rebuildSequence step offsets width) b).hostTokenIds.IsHostInt32 := by
  induction indices generalizing b with
  | nil => exact hb
  | cons index indices ih =>
    apply ih
    unfold rebuildSequence
    rw [selectLogits_eq]
    exact hb

theorem finalize_isHostInt32 {asserts : Bool} {step : ScheduledStep} {indices : List Int}
    {batch final : RaggedExecutionBatch} (hbatch : batch.hostTokenIds.IsHostInt32)
    (h : finalizeSubsetSelection asserts contract step offsets indices batch = .ok final) :
    final.hostTokenIds.IsHostInt32 := by
  unfold finalizeSubsetSelection closeBatch at h
  simp only [bind_eq_ok, requireThat_eq_ok, checkedInt32_eq_ok, reshapeTokens_eq_ok,
    exists_const] at h
  obtain ⟨_, -, _, -, _, -, _, -, -, _, -, _, -, _, ⟨_, -, hclosed⟩, _, ⟨-, rfl⟩, _, -, hfinal⟩ := h
  cases hclosed
  cases hfinal
  exact rebuildSequence_isHostInt32 hbatch

theorem Prepared.isHostInt32 {batch : RaggedExecutionBatch} (h : Prepared contract batch) :
    batch.hostTokenIds.IsHostInt32 := by
  induction h with
  | reserved h => exact reserve_isHostInt32 h
  | built _ h ih =>
    obtain ⟨-, -, rfl, -⟩ := buildInto_eq_ok.1 h
    exact ih
  | finalized _ h ih => exact finalize_isHostInt32 ih h

/-- Finalizing the batch of a step is building the step of the kept tokens. -/
theorem finalizeSubsetSelection_eq_buildInto {asserts : Bool} {contract : RaggedEngineContract}
    {step : ScheduledStep} {batch built : RaggedExecutionBatch} {keeps : List (List Int)}
    (hprepared : Prepared contract batch)
    (hbuild : buildInto asserts contract step batch = .ok built)
    (hkeeps : List.Forall₂ Keeps step.sequences keeps) :
    ∃ final rebuilt,
      finalizeSubsetSelection asserts contract step (startOffsets keeps) keeps.flatten built =
          .ok final ∧
        buildInto asserts contract (step.select keeps) batch = .ok rebuilt ∧
        SameContents final rebuilt ∧
        Unclobbered (subsetMoves (startOffsets keeps) keeps.flatten built.shape.numSequences.toNat
          built.shape.queryWidth.toNat final.shape.queryWidth.toNat) ∧
        validateExecutionBatch built contract = .ok () ∧
        validateExecutionBatch final contract = .ok () ∧
        validateExecutionBatch rebuilt contract = .ok () := by
  obtain ⟨hadmitted, hholds, rfl, -⟩ := buildInto_eq_ok.1 hbuild
  obtain ⟨hcpu, hint32⟩ := hprepared.isHostInt32
  have hsmall := hadmitted.select hkeeps
  have hlength := select_length hkeeps
  have hbuilt := hadmitted.describes batch.hostTokenIds
  have hfinal := finalBatch_describes hadmitted hkeeps hbuilt
  have hrebuilt := hsmall.describes batch.hostTokenIds
  have hsmaller : (step.select keeps).shape.physicalTokens ≤ step.shape.physicalTokens := by
    rw [hsmall.physicalTokens_eq, hadmitted.physicalTokens_eq, hlength]
    exact Int.ofNat_le.2 (Nat.mul_le_mul_left _ (select_width_le hkeeps hadmitted))
  have hvalidated := hrebuilt.validate hsmall hcpu hint32
  have hmoves : subsetMoves (startOffsets keeps) keeps.flatten
      step.shape.numSequences.toNat step.shape.queryWidth.toNat
      (step.select keeps).shape.queryWidth.toNat = keepMoves step keeps := by
    have hsequences : step.shape.numSequences.toNat = step.sequences.length :=
      Int.toNat_natCast _
    rw [hsequences]
    rfl
  refine ⟨_, _, finalizeSubsetSelection_eq_ok asserts hadmitted hkeeps hbuilt hholds hcpu hint32,
    buildInto_eq_ok.2 ⟨hsmall, ⟨hholds.1, Int.le_trans hsmaller hholds.2⟩, rfl, ?_⟩,
    hfinal.sameContents hrebuilt, ?_, hbuilt.validate hadmitted hcpu hint32,
    hfinal.validate hsmall hcpu hint32, hvalidated⟩
  · unfold assertBatch
    cases asserts with
    | false => rfl
    | true => exact hvalidated
  · exact hmoves ▸ unclobbered_keepMoves hadmitted hkeeps

/-- Four sequences of up to eight tokens. -/
def smallEngine : RaggedEngineContract := ⟨.entryPaddedCompatibility, 4, 8, 32, 4, false⟩

/-- A new batch on a tensor. -/
def newBatch (tensor : HostTokenIds) : RaggedExecutionBatch :=
  ⟨0, .entryPaddedCompatibility, ⟨0, 0, 0, 0, 0, 0, 0⟩, tensor, [], ⟨0, fun _ => 0⟩, [], [], [], [],
    [], [], [], []⟩

/-- Two prompts, the second with a prefix in the cache. -/
def twoPrompts : ScheduledStep where
  id := 7
  sequences :=
    [⟨⟨11, ⟨0, 1⟩⟩, .context, 3, 0, ⟨some [5, 6, 7], 3, 0, 3, by rintro _ ⟨⟩; rfl⟩, true⟩,
      ⟨⟨12, ⟨2, 1⟩⟩, .context, 2, 4, ⟨some [8, 9], 2, 0, 2, by rintro _ ⟨⟩; rfl⟩, true⟩]

/-- Tokens 0 and 2 of the first prompt and token 1 of the second are kept. -/
theorem finalizeSubsetSelection_twoPrompts :
    ∃ built final rebuilt,
      buildInto true smallEngine twoPrompts (newBatch ⟨⟨32, fun _ => 0⟩, true, true, true, 32⟩) =
          .ok built ∧
        finalizeSubsetSelection true smallEngine twoPrompts (startOffsets [[0, 2], [1]]) [0, 2, 1]
          built = .ok final ∧
        buildInto true smallEngine (twoPrompts.select [[0, 2], [1]])
          (newBatch ⟨⟨32, fun _ => 0⟩, true, true, true, 32⟩) = .ok rebuilt ∧
        SameContents final rebuilt := by
  have hprepared : Prepared smallEngine (newBatch ⟨⟨32, fun _ => 0⟩, true, true, true, 32⟩) :=
    @Prepared.reserved _ (fun _ => 0) (newBatch ⟨⟨0, fun _ => 0⟩, true, true, true, 0⟩) _ rfl
  have hkeeps : List.Forall₂ Keeps twoPrompts.sequences [[0, 2], [1]] :=
    .cons ⟨by decide, by decide, by decide⟩ (.cons ⟨by decide, by decide, by decide⟩ .nil)
  have hok : (buildInto true smallEngine twoPrompts
      (newBatch ⟨⟨32, fun _ => 0⟩, true, true, true, 32⟩)).isOk = true := by decide +kernel
  cases hbuild : buildInto true smallEngine twoPrompts
      (newBatch ⟨⟨32, fun _ => 0⟩, true, true, true, 32⟩) with
  | error e =>
    rw [hbuild] at hok
    cases hok
  | ok built =>
    obtain ⟨final, rebuilt, hfinal, hrebuilt, hsame, -⟩ :=
      finalizeSubsetSelection_eq_buildInto hprepared hbuild hkeeps
    exact ⟨built, final, rebuilt, rfl, hfinal, hrebuilt, hsame⟩

end EdgeLLM.Ports.RaggedBatch
