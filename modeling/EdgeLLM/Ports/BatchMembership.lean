import EdgeLLM.Ports.DecodingInferenceContext

/-!
# The membership of a batch

A batch grows by an admission and shrinks by an eviction; in between its slots are
updated one at a time, and the prefill of a joiner shows its row as row zero.  The
matchers of guided decoding belong to the runtime and are numbered by slot.
-/

namespace EdgeLLM.Ports.Generation

open Utf8 (Bytes)
open Verified Checked

/-- Why an operation on the batch throws, one constructor per check. -/
inductive MembershipFailure where
  | emptyBatch
  | emptyPrompt
  | prefillStartRange
  | inconsistent
  | zeroRequestId
  | residentNotReserved
  | identityInUse
  | originalIndexLive
  | originalIndexCollected
  | channelAttached
  | residentStale
  | epochOverflow
  | slotNotLive
  | rowRange
  | reusedPrefix
  | guidedBatch
  | committedMismatch
  | leaseThrew
  | prefillThrew

/-- A joining sequence, with the fields of `SlotSeed` that no session reads. -/
structure AdmissionSeed where
  seed : SlotSeed
  systemPrompt : Bytes := []
  samplingSeed : UInt64 := kDefaultSamplingSeed
  logitBias : LogitBias := ∅
  /-- The channel is attached to another sequence. -/
  channelAttached : Bool := false

/-- The row that `appendSlot` prepares. -/
def AdmissionSeed.row (seed : AdmissionSeed) (context : DecodingInferenceContext)
    (requestId : Nat) (resident : ResidentRef) : SlotRow where
  systemPrompt := seed.systemPrompt
  rawBatchedInputIds := seed.seed.promptTokenIds
  tokenIds := seed.seed.workingTokens
  prefillStartLength := seed.seed.prefillStart
  committedLength := seed.seed.prefillStart
  requestId := requestId
  residentRef := resident
  prunedPrefillTokens := if context.prunedPrefillTokens ≠ [] then some 0 else none
  batchIndex := seed.seed.originalIndex
  slotStream := (seed.seed.joinerRow true).slotStream
  samplingSeed := seed.samplingSeed
  -- the capacity of the log-probabilities is that of the first slot
  stepLogprobs :=
    if 0 < context.numLogprobs then
      { data := List.replicate (context.stepLogprobs.headD {}).data.length (0, 0) }
    else {}
  stopStrings := seed.seed.stopStrings
  logitBias := seed.logitBias
  callbackEmittedTokenCount := seed.seed.workingTokens.length

/-- The context of a batch, and the matchers of the runtime's `GuidedDecoder`. -/
structure BatchState (Matcher : Type) where
  context : DecodingInferenceContext
  matchers : List (Option Matcher)

/-- A computation on the context. -/
abbrev ContextM (α : Type) : Type := Checked MembershipFailure DecodingInferenceContext α

/-- A computation on the batch. -/
abbrev BatchM (Matcher α : Type) : Type := Checked MembershipFailure (BatchState Matcher) α

namespace DecodingInferenceContext

def appendSlot (seed : AdmissionSeed) (requestId : Nat) (resident : ResidentRef) :
    ContextM Nat := do
  let context ← Checked.read id
  Checked.check (0 < context.activeBatchSize) .emptyBatch
  Checked.check (seed.seed.promptTokenIds ≠ []) .emptyPrompt
  Checked.check (seed.seed.prefillStart < seed.seed.promptTokenIds.length) .prefillStartRange
  Checked.check (context.perSlotSizesConsistent = true) .inconsistent
  Checked.check (requestId ≠ 0) .zeroRequestId
  Checked.check (context.residentSlots.contains resident = true) .residentNotReserved
  Checked.check (requestId ∉ context.requestIds ∧ resident ∉ context.residentRefs) .identityInUse
  Checked.check (seed.seed.originalIndex ∉ context.batchIndexMapping) .originalIndexLive
  Checked.check (seed.seed.originalIndex ∉ context.completedBatches) .originalIndexCollected
  Checked.check (seed.channelAttached = false) .channelAttached
  Checked.modify fun context => context.pushSlot (seed.row context requestId resident)
  let grown ← Checked.read id
  Checked.check (grown.perSlotSizesConsistent = true) .inconsistent
  pure (grown.activeBatchSize - 1)

/-- What `appendSlot` has checked before it grows the batch. -/
structure Admissible (context : DecodingInferenceContext) (seed : AdmissionSeed)
    (requestId : Nat) (resident : ResidentRef) : Prop where
  rectangular : context.Rectangular context.activeBatchSize
  reserved : context.residentSlots.contains resident = true
  requestId_fresh : requestId ∉ context.requestIds
  resident_fresh : resident ∉ context.residentRefs
  notLive : seed.seed.originalIndex ∉ context.batchIndexMapping
  notCollected : seed.seed.originalIndex ∉ context.completedBatches

theorem fits_row (context : DecodingInferenceContext) (seed : AdmissionSeed) (requestId : Nat)
    (resident : ResidentRef) : context.Fits (seed.row context requestId resident) := by
  rw [Fits, AdmissionSeed.row]
  cases context.prunedPrefillTokens <;> rfl

/-- An admission appends one whole row, or throws and changes nothing. -/
theorem appendSlot_spec (context : DecodingInferenceContext) (seed : AdmissionSeed)
    (requestId : Nat) (resident : ResidentRef) : Ensures (appendSlot seed requestId resident)
      (fun slot grown => slot = context.activeBatchSize ∧
        grown = context.pushSlot (seed.row context requestId resident) ∧
        context.Admissible seed requestId resident) (fun _ after => after = context) context := by
  simp only [appendSlot, ensures_bind, ensures_read, ensures_check,
    ensures_modify, ensures_pure, id_eq, implies_true, and_true]
  intro _ _ _ hconsistent _ hreserved hfresh hlive hcollected _
  have hrectangular := (perSlotSizesConsistent_iff context).1 hconsistent
  have hgrown := (perSlotSizesConsistent_iff _).2
    (hrectangular.pushSlot (context.fits_row seed requestId resident))
  constructor
  · intro _
    exact ⟨rfl, trivial, hrectangular, hreserved, hfresh.1, hfresh.2, hlive, hcollected⟩
  · intro hshort
    exact absurd hgrown hshort

/-! ## `prefillSlotInPlace` -/

end DecodingInferenceContext

/-- What names the request of a row, and its pruned count. -/
structure RowIdentity where
  requestId : Nat
  residentRef : ResidentRef
  batchIndex : Int
  prunedPrefillTokens : Option Nat

/-- The identity of a row. -/
def SlotRow.identity (row : SlotRow) : RowIdentity where
  requestId := row.requestId
  residentRef := row.residentRef
  batchIndex := row.batchIndex
  prunedPrefillTokens := row.prunedPrefillTokens

/-- What a step does to the row of one slot; it leaves the identity alone. -/
structure RowUpdate where
  apply : SlotRow → SlotRow
  keeps : ∀ row, (apply row).identity = row.identity

/-- What decides whether a prefill prunes visual tokens, and the context cache. -/
structure PrefillSettings where
  mVisualPruner : Bool := false
  outputThinkerEmbeddings : Bool := false
  layerDebugger : Bool := false
  mContextCache : Bool := false

/-- Prefills of sequences without a past prune. -/
def PrefillSettings.prunes (settings : PrefillSettings) : Bool :=
  settings.mVisualPruner && !settings.outputThinkerEmbeddings && !settings.layerDebugger

/-- What `runBaseModelPrefill` does with a batch of one, and how it ends; one that
fails may do so before the pruner. -/
structure SeatedPrefill where
  update : RowUpdate
  reachesPruner : Bool := true
  prunedTokens : Nat := 0
  exit : Except MembershipFailure Bool := .ok true

namespace DecodingInferenceContext

/-- The row of slot `i`, updated. -/
def updateRow (context : DecodingInferenceContext) (i : Nat) (update : RowUpdate) :
    DecodingInferenceContext :=
  context.setRow i (update.apply (context.row i))

def swapExecutionRows (rowA rowB : Nat) : ContextM Unit := do
  let context ← Checked.read id
  Checked.check (rowA < context.activeBatchSize ∧ rowB < context.activeBatchSize) .rowRange
  Checked.check (context.perSlotSizesConsistent = true) .inconsistent
  if rowA = rowB then pure ()
  else Checked.modify fun context => context.restoreExecutionRows rowA rowB

/-- The prefill of a batch of one: row zero of the narrowed context.  The pruner sizes
its counts by the active batch. -/
def narrowedPrefill (settings : PrefillSettings) (prefill : SeatedPrefill)
    (context : DecodingInferenceContext) : DecodingInferenceContext :=
  let narrowed : DecodingInferenceContext :=
    { context with
      activeBatchSize := 1
      effectivePrefillLengths :=
        context.effectivePrefillLengths.set 0 (context.tokenIds.getD 0 []).length }
  let pruned : DecodingInferenceContext :=
    if settings.prunes && prefill.reachesPruner && context.committedLengths.getD 0 0 == 0 then
      { narrowed with prunedPrefillTokens := [prefill.prunedTokens] }
    else narrowed
  pruned.updateRow 0 prefill.update

/-- `prefillSlotInPlace`; its guard restores the batch on every exit. -/
def prefillSlotInPlace (settings : PrefillSettings) (slot prefillStart : Nat)
    (prefill : SeatedPrefill) : ContextM Bool := do
  let context ← Checked.read id
  Checked.check (0 < slot ∧ slot < context.activeBatchSize) .slotNotLive
  Checked.check (settings.mContextCache = true ∨ prefillStart = 0) .reusedPrefix
  Checked.check (context.hasGuidedDecoding = false) .guidedBatch
  Checked.check (context.committedLengths.getD slot 0 = prefillStart) .committedMismatch
  swapExecutionRows 0 slot
  Checked.modify (narrowedPrefill settings prefill)
  Checked.modify fun narrowed =>
    ({ narrowed with activeBatchSize := context.activeBatchSize } :
      DecodingInferenceContext).restoreExecutionRows 0 slot
  ofExcept prefill.exit

end DecodingInferenceContext

/-! ## `performBatchEvict` -/

/-- The loop of `GuidedDecoder::compactSlots`. -/
def compactMatchers {Matcher : Type} :
    List Int → List (Option Matcher) → List (Option Matcher) → List (Option Matcher)
  | newSlot :: batchMapping, matcher :: matchers, compacted =>
    compactMatchers batchMapping matchers
      (if 0 ≤ newSlot ∧ newSlot.toNat < compacted.length then
        compacted.set newSlot.toNat matcher
      else compacted)
  | _, _, compacted => compacted

/-- `GuidedDecoder::compactSlots`. -/
def compactGuides {Matcher : Type} (batchMapping : List Int) (matchers : List (Option Matcher)) :
    List (Option Matcher) :=
  compactMatchers batchMapping matchers (List.replicate matchers.length none)

/-- The result that an evicted slot is filed with. -/
def SlotRow.filed (row : SlotRow) (generationRound numLogprobs : Nat) : FiledResult where
  result :=
    { tokenIds := row.tokenIds
      rawBatchedInputIds := row.rawBatchedInputIds
      generateLength := row.currentGenerateLength
      actualIterations := generationRound
      terminalReason := row.slotStream.terminalReason }
  effectivePrefillLength := row.effectivePrefillLength
  prunedPrefillTokens := row.prunedPrefillTokens.getD 0
  acceptedDraftTokens := row.acceptedDraftTokens
  proposedDraftTokens := row.proposedDraftTokens
  logprobs := (List.range row.stepLogprobs.numSteps).map fun step =>
    (row.stepLogprobs.data.drop (step * numLogprobs)).take numLogprobs

namespace DecodingInferenceContext

/-- The indices that a mapping evicts. -/
def evictedIndices (context : DecodingInferenceContext) (batchMapping : List Int) : List Nat :=
  (List.range context.activeBatchSize).filter fun i => decide (batchMapping.getD i 0 < 0)

/-- The results of the evicted slots, under their original indices. -/
def fileResults (context : DecodingInferenceContext) (batchMapping : List Int) :
    DecodingInferenceContext :=
  { context with
    completedBatches := (context.evictedIndices batchMapping).foldl
      (fun completed i => completed.insert (context.row i).batchIndex
        ((context.row i).filed context.generationRound context.numLogprobs))
      context.completedBatches }

/-- The resident slots, replaced. -/
def withPool (context : DecodingInferenceContext) (pool : ResidentSlotPool) :
    DecodingInferenceContext :=
  { context with residentSlots := pool }

/-- One retired resident; `release` must not fail. -/
def releaseResident (resident : ResidentRef) : ContextM Unit :=
  Checked.mutate fun context =>
    match context.residentSlots.release resident with
    | .ok pool => .ok (context.withPool pool)
    | .error .stale => .error .residentStale
    | .error .epochOverflow => .error .epochOverflow

end DecodingInferenceContext

namespace BatchState

variable {Matcher : Type}

/-- A computation on the context of a batch. -/
def onContext {α : Type} (m : ContextM α) : BatchM Matcher α :=
  Checked.zoom BatchState.context (fun context s => { s with context := context }) m

/-- `performBatchEvict`.  A managed cache may refuse to begin or to complete the
compaction. -/
def performBatchEvict (began completed : Bool) : BatchM Matcher Bool := do
  let s ← Checked.read id
  Checked.check (s.context.perSlotSizesConsistent = true) .inconsistent
  if s.context.rows.any SlotRow.finishedState then
    if began && completed then do
      let batchMapping := DecodingInferenceContext.buildBatchMapping s.context.finishedStates
      onContext (forEach DecodingInferenceContext.releaseResident
        ((s.context.evictedIndices batchMapping).map fun i => (s.context.row i).residentRef))
      Checked.modify fun s =>
        let matchers := compactGuides batchMapping s.matchers
        { context := (s.context.fileResults batchMapping).compactSlots batchMapping
            (matchers.any Option.isSome)
          matchers := matchers }
      pure true
    else pure false
  else pure true

end BatchState

/-! ## One slot -/

namespace DecodingInferenceContext

/-- The contexts differ in the row of one slot, which keeps its identity, and in the
upload flag of the bias table. -/
structure Touches (slot : Nat) (before after : DecodingInferenceContext) : Prop where
  rectangular : after.Rectangular before.activeBatchSize
  activeBatchSize : after.activeBatchSize = before.activeBatchSize
  row : ∀ j, j < before.activeBatchSize → j ≠ slot → after.row j = before.row j
  identity : (after.row slot).identity = (before.row slot).identity
  residentSlots : after.residentSlots = before.residentSlots
  completedBatches : after.completedBatches = before.completedBatches
  hasGuidedDecoding : after.hasGuidedDecoding = before.hasGuidedDecoding

section Touches

variable {context : DecodingInferenceContext} {n : Nat}

theorem Rectangular.fits_update (h : context.Rectangular n) {i : Nat} (hi : i < n)
    (update : RowUpdate) : context.Fits (update.apply (context.row i)) := by
  have hpruned : (update.apply (context.row i)).prunedPrefillTokens =
      (context.row i).prunedPrefillTokens :=
    congrArg RowIdentity.prunedPrefillTokens (update.keeps (context.row i))
  rw [Fits, hpruned]
  exact h.fits_row hi

theorem Rectangular.updateRow (h : context.Rectangular n) (i : Nat) (update : RowUpdate) :
    (context.updateRow i update).Rectangular n :=
  h.setRow i _

theorem Rectangular.row_updateRow (h : context.Rectangular n) {i : Nat} (hi : i < n)
    (update : RowUpdate) (j : Nat) : (context.updateRow i update).row j =
      if i = j then update.apply (context.row i) else context.row j :=
  h.row_setRow (h.fits_update hi update) hi j

theorem touches_updateRow (h : context.Rectangular context.activeBatchSize) {i : Nat}
    (hi : i < context.activeBatchSize) (update : RowUpdate) :
    Touches i context (context.updateRow i update) where
  rectangular := h.updateRow i update
  activeBatchSize := rfl
  row := by
    intro j _ hj
    rw [h.row_updateRow hi, if_neg (Ne.symm hj)]
  identity := by
    rw [h.row_updateRow hi, if_pos rfl]
    exact update.keeps _
  residentSlots := rfl
  completedBatches := rfl
  hasGuidedDecoding := rfl

/-- An exchange of two rows, undone after a change of the first, changes the second. -/
theorem touches_exchanged (h : context.Rectangular context.activeBatchSize) {slot : Nat}
    (hslot : 0 < slot) (hlt : slot < context.activeBatchSize) {narrowed : DecodingInferenceContext}
    (hnarrowed : narrowed.Rectangular context.activeBatchSize)
    (hrow : ∀ j, j < context.activeBatchSize → j ≠ 0 →
      narrowed.row j = (context.restoreExecutionRows 0 slot).row j)
    (hidentity : (narrowed.row 0).identity = ((context.restoreExecutionRows 0 slot).row 0).identity)
    (hresidents : narrowed.residentSlots = context.residentSlots)
    (hcompleted : narrowed.completedBatches = context.completedBatches)
    (hguided : narrowed.hasGuidedDecoding = context.hasGuidedDecoding) :
    Touches slot context
      (({ narrowed with activeBatchSize := context.activeBatchSize } :
        DecodingInferenceContext).restoreExecutionRows 0 slot) := by
  have hswap := @reindexes_swapAt 0 slot context.activeBatchSize (by omega) hlt
  have hfirst : ∀ j, j < context.activeBatchSize →
      (context.restoreExecutionRows 0 slot).row j = context.row (Equiv.swap 0 slot j) := by
    intro j hj
    obtain ⟨dirty, hrestore⟩ := context.restoreExecutionRows_eq 0 slot
    rw [hrestore]
    exact h.row_mapColumns hswap hj
  set wide : DecodingInferenceContext :=
    { narrowed with activeBatchSize := context.activeBatchSize }
  obtain ⟨dirty, hrestore⟩ := wide.restoreExecutionRows_eq 0 slot
  have hwide : wide.Rectangular context.activeBatchSize :=
    hnarrowed.scalars _ _ _ _ _ _ _ _
  have hlast : ∀ j, j < context.activeBatchSize →
      (wide.restoreExecutionRows 0 slot).row j = narrowed.row (Equiv.swap 0 slot j) := by
    intro j hj
    rw [hrestore]
    exact hwide.row_mapColumns hswap hj
  refine ⟨?_, ?_, ?_, ?_, ?_, ?_, ?_⟩
  · rw [hrestore]
    exact (hwide.mapColumns hswap).scalars _ _ _ _ _ _ _ _
  · rw [hrestore]
    rfl
  · intro j hj hne
    rw [hlast j hj]
    by_cases hzero : j = 0
    · rw [hzero, Equiv.swap_apply_left, hrow slot hlt (by omega), hfirst slot hlt,
        Equiv.swap_apply_right]
    · rw [Equiv.swap_apply_of_ne_of_ne hzero hne, hrow j hj hzero, hfirst j hj,
        Equiv.swap_apply_of_ne_of_ne hzero hne]
  · rw [hlast slot hlt, Equiv.swap_apply_right, hidentity, hfirst 0 (by omega),
      Equiv.swap_apply_left]
  · rw [hrestore]
    exact hresidents
  · rw [hrestore]
    exact hcompleted
  · rw [hrestore]
    exact hguided

/-- The prefill of a batch of one that does not prune changes row zero. -/
theorem Rectangular.narrowedPrefill {settings : PrefillSettings} {prefill : SeatedPrefill}
    (h : context.Rectangular n) (hpos : 0 < n)
    (hkeeps : (settings.prunes && prefill.reachesPruner &&
      context.committedLengths.getD 0 0 == 0) = false) :
    (context.narrowedPrefill settings prefill).Rectangular n ∧
      (∀ j, j ≠ 0 → (context.narrowedPrefill settings prefill).row j = context.row j) ∧
      ((context.narrowedPrefill settings prefill).row 0).identity = (context.row 0).identity := by
  rw [DecodingInferenceContext.narrowedPrefill, hkeeps, if_neg Bool.false_ne_true]
  have hnarrowed : ({ context with
      activeBatchSize := 1
      effectivePrefillLengths := context.effectivePrefillLengths.set 0
        (context.tokenIds.getD 0 []).length } : DecodingInferenceContext).Rectangular n :=
    ⟨h.systemPrompts, h.rawBatchedInputIds, h.tokenIds, h.currentGenerateLengths, h.samplingSeeds,
      h.acceptedDraftTokens, h.proposedDraftTokens,
      (List.length_set).trans h.effectivePrefillLengths, h.prefillStartLengths,
      h.committedLengths, h.requestIds, h.residentRefs, h.finishedStates, h.batchIndexMapping,
      h.thinkingDone, h.guidedReasoningEnded, h.callbackEmittedTokenCounts, h.slotStreams,
      h.stopStringsPerSlot, h.logitBiasPerSlot, h.stepLogprobs, h.prunedPrefillTokens⟩
  refine ⟨hnarrowed.updateRow 0 prefill.update, ?_, ?_⟩
  · intro j hj
    have hlength : (context.effectivePrefillLengths.set 0
        (context.tokenIds.getD 0 []).length).getD j 0 = context.effectivePrefillLengths.getD j 0 := by
      rw [List.getD_eq_getElem?_getD, List.getElem?_set_ne (Ne.symm hj),
        ← List.getD_eq_getElem?_getD]
    rw [hnarrowed.row_updateRow hpos, if_neg (Ne.symm hj), DecodingInferenceContext.row,
      DecodingInferenceContext.row]
    dsimp only
    rw [hlength]
  · rw [hnarrowed.row_updateRow hpos, if_pos rfl, prefill.update.keeps]
    rfl

/-- An exchange, and a prefill of a batch of one, keep what is no vector. -/
theorem narrowedPrefill_restored (context : DecodingInferenceContext) (slot : Nat)
    (settings : PrefillSettings) (prefill : SeatedPrefill) :
    ((context.restoreExecutionRows 0 slot).narrowedPrefill settings prefill).residentSlots =
        context.residentSlots ∧
      ((context.restoreExecutionRows 0 slot).narrowedPrefill settings prefill).completedBatches =
        context.completedBatches ∧ ((context.restoreExecutionRows 0 slot).narrowedPrefill settings
        prefill).hasGuidedDecoding = context.hasGuidedDecoding := by
  obtain ⟨dirty, hrestore⟩ := context.restoreExecutionRows_eq 0 slot
  rw [hrestore, DecodingInferenceContext.narrowedPrefill]
  split <;> exact ⟨rfl, rfl, rfl⟩

/-- The prefill of a joiner that does not prune changes its row only; a check that
fails changes nothing. -/
theorem prefillSlotInPlace_spec (settings : PrefillSettings) (slot prefillStart : Nat)
    (prefill : SeatedPrefill) (h : context.Rectangular context.activeBatchSize)
    (hkeeps : settings.prunes = false ∨ prefill.reachesPruner = false ∨ prefillStart ≠ 0) :
    Ensures (prefillSlotInPlace settings slot prefillStart prefill)
      (fun _ after => 0 < slot ∧ slot < context.activeBatchSize ∧ Touches slot context after)
      (fun _ after => after = context ∨
        0 < slot ∧ slot < context.activeBatchSize ∧ Touches slot context after) context := by
  simp only [prefillSlotInPlace, swapExecutionRows, ensures_bind, ensures_read,
    ensures_check, ensures_modify, ensures_ite, ensures_pure, id_eq,
    true_or, implies_true, and_true]
  intro hslot _ _ hcommitted _ _
  have hdone : Touches slot context
      (({ (context.restoreExecutionRows 0 slot).narrowedPrefill settings prefill with
        activeBatchSize := context.activeBatchSize } :
          DecodingInferenceContext).restoreExecutionRows 0 slot) := by
    have hswap := @reindexes_swapAt 0 slot context.activeBatchSize (by omega) hslot.2
    obtain ⟨dirty, hrestore⟩ := context.restoreExecutionRows_eq 0 slot
    have hexchanged : (context.restoreExecutionRows 0 slot).Rectangular
        context.activeBatchSize := by
      rw [hrestore]
      exact (h.mapColumns hswap).scalars _ _ _ _ _ _ _ _
    have hpast : (context.restoreExecutionRows 0 slot).committedLengths.getD 0 0 =
        prefillStart := by
      rw [← hcommitted, hrestore]
      exact hswap.getD h.committedLengths (by omega) 0
    obtain ⟨hrectangular, hrow, hidentity⟩ := @Rectangular.narrowedPrefill
      (context.restoreExecutionRows 0 slot) context.activeBatchSize settings prefill hexchanged
      (by omega) (by
        rw [hpast]
        rcases hkeeps with hsettings | hrest
        · rw [hsettings]; rfl
        · cases hrest with
          | inl hreaches => rw [hreaches, Bool.and_false]; rfl
          | inr hstart => rw [beq_eq_false_iff_ne.2 hstart, Bool.and_false])
    obtain ⟨hresidents, hcompleted, hguided⟩ :=
      context.narrowedPrefill_restored slot settings prefill
    exact touches_exchanged h hslot.1 hslot.2 hrectangular (fun j _ hj => hrow j hj) hidentity
      hresidents hcompleted hguided
  constructor
  · intro hsame
    omega
  · intro _
    rw [ensures_ofExcept]
    cases prefill.exit with
    | ok done => exact ⟨hslot.1, hslot.2, hdone⟩
    | error failure => exact Or.inr ⟨hslot.1, hslot.2, hdone⟩

end Touches

end DecodingInferenceContext

/-! ## The batch in order -/

/-- Inserting entries under different keys: what each key has afterwards. -/
theorem lookup_foldl_insert {α β γ : Type} [DecidableEq α] (key : γ → α) (value : γ → β)
    (entries : List γ) : ∀ init : AList fun _ : α => β, (entries.map key).Nodup →
      (∀ entry ∈ entries, (entries.foldl (fun filed entry => filed.insert (key entry) (value entry))
        init).lookup (key entry) = some (value entry)) ∧
      ∀ a, a ∉ entries.map key → (entries.foldl (fun filed entry =>
        filed.insert (key entry) (value entry)) init).lookup a = init.lookup a := by
  induction entries with
  | nil =>
    intro init _
    exact ⟨(fun entry hmem => by cases hmem), fun _ _ => rfl⟩
  | cons entry rest ih =>
    intro init hnodup
    rw [List.map_cons, List.nodup_cons] at hnodup
    obtain ⟨hrest, hother⟩ := ih (init.insert (key entry) (value entry)) hnodup.2
    constructor
    · intro e hmem
      rw [List.mem_cons] at hmem
      rcases hmem with hhead | htail
      · rw [hhead, List.foldl_cons, hother _ hnodup.1, AList.lookup_insert]
      · exact hrest e htail
    · intro a ha
      rw [List.map_cons, List.mem_cons, not_or] at ha
      rw [List.foldl_cons, hother a ha.2, AList.lookup_insert_ne ha.1]

namespace DecodingInferenceContext

/-- The vectors agree on the batch, the live rows have different identities, and the
resident slots are free or held by one live row. -/
structure Coherent (context : DecodingInferenceContext) : Prop where
  rectangular : context.Rectangular context.activeBatchSize
  originals : (context.rows.map SlotRow.batchIndex).Nodup
  requests : (context.rows.map SlotRow.requestId).Nodup
  residents : context.residentSlots.Owned (context.rows.map SlotRow.residentRef)
  uncollected : ∀ index ∈ context.rows.map SlotRow.batchIndex, index ∉ context.completedBatches

section Coherent

variable {context after : DecodingInferenceContext} {slot : Nat}

theorem Touches.map_identity (h : Touches slot context after) {α : Type} (f : RowIdentity → α) :
    after.rows.map (fun row => f row.identity) = context.rows.map fun row => f row.identity := by
  rw [rows, rows, h.activeBatchSize, List.map_map, List.map_map]
  apply List.map_congr_left
  intro j hj
  have hlt := List.mem_range.1 hj
  show f (after.row j).identity = f (context.row j).identity
  by_cases hslot : j = slot
  · rw [hslot, h.identity]
  · rw [h.row j hlt hslot]

theorem Coherent.touches (h : context.Coherent) (htouches : Touches slot context after) :
    after.Coherent := by
  have horiginals : after.rows.map SlotRow.batchIndex = context.rows.map SlotRow.batchIndex :=
    htouches.map_identity RowIdentity.batchIndex
  have hrequests : after.rows.map SlotRow.requestId = context.rows.map SlotRow.requestId :=
    htouches.map_identity RowIdentity.requestId
  have hresidents : after.rows.map SlotRow.residentRef = context.rows.map SlotRow.residentRef :=
    htouches.map_identity RowIdentity.residentRef
  refine ⟨?_, ?_, ?_, ?_, ?_⟩
  · rw [htouches.activeBatchSize]
    exact htouches.rectangular
  · rw [horiginals]
    exact h.originals
  · rw [hrequests]
    exact h.requests
  · rw [hresidents, htouches.residentSlots]
    exact h.residents
  · rw [horiginals, htouches.completedBatches]
    exact h.uncollected

theorem rows_pushSlot (h : context.Rectangular context.activeBatchSize) {row : SlotRow}
    (hfits : context.Fits row) : (context.pushSlot row).rows = context.rows ++ [row] := by
  show (List.range (context.activeBatchSize + 1)).map (context.pushSlot row).row = _
  rw [List.range_succ, List.map_append, List.map_singleton,
    h.row_pushSlot hfits _ (Nat.lt_succ_self _), if_neg (Nat.lt_irrefl _), rows]
  congr 1
  apply List.map_congr_left
  intro j hj
  have hlt := List.mem_range.1 hj
  rw [h.row_pushSlot hfits j (Nat.lt_succ_of_lt hlt), if_pos hlt]

theorem map_evictedIndices (h : context.Rectangular context.activeBatchSize) :
    (context.evictedIndices (buildBatchMapping context.finishedStates)).map context.row =
      context.rows.filter SlotRow.finishedState := by
  have hmarked : ∀ (gone : List Bool) (newIdx i : Nat), i < gone.length →
      decide ((batchMappingFrom newIdx gone).getD i 0 < 0) = gone.getD i false := by
    intro gone
    induction gone with
    | nil =>
      intro newIdx i hi
      cases hi
    | cons g rest ih =>
      intro newIdx i hi
      cases i with
      | zero =>
        cases g with
        | true => rfl
        | false =>
          show decide ((newIdx : Int) < 0) = false
          rw [decide_eq_false_iff_not]
          omega
      | succ i =>
        have hrest := Nat.lt_of_succ_lt_succ hi
        cases g with
        | true => exact ih newIdx i hrest
        | false => exact ih (newIdx + 1) i hrest
  rw [evictedIndices, rows, List.filter_map]
  congr 1
  apply List.filter_congr
  intro i hi
  exact hmarked context.finishedStates 0 i
    (by rw [h.finishedStates]; exact List.mem_range.1 hi)

end Coherent

end DecodingInferenceContext

section Matchers

variable {Matcher : Type}

/-- The matchers that stay move up, and the places after them are empty. -/
theorem compactGuides_eq (gone : List Bool) (matchers : List (Option Matcher)) :
    ∃ k, compactGuides (DecodingInferenceContext.buildBatchMapping gone) matchers =
      keepBy gone matchers ++ List.replicate k none := by
  have hloop : ∀ (gone : List Bool) (matchers done : List (Option Matcher)) (k : Nat),
      (keepBy gone matchers).length ≤ k →
        compactMatchers (DecodingInferenceContext.batchMappingFrom done.length gone) matchers
            (done ++ List.replicate k none) = done ++ keepBy gone matchers ++
            List.replicate (k - (keepBy gone matchers).length) none := by
    intro gone
    induction gone with
    | nil =>
      intro matchers done k _
      show done ++ List.replicate k none = done ++ [] ++ List.replicate (k - 0) none
      rw [List.append_nil, Nat.sub_zero]
    | cons g rest ih =>
      intro matchers done k hk
      cases matchers with
      | nil =>
        rw [keepBy_nil, List.append_nil, List.length_nil, Nat.sub_zero]
        cases g <;> rfl
      | cons matcher matchers =>
        cases g with
        | true => exact ih matchers done k hk
        | false =>
          rw [keepBy, if_neg Bool.false_ne_true, List.length_cons] at hk
          rw [keepBy, if_neg Bool.false_ne_true, List.length_cons]
          have hplaced : (done ++ List.replicate k none).set done.length matcher =
              (done ++ [matcher]) ++ List.replicate (k - 1) none := by
            rw [List.set_append_right _ _ (Nat.le_refl _), Nat.sub_self, List.append_assoc]
            rw [show k = (k - 1) + 1 by omega, List.replicate_succ]
            rfl
          show compactMatchers (DecodingInferenceContext.batchMappingFrom (done.length + 1)
            rest) matchers (if _ ∧ _ then _ else _) = _
          rw [if_pos ⟨Int.natCast_nonneg _, by
              rw [Int.toNat_natCast, List.length_append, List.length_replicate]
              omega⟩, Int.toNat_natCast, hplaced]
          have hnext := ih matchers (done ++ [matcher]) (k - 1) (by omega)
          rw [List.length_append, List.length_singleton] at hnext
          rw [hnext, List.append_assoc done, List.singleton_append,
            show k - 1 - (keepBy rest matchers).length =
              k - ((keepBy rest matchers).length + 1) by omega]
  refine ⟨matchers.length - (keepBy gone matchers).length, ?_⟩
  exact hloop gone matchers [] matchers.length (keepBy_sublist gone matchers).length_le

/-- The matcher of a kept slot is its old one, and no other slot has one. -/
theorem getElem?_compactGuides (gone : List Bool) (matchers : List (Option Matcher)) (j : Nat) :
    ((compactGuides (DecodingInferenceContext.buildBatchMapping gone) matchers)[j]?).join =
      if j < (keptIndices gone).length then (matchers[(keptIndices gone).getD j 0]?).join
      else none := by
  obtain ⟨k, hguides⟩ := compactGuides_eq gone matchers
  have hempty : ∀ i, (keepBy gone matchers).length ≤ i →
      ((keepBy gone matchers ++ List.replicate k (none : Option Matcher))[i]?).join = none := by
    intro i hi
    rw [List.getElem?_append_right hi, List.getElem?_replicate]
    split <;> rfl
  rw [hguides]
  split
  · rename_i hj
    rw [List.getD_eq_getElem _ _ hj, ← getElem?_keepBy gone hj matchers]
    by_cases hin : j < (keepBy gone matchers).length
    · rw [List.getElem?_append_left hin]
    · rw [hempty j (Nat.le_of_not_lt hin), List.getElem?_eq_none (Nat.le_of_not_lt hin)]
      rfl
  · rename_i hj
    apply hempty
    apply Nat.le_trans _ (Nat.le_of_not_lt hj)
    exact length_keepBy_le gone matchers (by rw [List.length_range])

end Matchers

/-! ## Eviction -/

namespace BatchState

variable {Matcher : Type}

/-- The matcher that constrains slot `i`. -/
def guide (s : BatchState Matcher) (i : Nat) : Option Matcher :=
  if s.context.hasGuidedDecoding then (s.matchers[i]?).join else none

/-- The live slots with their matchers, in order. -/
def slots (s : BatchState Matcher) : List (SlotRow × Option Matcher) :=
  (List.range s.context.activeBatchSize).map fun i => (s.context.row i, s.guide i)

theorem map_fst_slots (s : BatchState Matcher) : s.slots.map Prod.fst = s.context.rows := by
  rw [slots, List.map_map]
  rfl

/-- The batch is coherent, only live slots have a matcher, and guided decoding is on
while one has. -/
structure Sound (s : BatchState Matcher) : Prop where
  coherent : s.context.Coherent
  clean : ∀ i, s.context.activeBatchSize ≤ i → (s.matchers[i]?).join = none
  gated : s.context.hasGuidedDecoding = s.matchers.any Option.isSome

theorem getElem?_join_of_any {matchers : List (Option Matcher)}
    (hnone : matchers.any Option.isSome = false) (i : Nat) : (matchers[i]?).join = none := by
  cases hmatcher : matchers[i]? with
  | none => rfl
  | some matcher =>
    rw [List.any_eq_false] at hnone
    have hoff := hnone matcher (List.mem_of_getElem? hmatcher)
    rw [Bool.not_eq_true, Option.isSome_eq_false_iff, Option.isNone_iff_eq_none] at hoff
    rw [hoff]
    rfl

theorem guide_eq {s : BatchState Matcher}
    (hgated : s.context.hasGuidedDecoding = s.matchers.any Option.isSome) (i : Nat) :
    s.guide i = (s.matchers[i]?).join := by
  rw [guide]
  split
  · rfl
  · rename_i hoff
    rw [hgated, Bool.not_eq_true] at hoff
    rw [getElem?_join_of_any hoff]

/-- The evicted slots are filed under their original indices, the others keep their
rows and matchers and their order. -/
structure Evicts (before after : BatchState Matcher) : Prop where
  slots : after.slots = before.slots.filter fun slot => !slot.1.finishedState
  fresh : ∀ row ∈ before.context.rows, row.finishedState = true →
    before.context.completedBatches.lookup row.batchIndex = none
  filed : ∀ row ∈ before.context.rows, row.finishedState = true →
    after.context.completedBatches.lookup row.batchIndex =
      some (row.filed before.context.generationRound before.context.numLogprobs)
  others : ∀ index, (∀ row ∈ before.context.rows, row.finishedState = true →
      row.batchIndex ≠ index) →
    after.context.completedBatches.lookup index = before.context.completedBatches.lookup index

section Evict

variable {s : BatchState Matcher}

/-- The batch after the residents of its finished slots are released. -/
def evicted (s : BatchState Matcher) (pool : ResidentSlotPool) : BatchState Matcher :=
  let batchMapping := DecodingInferenceContext.buildBatchMapping s.context.finishedStates
  let matchers := compactGuides batchMapping s.matchers
  { context := ((s.context.withPool pool).fileResults batchMapping).compactSlots batchMapping
      (matchers.any Option.isSome)
    matchers := matchers }

/-- An eviction keeps the entries of the live slots in every vector. -/
theorem context_evicted (s : BatchState Matcher) (pool : ResidentSlotPool) :
    ∃ hasLogitBias, (s.evicted pool).context =
      { s.context.mapColumns fun _ => keepBy s.context.finishedStates with
        residentSlots := pool
        completedBatches := ((s.context.withPool pool).fileResults
          (DecodingInferenceContext.buildBatchMapping s.context.finishedStates)).completedBatches
        hasGuidedDecoding := (s.evicted pool).matchers.any Option.isSome
        hasLogitBias := hasLogitBias
        logitBiasGpuDirty := hasLogitBias
        activeBatchSize := (keptIndices s.context.finishedStates).length } := by
  obtain ⟨hasLogitBias, hcompacted⟩ := DecodingInferenceContext.compactSlots_eq
    ((s.context.withPool pool).fileResults
      (DecodingInferenceContext.buildBatchMapping s.context.finishedStates))
    s.context.finishedStates ((s.evicted pool).matchers.any Option.isSome)
  exact ⟨hasLogitBias, hcompacted⟩

/-- The residents up to the rest are released. -/
def Releases (context : DecodingInferenceContext) (held rest : List ResidentRef)
    (after : DecodingInferenceContext) : Prop :=
  (∀ resident ∈ rest, resident.epoch ≠ ResidentSlotPool.maxEpoch) ∧
    ∃ pool : ResidentSlotPool, pool.Owned (rest ++ held) ∧ after = context.withPool pool

/-- Releasing residents in a loop touches only the pool. -/
theorem releaseResidents_spec (context : DecodingInferenceContext)
    {held retired : List ResidentRef} (h : context.residentSlots.Owned (retired ++ held))
    (hyoung : context.residentSlots.Young) :
    Ensures (forEach DecodingInferenceContext.releaseResident retired)
      (fun _ after => Releases context held [] after) (fun _ _ => False) context := by
  apply Ensures.forEach (Releases context held)
  · intro resident rest after hafter
    obtain ⟨hepochs, pool, hpool, rfl⟩ := hafter
    rw [List.forall_mem_cons] at hepochs
    obtain ⟨next, hnext, hkept⟩ := ResidentSlotPool.Owned.release hpool hepochs.1
    have hpools : (context.withPool pool).residentSlots = pool := rfl
    rw [DecodingInferenceContext.releaseResident, ensures_mutate, hpools, hnext]
    exact ⟨hepochs.2, next, hkept, rfl⟩
  · refine ⟨?_, context.residentSlots, h, rfl⟩
    intro resident hmem
    exact h.epoch_ne hyoung resident (List.mem_append_left _ hmem)

theorem rows_evicted (h : s.context.Rectangular s.context.activeBatchSize)
    (pool : ResidentSlotPool) :
    (s.evicted pool).context.rows = s.context.rows.filter fun row => !row.finishedState := by
  obtain ⟨hasLogitBias, hcompacted⟩ := s.context_evicted pool
  have hop := reindexes_keepBy s.context.finishedStates
  rw [h.finishedStates] at hop
  rw [hcompacted]
  show (List.range (keptIndices s.context.finishedStates).length).map
    (s.context.mapColumns fun _ => keepBy s.context.finishedStates).row = _
  rw [h.rows_mapColumns hop, map_range_keptIndices, h.finishedStates]
  show keepBy s.context.finishedStates s.context.rows = _
  rw [← h.finishedStates_eq, keepBy_map_self]

theorem slots_evicted (h : s.Sound) (pool : ResidentSlotPool) :
    (s.evicted pool).slots = s.slots.filter fun slot => !slot.1.finishedState := by
  have hrectangular := h.coherent.rectangular
  obtain ⟨hasLogitBias, hcompacted⟩ := s.context_evicted pool
  have hop := reindexes_keepBy s.context.finishedStates
  rw [hrectangular.finishedStates] at hop
  have hslot : ∀ j, j < (keptIndices s.context.finishedStates).length →
      ((s.evicted pool).context.row j, (s.evicted pool).guide j) =
        (fun i => (s.context.row i, s.guide i))
          ((keptIndices s.context.finishedStates).getD j 0) := by
    intro j hj
    rw [Prod.mk.injEq]
    constructor
    · rw [hcompacted]
      exact hrectangular.row_mapColumns hop hj
    · have hmatchers := getElem?_compactGuides s.context.finishedStates s.matchers j
      rw [if_pos hj] at hmatchers
      rw [guide_eq h.gated, guide_eq (by rw [hcompacted])]
      exact hmatchers
  have hsize : (s.evicted pool).context.activeBatchSize =
      (keptIndices s.context.finishedStates).length := by
    rw [hcompacted]
  have hkept := map_range_keptIndices s.context.finishedStates
    fun i => (s.context.row i, s.guide i)
  rw [hrectangular.finishedStates] at hkept
  rw [slots, hsize, List.map_congr_left (fun j hj => hslot j (List.mem_range.1 hj)), hkept]
  show keepBy s.context.finishedStates s.slots = _
  rw [← hrectangular.finishedStates_eq, ← s.map_fst_slots, List.map_map]
  exact keepBy_map_self _ _

theorem lookup_evicted (h : s.context.Coherent) (pool : ResidentSlotPool) :
    (∀ row ∈ s.context.rows, row.finishedState = true →
      (s.evicted pool).context.completedBatches.lookup row.batchIndex =
        some (row.filed s.context.generationRound s.context.numLogprobs)) ∧
    ∀ index, (∀ row ∈ s.context.rows, row.finishedState = true → row.batchIndex ≠ index) →
      (s.evicted pool).context.completedBatches.lookup index =
        s.context.completedBatches.lookup index := by
  have hfiled : (s.evicted pool).context.completedBatches =
      (s.context.rows.filter SlotRow.finishedState).foldl
        (fun completed row => completed.insert row.batchIndex
          (row.filed s.context.generationRound s.context.numLogprobs))
        s.context.completedBatches := by
    rw [← DecodingInferenceContext.map_evictedIndices h.rectangular, List.foldl_map]
    rfl
  have hnodup : ((s.context.rows.filter SlotRow.finishedState).map SlotRow.batchIndex).Nodup :=
    h.originals.sublist (List.filter_sublist.map _)
  obtain ⟨hin, hout⟩ := lookup_foldl_insert SlotRow.batchIndex
    (fun row => row.filed s.context.generationRound s.context.numLogprobs)
    (s.context.rows.filter SlotRow.finishedState) s.context.completedBatches hnodup
  rw [hfiled]
  constructor
  · intro row hrow hfinished
    exact hin row (List.mem_filter.2 ⟨hrow, hfinished⟩)
  · intro index hother
    apply hout
    intro hmem
    obtain ⟨row, hrow, hindex⟩ := List.mem_map.1 hmem
    obtain ⟨hlive, hfinished⟩ := List.mem_filter.1 hrow
    exact hother row hlive hfinished hindex

theorem Sound.evicts (h : s.Sound) (pool : ResidentSlotPool) : Evicts s (s.evicted pool) where
  slots := slots_evicted h pool
  fresh := by
    intro row hrow _
    rw [AList.lookup_eq_none]
    exact h.coherent.uncollected _ (List.mem_map.2 ⟨row, hrow, rfl⟩)
  filed := (lookup_evicted h.coherent pool).1
  others := (lookup_evicted h.coherent pool).2

theorem Sound.evicted (h : s.Sound) {pool : ResidentSlotPool}
    (hpool : pool.Owned ((s.context.rows.filter fun row => !row.finishedState).map
      SlotRow.residentRef)) : (s.evicted pool).Sound := by
  have hrectangular := h.coherent.rectangular
  have hrows := rows_evicted hrectangular pool
  obtain ⟨hasLogitBias, hcompacted⟩ := s.context_evicted pool
  have hop := reindexes_keepBy s.context.finishedStates
  rw [hrectangular.finishedStates] at hop
  have hsublist := @List.filter_sublist _ (fun row => !row.finishedState) s.context.rows
  refine ⟨⟨?_, ?_, ?_, ?_, ?_⟩, ?_, ?_⟩
  · rw [hcompacted]
    exact (hrectangular.mapColumns hop).scalars _ _ _ _ _ _ _ _
  · rw [hrows]
    exact h.coherent.originals.sublist (hsublist.map _)
  · rw [hrows]
    exact h.coherent.requests.sublist (hsublist.map _)
  · rw [hrows, hcompacted]
    exact hpool
  · intro index hindex
    rw [hrows] at hindex
    rw [← AList.lookup_eq_none]
    obtain ⟨row, hrow, rfl⟩ := List.mem_map.1 hindex
    obtain ⟨hmem, hlive⟩ := List.mem_filter.1 hrow
    rw [(lookup_evicted h.coherent pool).2, AList.lookup_eq_none]
    · exact h.coherent.uncollected _ (List.mem_map.2 ⟨row, hmem, rfl⟩)
    · intro other hother hfinished hsame
      have hequal := List.inj_on_of_nodup_map h.coherent.originals hother hmem hsame
      rw [← hequal, hfinished] at hlive
      cases hlive
  · intro i hi
    rw [hcompacted] at hi
    rw [BatchState.evicted, getElem?_compactGuides, if_neg (Nat.not_lt.2 hi)]
  · rw [hcompacted]

/-- An eviction that is refused changes nothing; one that is done evicts. -/
theorem performBatchEvict_spec (h : s.Sound) (hyoung : s.context.residentSlots.Young)
    (began completed : Bool) : Ensures (performBatchEvict began completed)
      (fun done after => (done = false → after = s) ∧ (done = true → Evicts s after) ∧
        after.Sound) (fun _ _ => False) s := by
  rw [performBatchEvict]
  simp only [ensures_bind, ensures_read, ensures_check, ensures_ite,
    ensures_pure, ensures_modify, id_eq, onContext, ensures_zoom]
  have hconsistent := (DecodingInferenceContext.perSlotSizesConsistent_iff _).2
    h.coherent.rectangular
  refine ⟨?_, fun hshort => hshort hconsistent⟩
  intro _
  refine ⟨?_, ?_⟩
  · intro _
    refine ⟨?_, fun _ => ⟨fun _ => trivial, (fun hdone => by cases hdone), h⟩⟩
    intro _
    have hretired : (s.context.evictedIndices (DecodingInferenceContext.buildBatchMapping
        s.context.finishedStates)).map (fun i => (s.context.row i).residentRef) =
          (s.context.rows.filter SlotRow.finishedState).map SlotRow.residentRef := by
      rw [← DecodingInferenceContext.map_evictedIndices h.coherent.rectangular, List.map_map]
      rfl
    have hsplit : s.context.residentSlots.Owned
        ((s.context.rows.filter SlotRow.finishedState).map SlotRow.residentRef ++
          (s.context.rows.filter fun row => !row.finishedState).map SlotRow.residentRef) := by
      apply h.coherent.residents.perm
      rw [← List.map_append]
      exact (List.filter_append_perm _ _).symm.map _
    rw [hretired]
    apply (releaseResidents_spec s.context hsplit hyoung).mono
    · intro _ after hafter
      obtain ⟨-, pool, hpool, rfl⟩ := hafter
      exact ⟨(fun hdone => by cases hdone), fun _ => h.evicts pool, h.evicted hpool⟩
    · exact fun _ _ hfalse => hfalse
  · intro hnone
    have hlive : ∀ row ∈ s.context.rows, row.finishedState = false := by
      intro row hrow
      by_contra hfinished
      apply hnone
      rw [List.any_eq_true]
      exact ⟨row, hrow, by simpa using hfinished⟩
    refine ⟨(fun hdone => by cases hdone), fun _ => ⟨?_, ?_, ?_, fun _ _ => rfl⟩, h⟩
    · rw [List.filter_eq_self.2]
      intro slot hslot
      rw [hlive slot.1 (by
        rw [← s.map_fst_slots]
        exact List.mem_map.2 ⟨slot, hslot, rfl⟩)]
      rfl
    · intro row hrow hfinished
      rw [hlive row hrow] at hfinished
      cases hfinished
    · intro row hrow hfinished
      rw [hlive row hrow] at hfinished
      cases hfinished

end Evict

end BatchState

end EdgeLLM.Ports.Generation
