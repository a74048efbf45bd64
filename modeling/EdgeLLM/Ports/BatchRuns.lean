import EdgeLLM.Ports.BatchMembership

/-!
# Runs of a batch

A batch is founded by `beginGeneration`; then sequences are admitted and prefilled,
slots are updated one at a time, finished slots are evicted and their results are
taken, in any order.
-/

namespace EdgeLLM.Ports.Generation

open Verified Checked

/-- What the context cache says to a joiner; `unmanaged` where there is no cache. -/
inductive LeaseOutcome where
  | unmanaged
  | admitted (prefillStart : Nat)
  | noCapacity
  | failed
  | threw

/-- The seed, with the reused prefix of the lease. -/
def AdmissionSeed.starting (seed : AdmissionSeed) (prefillStart : Nat) : AdmissionSeed :=
  { seed with seed := { seed.seed with prefillStart := prefillStart } }

/-- The policy for special tokens, written to a slot. -/
def skipUpdate (skipSpecialTokens : Bool) : RowUpdate where
  apply := fun row =>
    { row with slotStream := { row.slotStream with skipSpecialTokens := skipSpecialTokens } }
  keeps := fun _ => rfl

namespace DecodingInferenceContext

/-! ## Admission -/

/-- The release in the handler of `seatSlot`: a stale reference is only logged. -/
def releaseCaught (resident : ResidentRef) : ContextM Unit :=
  Checked.mutate fun context =>
    match context.residentSlots.release resident with
    | .ok pool => .ok (context.withPool pool)
    | .error .stale => .ok context
    | .error .epochOverflow => .error .epochOverflow

def seatSlot (seed : AdmissionSeed) (requestId : Nat) (resident : ResidentRef)
    (skipSpecialTokens : Bool) : ContextM Bool :=
  onThrow .epochOverflow
    (do
      let slot ← appendSlot seed requestId resident
      Checked.modify fun context => context.updateRow slot (skipUpdate skipSpecialTokens)
      pure true)
    (releaseCaught resident)

/-- `reserveAdmission`, from the acquired slot on, and `seatSlot`. -/
def seatReserved (seed : AdmissionSeed) (requestId : Nat) (resident : ResidentRef)
    (lease : LeaseOutcome) (skipSpecialTokens : Bool) : ContextM Bool :=
  match lease with
  | .unmanaged => seatSlot seed requestId resident skipSpecialTokens
  | .admitted prefillStart =>
    seatSlot (seed.starting prefillStart) requestId resident skipSpecialTokens
  | .noCapacity => do
      releaseResident resident
      pure false
  | .failed => do
      releaseResident resident
      pure false
  | .threw => do
      releaseResident resident
      Checked.fail .leaseThrew

/-- `reserveAdmission` and `seatSlot`: whether the sequence has a slot.  `refused` is a
media joiner under a pruner, or a prompt that the budget of the batch does not hold. -/
def admitSequence (refused : Bool) (seed : AdmissionSeed) (requestId : Nat) (lease : LeaseOutcome)
    (skipSpecialTokens : Bool) : ContextM Bool := do
  let context ← Checked.read id
  if refused then pure false
  else
    match context.residentSlots.acquire with
    | none => pure false
    | some (resident, pool) => do
        Checked.modify fun context => context.withPool pool
        seatReserved seed requestId resident lease skipSpecialTokens

/-- The update of a slot that a loop over the batch visits. -/
def updateSlot (slot : Nat) (update : RowUpdate) : ContextM Bool := do
  let context ← Checked.read id
  Checked.check (slot < context.activeBatchSize) .slotNotLive
  Checked.modify fun context => context.updateRow slot update
  pure true

def takeCompletedAtOrAbove (firstIndex : Int) (context : DecodingInferenceContext) :
    DecodingInferenceContext :=
  { context with
    completedBatches := (context.completedBatches.keys.filter fun index =>
      decide (firstIndex ≤ index)).foldl (fun completed index => completed.erase index)
        context.completedBatches }

/-- The pruner in the prefill of the whole batch: it runs while no slot has a past. -/
def prefillBatch (settings : PrefillSettings) (prunedTokens : Nat → Nat)
    (context : DecodingInferenceContext) : DecodingInferenceContext :=
  if settings.prunes && context.rows.all fun row => row.committedLength == 0 then
    { context with
      prunedPrefillTokens := (List.range context.activeBatchSize).map prunedTokens }
  else context

/-! ## Founding -/

/-- The loop of `initialize` that acquires the residents. -/
def acquireResidents : Nat → ResidentSlotPool → Option (List ResidentRef × ResidentSlotPool)
  | 0, pool => some ([], pool)
  | batchSize + 1, pool =>
    match pool.acquire with
    | none => none
    | some (resident, pool) =>
      match acquireResidents batchSize pool with
      | none => none
      | some (residents, pool) => some (resident :: residents, pool)

/-- The size of the resident pool; a capacity of zero is that of the batch. -/
def poolCapacity (batchSize residentCapacity : Nat) : Nat :=
  if residentCapacity = 0 then batchSize else residentCapacity

/-- `initialize`, with the prompts and the request id of the founders; zero is no id. -/
def initializeContext (rawBatchedInputIds : List (List Token))
    (residentCapacity founderRequestId : Nat) : Option DecodingInferenceContext :=
  let batchSize := rawBatchedInputIds.length
  if batchSize ≤ poolCapacity batchSize residentCapacity ∧
      (founderRequestId = 0 ∨ batchSize = 1) then
    match acquireResidents batchSize
      (ResidentSlotPool.reset (poolCapacity batchSize residentCapacity)) with
    | none => none
    | some (residents, pool) => some
        { systemPrompts := List.replicate batchSize []
          rawBatchedInputIds := rawBatchedInputIds
          tokenIds := List.replicate batchSize []
          currentGenerateLengths := List.replicate batchSize 0
          effectivePrefillLengths := List.replicate batchSize 0
          prefillStartLengths := List.replicate batchSize 0
          committedLengths := List.replicate batchSize 0
          requestIds :=
            if founderRequestId ≠ 0 then [founderRequestId]
            else (List.range batchSize).map fun i => i + 1
          residentRefs := residents
          finishedStates := List.replicate batchSize false
          acceptedDraftTokens := List.replicate batchSize 0
          proposedDraftTokens := List.replicate batchSize 0
          thinkingDone := List.replicate batchSize false
          guidedReasoningEnded := List.replicate batchSize false
          batchIndexMapping := (List.range batchSize).map Int.ofNat
          slotStreams := List.replicate batchSize {}
          samplingSeeds := List.replicate batchSize kDefaultSamplingSeed
          stepLogprobs := List.replicate batchSize {}
          stopStringsPerSlot := List.replicate batchSize []
          logitBiasPerSlot := List.replicate batchSize ∅
          callbackEmittedTokenCounts := List.replicate batchSize 0
          residentSlots := pool
          activeBatchSize := batchSize }
  else none

end DecodingInferenceContext

/-- The loop that prepares the slots of the guided requests, from slot `i` on.  A guide
that does not compile leaves its slot without a matcher. -/
def prepareSlots {Matcher : Type} :
    Nat → List (Option Matcher) → List (Option Matcher) → Option (List (Option Matcher))
  | _, [], matchers => some matchers
  | i, none :: guides, matchers => prepareSlots (i + 1) guides matchers
  | i, some matcher :: guides, matchers =>
    if i < matchers.length then prepareSlots (i + 1) guides (matchers.set i (some matcher))
    else none

/-- What founds a batch; no request is guided where `guides` is nothing. -/
structure Founding (Matcher : Type) where
  rawBatchedInputIds : List (List Token)
  residentCapacity : Nat := 0
  founderRequestId : Nat := 0
  guides : Option (List (Option Matcher)) := none
  numLogprobs : Nat := 0
  guides_length : ∀ gs, guides = some gs → gs.length = rawBatchedInputIds.length := by simp

/-- `beginGeneration`: the old matchers are reset only for a guided request. -/
def Founding.begin {Matcher : Type} (founding : Founding Matcher)
    (matchers : List (Option Matcher)) : Option (BatchState Matcher) :=
  match DecodingInferenceContext.initializeContext founding.rawBatchedInputIds
    founding.residentCapacity founding.founderRequestId with
  | none => none
  | some context =>
    match founding.guides with
    | none => some
        { context := { context with numLogprobs := founding.numLogprobs }
          matchers := matchers }
    | some guides =>
      match prepareSlots 0 guides (matchers.map fun _ => none) with
      | none => none
      | some matchers => some
          { context := { context with
              numLogprobs := founding.numLogprobs
              hasGuidedDecoding := guides.any Option.isSome }
            matchers := matchers }

/-! ## The founded batch -/

namespace DecodingInferenceContext

theorem acquireResidents_owned (batchSize : Nat) :
    ∀ {pool pool' : ResidentSlotPool} {held residents : List ResidentRef}, pool.Owned held →
      acquireResidents batchSize pool = some (residents, pool') →
        residents.length = batchSize ∧ pool'.Owned (held ++ residents) := by
  induction batchSize with
  | zero =>
    intro pool pool' held residents h hacquire
    cases hacquire
    rw [List.append_nil]
    exact ⟨rfl, h⟩
  | succ batchSize ih =>
    intro pool pool' held residents h hacquire
    rw [acquireResidents] at hacquire
    cases hfirst : pool.acquire with
    | none =>
      rw [hfirst] at hacquire
      cases hacquire
    | some first =>
      obtain ⟨resident, next⟩ := first
      rw [hfirst] at hacquire
      dsimp only at hacquire
      cases hrest : acquireResidents batchSize next with
      | none =>
        rw [hrest] at hacquire
        cases hacquire
      | some rest =>
        rw [hrest] at hacquire
        cases hacquire
        obtain ⟨hlength, howned⟩ := ih (h.acquire hfirst) hrest
        rw [List.append_assoc] at howned
        exact ⟨by rw [List.length_cons, hlength], howned⟩

theorem initializeContext_coherent {rawBatchedInputIds : List (List Token)}
    {residentCapacity founderRequestId : Nat} {context : DecodingInferenceContext}
    (hfounded : initializeContext rawBatchedInputIds residentCapacity founderRequestId =
      some context) : context.Coherent ∧ context.activeBatchSize = rawBatchedInputIds.length ∧
      context.hasGuidedDecoding = false := by
  rw [initializeContext] at hfounded
  split at hfounded
  · rename_i hchecked
    split at hfounded
    · cases hfounded
    · rename_i residents pool hresidents
      obtain ⟨hlength, howned⟩ :=
        acquireResidents_owned _ (ResidentSlotPool.owned_reset _) hresidents
      rw [Option.some.injEq] at hfounded
      have hrectangular : context.Rectangular context.activeBatchSize := by
        rw [← hfounded]
        have hids : (if founderRequestId ≠ 0 then [founderRequestId]
            else (List.range rawBatchedInputIds.length).map fun i => i + 1).length =
              rawBatchedInputIds.length := by
          split
          · rw [List.length_singleton]
            omega
          · rw [List.length_map, List.length_range]
        refine ⟨List.length_replicate, rfl, List.length_replicate, List.length_replicate,
          List.length_replicate, List.length_replicate, List.length_replicate,
          List.length_replicate, List.length_replicate, List.length_replicate, hids, hlength,
          List.length_replicate, ?_, List.length_replicate, List.length_replicate,
          List.length_replicate, List.length_replicate, List.length_replicate,
          List.length_replicate, List.length_replicate, Or.inl rfl⟩
        rw [List.length_map, List.length_range]
      refine ⟨⟨hrectangular, ?_, ?_, ?_, ?_⟩, by rw [← hfounded], by rw [← hfounded]⟩
      · rw [hrectangular.batchIndexMapping_eq, ← hfounded]
        exact List.nodup_range.map fun a b hab => Int.ofNat.inj hab
      · rw [hrectangular.requestIds_eq, ← hfounded]
        dsimp only
        split
        · exact List.nodup_singleton _
        · exact List.nodup_range.map fun a b hab => Nat.succ.inj hab
      · rw [hrectangular.residentRefs_eq, ← hfounded]
        exact howned
      · intro index _ hcollected
        rw [← hfounded] at hcollected
        exact AList.notMem_empty index hcollected
  · cases hfounded

end DecodingInferenceContext

section Founding

variable {Matcher : Type}

/-- A matcher is prepared where a guide compiled; the later slots are left alone. -/
theorem prepareSlots_spec (guides : List (Option Matcher)) :
    ∀ {i : Nat} {matchers prepared : List (Option Matcher)},
      prepareSlots i guides matchers = some prepared →
        (∀ j, i + guides.length ≤ j → prepared[j]? = matchers[j]?) ∧ prepared.any Option.isSome =
            (matchers.any Option.isSome || guides.any Option.isSome) := by
  induction guides with
  | nil =>
    intro i matchers prepared hprepare
    cases hprepare
    exact ⟨fun _ _ => rfl, by rw [List.any_nil, Bool.or_false]⟩
  | cons guide guides ih =>
    intro i matchers prepared hprepare
    cases guide with
    | none =>
      obtain ⟨hlater, hany⟩ := ih hprepare
      constructor
      · intro j hj
        rw [List.length_cons] at hj
        exact hlater j (by omega)
      · rw [hany]
        rfl
    | some matcher =>
      rw [prepareSlots] at hprepare
      split at hprepare
      · rename_i hin
        obtain ⟨hlater, hany⟩ := ih hprepare
        constructor
        · intro j hj
          rw [List.length_cons] at hj
          rw [hlater j (by omega), List.getElem?_set_ne (by omega)]
        · have hset : (matchers.set i (some matcher)).any Option.isSome = true := by
            rw [List.any_eq_true]
            exact ⟨some matcher, List.mem_set hin _, rfl⟩
          rw [hany, hset, Bool.true_or, List.any_cons, Option.isSome_some, Bool.true_or,
            Bool.or_true]
      · cases hprepare

/-- A founding without guides finds no old matcher. -/
def Founding.Meets (founding : Founding Matcher) (matchers : List (Option Matcher)) : Prop :=
  founding.guides = none → matchers.any Option.isSome = false

theorem Founding.begin_sound (founding : Founding Matcher) {matchers : List (Option Matcher)}
    {s : BatchState Matcher} (hmeets : founding.Meets matchers)
    (hbegin : founding.begin matchers = some s) : s.Sound := by
  rw [Founding.begin] at hbegin
  split at hbegin
  · cases hbegin
  · rename_i context hcontext
    obtain ⟨hcoherent, hsize, hguided⟩ :=
      DecodingInferenceContext.initializeContext_coherent hcontext
    have hscalars : ∀ (numLogprobs : Nat) (hasGuidedDecoding : Bool),
        ({ context with
          numLogprobs := numLogprobs
          hasGuidedDecoding := hasGuidedDecoding } : DecodingInferenceContext).Coherent := by
      intro numLogprobs hasGuidedDecoding
      exact ⟨hcoherent.rectangular.scalars _ _ _ _ _ _ _ _, hcoherent.originals,
        hcoherent.requests, hcoherent.residents, hcoherent.uncollected⟩
    split at hbegin
    · rename_i hguides
      cases hbegin
      have hnone := hmeets hguides
      exact ⟨hscalars _ context.hasGuidedDecoding,
        fun i _ => BatchState.getElem?_join_of_any hnone i, hguided.trans hnone.symm⟩
    · rename_i guides hguides
      split at hbegin
      · cases hbegin
      · rename_i prepared hprepared
        cases hbegin
        obtain ⟨hlater, hany⟩ := prepareSlots_spec guides hprepared
        have hreset : (matchers.map fun _ => (none : Option Matcher)).any Option.isSome = false := by
          rw [List.any_eq_false]
          intro matcher hmem
          obtain ⟨_, _, rfl⟩ := List.mem_map.1 hmem
          exact Bool.false_ne_true
        refine ⟨hscalars _ _, ?_, ?_⟩
        · intro i hi
          have hbeyond : guides.length ≤ i := by
            rw [founding.guides_length guides hguides, ← hsize]
            exact hi
          rw [hlater i (by rw [Nat.zero_add]; exact hbeyond)]
          exact BatchState.getElem?_join_of_any hreset i
        · rw [hany, hreset, Bool.false_or]

end Founding

/-! ## Operations -/

/-- The operations on a batch. -/
inductive BatchOp where
  | admitSequence (refused : Bool) (seed : AdmissionSeed) (requestId : Nat) (lease : LeaseOutcome)
    (skipSpecialTokens : Bool)
  | prefillSlotInPlace (slot prefillStart : Nat) (prefill : SeatedPrefill)
  | prefillBatch (prunedTokens : Nat → Nat)
  | updateSlot (slot : Nat) (update : RowUpdate)
  | performBatchEvict (began completed : Bool)
  | takeCompletedAtOrAbove (firstIndex : Int)

namespace BatchState

variable {Matcher : Type}

/-- The results are the same. -/
def SameResults (before after : BatchState Matcher) : Prop :=
  after.context.completedBatches = before.context.completedBatches

/-- The other slots are untouched, and the slot keeps its identity and its matcher. -/
structure TouchesOne (slot : Nat) (before after : BatchState Matcher) : Prop where
  results : SameResults before after
  others : ∀ j, j ≠ slot → after.slots[j]? = before.slots[j]?
  identity : (after.slots[slot]?).map (fun entry => (entry.1.identity, entry.2)) =
    (before.slots[slot]?).map fun entry => (entry.1.identity, entry.2)

/-- The vectors agree on the batch; no two live slots have an original index, a request
or a resident in common; a slot of the pool is free, or exactly one live slot has it. -/
structure Separate (s : BatchState Matcher) : Prop where
  rectangular : s.context.perSlotSizesConsistent = true
  originals : (s.context.rows.map SlotRow.batchIndex).Nodup
  requests : (s.context.rows.map SlotRow.requestId).Nodup
  residents : (s.context.rows.map SlotRow.residentRef).Nodup
  live : ∀ row ∈ s.context.rows, s.context.residentSlots.contains row.residentRef = true
  pool : ∀ slot, slot < s.context.residentSlots.capacity →
    Xor (slot ∈ s.context.residentSlots.mFreeSlots)
      (∃! i, i < s.context.activeBatchSize ∧ (s.context.row i).residentRef.slot = slot)

end BatchState

namespace BatchOp

variable {Matcher : Type}

/-- One operation: whether it is done. -/
def run (settings : PrefillSettings) : BatchOp → BatchM Matcher Bool
  | .admitSequence refused seed requestId lease skipSpecialTokens =>
    BatchState.onContext
      (DecodingInferenceContext.admitSequence refused seed requestId lease skipSpecialTokens)
  | .prefillSlotInPlace slot prefillStart prefill =>
    BatchState.onContext
      (DecodingInferenceContext.prefillSlotInPlace settings slot prefillStart prefill)
  | .prefillBatch prunedTokens => BatchState.onContext do
      Checked.modify (DecodingInferenceContext.prefillBatch settings prunedTokens)
      pure true
  | .updateSlot slot update =>
    BatchState.onContext (DecodingInferenceContext.updateSlot slot update)
  | .performBatchEvict began completed => BatchState.performBatchEvict began completed
  | .takeCompletedAtOrAbove firstIndex => BatchState.onContext do
      Checked.modify (DecodingInferenceContext.takeCompletedAtOrAbove firstIndex)
      pure true

/-- No resident slot is in its last epoch, and a prefill in place does not reach the
pruner without a past. -/
def Meets (settings : PrefillSettings) (op : BatchOp) (s : BatchState Matcher) : Prop :=
  s.context.residentSlots.Young ∧
    match op with
    | .prefillSlotInPlace _ prefillStart prefill =>
      settings.prunes = false ∨ prefill.reachesPruner = false ∨ prefillStart ≠ 0
    | _ => True

/-- The seed that an admission appends. -/
def leasedSeed (seed : AdmissionSeed) : LeaseOutcome → AdmissionSeed
  | .admitted prefillStart => seed.starting prefillStart
  | _ => seed

/-- What an operation does to the slots and to the results. -/
def Effect (op : BatchOp) (before : BatchState Matcher) (done : Bool)
    (after : BatchState Matcher) : Prop :=
  match op with
  | .admitSequence _ seed requestId lease skipSpecialTokens =>
    before.SameResults after ∧
      if done then ∃ resident, after.slots = before.slots ++
        [((skipUpdate skipSpecialTokens).apply
          ((leasedSeed seed lease).row before.context requestId resident), none)]
      else after.slots = before.slots
  | .prefillSlotInPlace slot _ _ => before.TouchesOne slot after
  | .prefillBatch _ =>
    before.SameResults after ∧
      after.slots.map (fun entry => ({ entry.1 with prunedPrefillTokens := none }, entry.2)) =
        before.slots.map fun entry => ({ entry.1 with prunedPrefillTokens := none }, entry.2)
  | .updateSlot slot _ => before.TouchesOne slot after
  | .performBatchEvict _ _ => if done then before.Evicts after else after = before
  | .takeCompletedAtOrAbove firstIndex =>
    after.slots = before.slots ∧ ∀ index, after.context.completedBatches.lookup index =
      if firstIndex ≤ index then none else before.context.completedBatches.lookup index

end BatchOp

/-- The batches of the runs whose foundings and operations meet their conditions. -/
inductive Reached {Matcher : Type} (settings : PrefillSettings) : BatchState Matcher → Prop
  | founded (founding : Founding Matcher) (matchers : List (Option Matcher))
    {s : BatchState Matcher} (meets : founding.Meets matchers)
    (founded : founding.begin matchers = some s) : Reached settings s
  | step (op : BatchOp) {s after : BatchState Matcher} {exit : Except MembershipFailure Bool}
    (reached : Reached settings s) (meets : op.Meets settings s)
    (run : op.run settings s = (exit, after)) : Reached settings after

/-! ## What an admission does -/

namespace DecodingInferenceContext

section Admission

variable {context after : DecodingInferenceContext} {resident : ResidentRef}

/-- A coherent batch, with the rows of another and some more. -/
structure Admits (context : DecodingInferenceContext) (added : List SlotRow)
    (after : DecodingInferenceContext) : Prop where
  coherent : after.Coherent
  rows : after.rows = context.rows ++ added
  completedBatches : after.completedBatches = context.completedBatches
  hasGuidedDecoding : after.hasGuidedDecoding = context.hasGuidedDecoding

/-- A coherent batch, but for a resident that is reserved. -/
structure Reserves (context : DecodingInferenceContext) (resident : ResidentRef) : Prop where
  rectangular : context.Rectangular context.activeBatchSize
  originals : (context.rows.map SlotRow.batchIndex).Nodup
  requests : (context.rows.map SlotRow.requestId).Nodup
  residents : context.residentSlots.Owned (context.rows.map SlotRow.residentRef ++ [resident])
  uncollected : ∀ index ∈ context.rows.map SlotRow.batchIndex, index ∉ context.completedBatches
  epoch : resident.epoch ≠ ResidentSlotPool.maxEpoch

theorem Reserves.released (h : context.Reserves resident) :
    ∃ pool, context.residentSlots.release resident = .ok pool ∧
      context.Admits [] (context.withPool pool) := by
  have howned : context.residentSlots.Owned
      (resident :: context.rows.map SlotRow.residentRef) :=
    h.residents.perm List.perm_append_comm
  obtain ⟨pool, hrelease, hpool⟩ := howned.release h.epoch
  have hrectangular : (context.withPool pool).Rectangular context.activeBatchSize :=
    h.rectangular.scalars _ _ _ _ _ _ _ _
  have hcoherent : (context.withPool pool).Coherent :=
    ⟨hrectangular, h.originals, h.requests, hpool, h.uncollected⟩
  exact ⟨pool, hrelease, hcoherent, (List.append_nil _).symm, rfl, rfl⟩

theorem Reserves.pushSlot (h : context.Reserves resident) {seed : AdmissionSeed} {requestId : Nat}
    (hadmissible : context.Admissible seed requestId resident) :
    context.Admits [seed.row context requestId resident]
      (context.pushSlot (seed.row context requestId resident)) := by
  have hfits := context.fits_row seed requestId resident
  have hrows := rows_pushSlot h.rectangular hfits
  refine ⟨⟨h.rectangular.pushSlot hfits, ?_, ?_, ?_, ?_⟩, hrows, rfl, rfl⟩
  · rw [hrows, List.map_append, List.map_singleton, List.nodup_append]
    refine ⟨h.originals, List.nodup_singleton _, ?_⟩
    intro index hindex other hother hsame
    rw [List.mem_singleton] at hother
    apply hadmissible.notLive
    rw [← h.rectangular.batchIndexMapping_eq]
    rw [hsame, hother] at hindex
    exact hindex
  · rw [hrows, List.map_append, List.map_singleton, List.nodup_append]
    refine ⟨h.requests, List.nodup_singleton _, ?_⟩
    intro id hid other hother hsame
    rw [List.mem_singleton] at hother
    apply hadmissible.requestId_fresh
    rw [← h.rectangular.requestIds_eq]
    rw [hsame, hother] at hid
    exact hid
  · rw [hrows, List.map_append]
    exact h.residents
  · intro index hindex
    rw [hrows, List.map_append, List.mem_append, List.map_singleton, List.mem_singleton] at hindex
    rcases hindex with hold | hnew
    · exact h.uncollected index hold
    · rw [hnew]
      exact hadmissible.notCollected

/-- Updating the slot that was added updates its row. -/
theorem Admits.updateRow {row : SlotRow} (h : context.Admits [row] after) (update : RowUpdate)
    (hsize : after.activeBatchSize = context.activeBatchSize + 1) :
    context.Admits [update.apply row] (after.updateRow context.activeBatchSize update) := by
  have hlast : context.activeBatchSize < after.activeBatchSize := by omega
  have htouches := touches_updateRow h.coherent.rectangular hlast update
  refine ⟨h.coherent.touches htouches, ?_, htouches.completedBatches.trans h.completedBatches,
    htouches.hasGuidedDecoding.trans h.hasGuidedDecoding⟩
  have hrows := h.rows
  have hlength : context.rows.length = context.activeBatchSize := by
    rw [DecodingInferenceContext.rows, List.length_map, List.length_range]
  have hrow : after.row context.activeBatchSize = row := by
    have hget := congrArg (fun rows => rows[context.rows.length]?) hrows
    rw [List.getElem?_concat_length, DecodingInferenceContext.rows, hlength, List.getElem?_map,
      List.getElem?_range hlast] at hget
    exact Option.some.inj hget
  have hinit : (List.range context.activeBatchSize).map after.row = context.rows := by
    rw [DecodingInferenceContext.rows, hsize, List.range_succ, List.map_append] at hrows
    exact (List.append_inj hrows (by rw [List.length_map, List.length_range, hlength])).1
  rw [DecodingInferenceContext.rows, htouches.activeBatchSize, hsize, List.range_succ,
    List.map_append, List.map_singleton,
    h.coherent.rectangular.row_updateRow hlast, if_pos rfl, hrow, ← hinit]
  congr 1
  apply List.map_congr_left
  intro j hj
  have hne : context.activeBatchSize ≠ j := by
    have := List.mem_range.1 hj
    omega
  rw [h.coherent.rectangular.row_updateRow hlast, if_neg hne]

theorem seatSlot_spec (h : context.Reserves resident) (seed : AdmissionSeed) (requestId : Nat)
    (skipSpecialTokens : Bool) : Ensures (seatSlot seed requestId resident skipSpecialTokens)
      (fun done after => done = true ∧ context.Admits
        [(skipUpdate skipSpecialTokens).apply (seed.row context requestId resident)] after)
      (fun _ after => context.Admits [] after) context := by
  rw [seatSlot, ensures_onThrow, ensures_bind]
  apply (context.appendSlot_spec seed requestId resident).mono
  · intro slot grown hgrown
    obtain ⟨rfl, rfl, hadmissible⟩ := hgrown
    exact ⟨rfl, (h.pushSlot hadmissible).updateRow _ rfl⟩
  · intro _ unchanged hunchanged
    obtain ⟨pool, hrelease, hadmits⟩ := h.released
    rw [hunchanged, releaseCaught, ensures_mutate, hrelease]
    exact hadmits

/-- An admission appends one whole row, or leaves the rows as they are. -/
theorem admitSequence_spec (h : context.Coherent) (hyoung : context.residentSlots.Young)
    (refused : Bool) (seed : AdmissionSeed) (requestId : Nat) (lease : LeaseOutcome) (skipSpecialTokens : Bool) :
    Ensures (admitSequence refused seed requestId lease skipSpecialTokens) (fun done after =>
        if done then ∃ resident, context.Admits [(skipUpdate skipSpecialTokens).apply
          ((BatchOp.leasedSeed seed lease).row context requestId resident)] after
        else context.Admits [] after) (fun _ after => context.Admits [] after) context := by
  have hsame : context.Admits [] context := ⟨h, (List.append_nil _).symm, rfl, rfl⟩
  rw [admitSequence, ensures_bind, ensures_read, ensures_ite]
  refine ⟨fun _ => hsame, ?_⟩
  intro _
  cases hacquire : context.residentSlots.acquire with
  | none =>
    rw [id_eq, hacquire]
    exact hsame
  | some acquired =>
    obtain ⟨resident, pool⟩ := acquired
    have howned := h.residents.acquire hacquire
    have hreserves : (context.withPool pool).Reserves resident :=
      ⟨h.rectangular.scalars _ _ _ _ _ _ _ _, h.originals, h.requests, howned, h.uncollected,
        howned.epoch_ne (ResidentSlotPool.young_acquire hyoung hacquire) resident
          (List.mem_append_right _ (List.mem_singleton.2 rfl))⟩
    have hseated : ∀ leased : AdmissionSeed,
        Ensures (seatSlot leased requestId resident skipSpecialTokens)
          (fun done after =>
            if done then ∃ resident, context.Admits [(skipUpdate skipSpecialTokens).apply
              (leased.row context requestId resident)] after
            else context.Admits [] after)
          (fun _ after => context.Admits [] after) (context.withPool pool) := by
      intro leased
      apply (seatSlot_spec hreserves leased requestId skipSpecialTokens).mono
      · intro done after hdone
        rw [hdone.1, if_pos rfl]
        exact ⟨resident, hdone.2.coherent, hdone.2.rows, hdone.2.completedBatches,
          hdone.2.hasGuidedDecoding⟩
      · intro _ after hadmits
        exact ⟨hadmits.coherent, hadmits.rows, hadmits.completedBatches, hadmits.hasGuidedDecoding⟩
    have hreleased : Ensures (releaseResident resident)
        (fun _ after => context.Admits [] after) (fun _ after => context.Admits [] after)
        (context.withPool pool) := by
      obtain ⟨next, hrelease, hadmits⟩ := hreserves.released
      rw [releaseResident, ensures_mutate, hrelease]
      exact ⟨hadmits.coherent, hadmits.rows, hadmits.completedBatches, hadmits.hasGuidedDecoding⟩
    rw [id_eq, hacquire]
    dsimp only
    rw [ensures_bind, ensures_modify]
    cases lease with
    | unmanaged => exact hseated seed
    | admitted prefillStart => exact hseated (seed.starting prefillStart)
    | noCapacity => exact ensures_bind.2 hreleased
    | failed => exact ensures_bind.2 hreleased
    | threw => exact ensures_bind.2 hreleased

end Admission

end DecodingInferenceContext

/-! ## What the other operations do -/

namespace DecodingInferenceContext

section Others

variable {context after : DecodingInferenceContext} {slot : Nat}

theorem Touches.getElem?_rows (h : Touches slot context after) {j : Nat} (hj : j ≠ slot) :
    after.rows[j]? = context.rows[j]? := by
  rw [rows, rows, h.activeBatchSize, List.getElem?_map, List.getElem?_map]
  by_cases hlt : j < context.activeBatchSize
  · rw [List.getElem?_range hlt, Option.map_some, Option.map_some, h.row j hlt hj]
  · rw [List.getElem?_eq_none (by rw [List.length_range]; omega)]
    rfl

theorem Touches.map_identity_rows (h : Touches slot context after) :
    (after.rows[slot]?).map SlotRow.identity = (context.rows[slot]?).map SlotRow.identity := by
  have hmap := h.map_identity fun identity => identity
  rw [← List.getElem?_map, ← List.getElem?_map]
  exact congrArg (fun identities => identities[slot]?) hmap

theorem prefillBatch_eq (settings : PrefillSettings) (prunedTokens : Nat → Nat)
    (context : DecodingInferenceContext) :
    ∃ prunedPrefillTokens, context.prefillBatch settings prunedTokens =
          { context with prunedPrefillTokens := prunedPrefillTokens } ∧
        (context.prunedPrefillTokens = prunedPrefillTokens ∨
          prunedPrefillTokens.length = context.activeBatchSize) := by
  rw [prefillBatch]
  split
  · refine ⟨_, rfl, Or.inr ?_⟩
    rw [List.length_map, List.length_range]
  · exact ⟨_, rfl, Or.inl rfl⟩

theorem Coherent.prefillBatch (h : context.Coherent) (settings : PrefillSettings)
    (prunedTokens : Nat → Nat) : (context.prefillBatch settings prunedTokens).Coherent := by
  obtain ⟨pruned, hprefill, hpruned⟩ := context.prefillBatch_eq settings prunedTokens
  have hr := h.rectangular
  have hrectangular : ({ context with prunedPrefillTokens := pruned } :
      DecodingInferenceContext).Rectangular context.activeBatchSize := by
    refine ⟨hr.systemPrompts, hr.rawBatchedInputIds, hr.tokenIds, hr.currentGenerateLengths,
      hr.samplingSeeds, hr.acceptedDraftTokens, hr.proposedDraftTokens,
      hr.effectivePrefillLengths, hr.prefillStartLengths, hr.committedLengths, hr.requestIds,
      hr.residentRefs, hr.finishedStates, hr.batchIndexMapping, hr.thinkingDone,
      hr.guidedReasoningEnded, hr.callbackEmittedTokenCounts, hr.slotStreams,
      hr.stopStringsPerSlot, hr.logitBiasPerSlot, hr.stepLogprobs, ?_⟩
    rcases hpruned with hsame | hlength
    · rw [← hsame]
      exact hr.prunedPrefillTokens
    · exact Or.inr hlength
  have hbatch := hr.batchIndexMapping_eq
  rw [hprefill]
  refine ⟨hrectangular, ?_, ?_, ?_, ?_⟩
  · rw [hrectangular.batchIndexMapping_eq, ← hbatch]
    exact h.originals
  · rw [hrectangular.requestIds_eq, ← hr.requestIds_eq]
    exact h.requests
  · rw [hrectangular.residentRefs_eq, ← hr.residentRefs_eq]
    exact h.residents
  · rw [hrectangular.batchIndexMapping_eq, ← hbatch]
    exact h.uncollected

/-- Erasing entries under a list of keys: what each key has afterwards. -/
theorem lookup_foldl_erase {α β : Type} [DecidableEq α] (keys : List α) (a : α) :
    ∀ init : AList fun _ : α => β,
      (keys.foldl (fun entries key => entries.erase key) init).lookup a =
        if a ∈ keys then none else init.lookup a := by
  induction keys with
  | nil =>
    intro init
    rw [if_neg List.not_mem_nil]
    rfl
  | cons key rest ih =>
    intro init
    rw [List.foldl_cons, ih]
    by_cases hrest : a ∈ rest
    · rw [if_pos hrest, if_pos (List.mem_cons_of_mem _ hrest)]
    · rw [if_neg hrest]
      by_cases hkey : a = key
      · rw [hkey, AList.lookup_erase, if_pos List.mem_cons_self]
      · rw [AList.lookup_erase_ne hkey, if_neg]
        rw [List.mem_cons, not_or]
        exact ⟨hkey, hrest⟩

theorem lookup_takeCompletedAtOrAbove (firstIndex : Int) (context : DecodingInferenceContext)
    (index : Int) : (context.takeCompletedAtOrAbove firstIndex).completedBatches.lookup index =
      if firstIndex ≤ index then none else context.completedBatches.lookup index := by
  rw [takeCompletedAtOrAbove, lookup_foldl_erase]
  by_cases htaken : firstIndex ≤ index
  · rw [if_pos htaken]
    split
    · rfl
    · rename_i habsent
      rw [AList.lookup_eq_none]
      intro hin
      apply habsent
      rw [List.mem_filter]
      exact ⟨AList.mem_keys.1 hin, decide_eq_true htaken⟩
  · rw [if_neg htaken, if_neg]
    intro hin
    exact htaken (of_decide_eq_true (List.mem_filter.1 hin).2)

theorem Coherent.takeCompletedAtOrAbove (h : context.Coherent) (firstIndex : Int) :
    (context.takeCompletedAtOrAbove firstIndex).Coherent := by
  refine ⟨h.rectangular.scalars _ _ _ _ _ _ _ _, h.originals, h.requests, h.residents, ?_⟩
  intro index hindex
  rw [← AList.lookup_eq_none, lookup_takeCompletedAtOrAbove]
  split
  · rfl
  · exact AList.lookup_eq_none.2 (h.uncollected index hindex)

theorem updateSlot_spec (h : context.Rectangular context.activeBatchSize) (slot : Nat)
    (update : RowUpdate) :
    Ensures (updateSlot slot update) (fun _ after => Touches slot context after)
      (fun _ after => after = context) context := by
  rw [updateSlot, ensures_bind, ensures_read, ensures_bind, ensures_check]
  constructor
  · intro hslot
    exact touches_updateRow h hslot update
  · intro _
    rfl

end Others

end DecodingInferenceContext

/-! ## Runs -/

namespace BatchState

section Sound

variable {Matcher : Type} {s : BatchState Matcher} {after : DecodingInferenceContext}

theorem getElem?_slots (s : BatchState Matcher) (j : Nat) :
    s.slots[j]? = (s.context.rows[j]?).map fun row => (row, s.guide j) := by
  rw [slots, DecodingInferenceContext.rows, List.getElem?_map, List.getElem?_map]
  by_cases hj : j < s.context.activeBatchSize
  · rw [List.getElem?_range hj]
    rfl
  · rw [List.getElem?_eq_none (by rw [List.length_range]; omega)]
    rfl

theorem length_rows (context : DecodingInferenceContext) :
    context.rows.length = context.activeBatchSize := by
  rw [DecodingInferenceContext.rows, List.length_map, List.length_range]

/-- A batch whose matchers are kept, and which does not shrink. -/
theorem Sound.withContext (h : s.Sound) (hcoherent : after.Coherent)
    (hguided : after.hasGuidedDecoding = s.context.hasGuidedDecoding)
    (hsize : s.context.activeBatchSize ≤ after.activeBatchSize) :
    ({ s with context := after } : BatchState Matcher).Sound where
  coherent := hcoherent
  clean := fun i hi => h.clean i (Nat.le_trans hsize hi)
  gated := hguided.trans h.gated

theorem guide_withContext (hguided : after.hasGuidedDecoding = s.context.hasGuidedDecoding)
    (i : Nat) : ({ s with context := after } : BatchState Matcher).guide i = s.guide i := by
  rw [guide, guide, hguided]

theorem Sound.touches (h : s.Sound) {slot : Nat}
    (htouches : DecodingInferenceContext.Touches slot s.context after) :
    s.TouchesOne slot { s with context := after } ∧
      ({ s with context := after } : BatchState Matcher).Sound := by
  have hguided := htouches.hasGuidedDecoding
  refine ⟨⟨htouches.completedBatches, ?_, ?_⟩, h.withContext (h.coherent.touches htouches) hguided
    (Nat.le_of_eq htouches.activeBatchSize.symm)⟩
  · intro j hj
    rw [getElem?_slots, getElem?_slots, htouches.getElem?_rows hj, guide_withContext hguided]
  · rw [getElem?_slots, getElem?_slots, Option.map_map, Option.map_map, guide_withContext hguided]
    have hidentity := congrArg (fun o => o.map fun identity => (identity, s.guide slot))
      htouches.map_identity_rows
    rw [Option.map_map, Option.map_map] at hidentity
    exact hidentity

theorem Sound.admits (h : s.Sound) {added : List SlotRow} (hadmits : s.context.Admits added after) :
    ({ s with context := after } : BatchState Matcher).slots =
        s.slots ++ added.map (fun row => (row, none)) ∧
      ({ s with context := after } : BatchState Matcher).Sound := by
  have hguided := hadmits.hasGuidedDecoding
  have hsize := congrArg List.length hadmits.rows
  rw [List.length_append, length_rows, length_rows] at hsize
  have hslots : s.slots.length = s.context.activeBatchSize := by
    rw [slots, List.length_map, List.length_range]
  refine ⟨?_, h.withContext hadmits.coherent hguided (by omega)⟩
  apply List.ext_getElem?
  intro j
  rw [getElem?_slots, guide_withContext hguided, List.getElem?_append, List.getElem?_map,
    getElem?_slots, hslots]
  show ((after.rows)[j]?).map _ = _
  rw [hadmits.rows, List.getElem?_append, length_rows]
  split
  · rfl
  · rename_i hbeyond
    rw [guide_eq h.gated, h.clean j (Nat.le_of_not_lt hbeyond)]

theorem Sound.separate (h : s.Sound) : s.Separate where
  rectangular := (DecodingInferenceContext.perSlotSizesConsistent_iff _).2 h.coherent.rectangular
  originals := h.coherent.originals
  requests := h.coherent.requests
  residents := h.coherent.residents.nodup
  live := by
    intro row hrow
    exact h.coherent.residents.live _ (List.mem_map.2 ⟨row, hrow, rfl⟩)
  pool := by
    intro slot hslot
    have hfree := h.coherent.residents.free_iff hslot
    have hnodup := (List.nodup_append.1 h.coherent.residents.nodup_slots).2.1
    rw [DecodingInferenceContext.rows, List.map_map, List.map_map] at hnodup
    by_cases hin : slot ∈ s.context.residentSlots.mFreeSlots
    · apply Or.inl
      refine ⟨hin, ?_⟩
      intro hheld
      obtain ⟨i, ⟨hi, hsame⟩, _⟩ := hheld
      apply hfree.1 hin (s.context.row i).residentRef _ hsame
      rw [DecodingInferenceContext.rows, List.map_map]
      exact List.mem_map.2 ⟨i, List.mem_range.2 hi, rfl⟩
    · apply Or.inr
      refine ⟨?_, hin⟩
      have hheld : ∃ i, i < s.context.activeBatchSize ∧
          (s.context.row i).residentRef.slot = slot := by
        by_contra hnone
        apply hin
        rw [hfree]
        intro resident hmem hsame
        rw [DecodingInferenceContext.rows, List.map_map] at hmem
        obtain ⟨i, hi, hresident⟩ := List.mem_map.1 hmem
        apply hnone
        refine ⟨i, List.mem_range.1 hi, ?_⟩
        rw [← hsame, ← hresident]
        rfl
      obtain ⟨i, hi, hsame⟩ := hheld
      refine ⟨i, ⟨hi, hsame⟩, ?_⟩
      intro j hj
      exact List.inj_on_of_nodup_map hnodup (List.mem_range.2 hj.1) (List.mem_range.2 hi)
        (hj.2.trans hsame.symm)

end Sound

end BatchState

section Runs

variable {Matcher : Type} {settings : PrefillSettings} {s : BatchState Matcher}

theorem BatchOp.run_spec (h : s.Sound) (op : BatchOp) (hmeets : op.Meets settings s) :
    Ensures (op.run settings) (fun done after => op.Effect s done after ∧ after.Sound)
      (fun _ after => op.Effect s false after ∧ after.Sound) s := by
  obtain ⟨hyoung, hcondition⟩ := hmeets
  have hnone : ∀ after, s.context.Admits [] after →
      ({ s with context := after } : BatchState Matcher).slots = s.slots ∧
        ({ s with context := after } : BatchState Matcher).Sound := by
    intro after hadmits
    have hadded := h.admits hadmits
    rw [List.map_nil, List.append_nil] at hadded
    exact hadded
  cases op with
  | admitSequence refused seed requestId lease skipSpecialTokens =>
    rw [BatchOp.run, BatchState.onContext, ensures_zoom]
    apply (DecodingInferenceContext.admitSequence_spec h.coherent hyoung refused seed requestId
      lease skipSpecialTokens).mono
    · intro done after hafter
      cases done with
      | true =>
        obtain ⟨resident, hadmits⟩ := hafter
        have hadded := h.admits hadmits
        exact ⟨⟨hadmits.completedBatches, resident, hadded.1⟩, hadded.2⟩
      | false =>
        have hsame := hnone after hafter
        exact ⟨⟨hafter.completedBatches, hsame.1⟩, hsame.2⟩
    · intro _ after hadmits
      have hsame := hnone after hadmits
      exact ⟨⟨hadmits.completedBatches, hsame.1⟩, hsame.2⟩
  | prefillSlotInPlace slot prefillStart prefill =>
    rw [BatchOp.run, BatchState.onContext, ensures_zoom]
    apply (DecodingInferenceContext.prefillSlotInPlace_spec settings slot prefillStart prefill
      h.coherent.rectangular hcondition).mono
    · intro _ after hafter
      exact h.touches hafter.2.2
    · intro _ after hafter
      rcases hafter with hsame | htouches
      · rw [hsame]
        exact ⟨⟨rfl, fun _ _ => rfl, rfl⟩, h⟩
      · exact h.touches htouches.2.2
  | prefillBatch prunedTokens =>
    obtain ⟨pruned, hprefill, _⟩ := s.context.prefillBatch_eq settings prunedTokens
    have hcoherent := h.coherent.prefillBatch settings prunedTokens
    rw [BatchOp.run, BatchState.onContext, ensures_zoom, ensures_bind, ensures_modify, ensures_pure]
    rw [hprefill] at hcoherent ⊢
    refine ⟨⟨rfl, ?_⟩, h.withContext hcoherent rfl (Nat.le_refl _)⟩
    rw [BatchState.slots, BatchState.slots, List.map_map, List.map_map]
    rfl
  | updateSlot slot update =>
    rw [BatchOp.run, BatchState.onContext, ensures_zoom]
    apply (DecodingInferenceContext.updateSlot_spec h.coherent.rectangular slot update).mono
    · intro _ after htouches
      exact h.touches htouches
    · intro _ after hsame
      rw [hsame]
      exact ⟨⟨rfl, fun _ _ => rfl, rfl⟩, h⟩
  | performBatchEvict began completed =>
    apply (BatchState.performBatchEvict_spec h hyoung began completed).mono
    · intro done after hafter
      cases done with
      | true => exact ⟨hafter.2.1 rfl, hafter.2.2⟩
      | false => exact ⟨hafter.1 rfl, hafter.2.2⟩
    · intro _ _ hfalse
      exact hfalse.elim
  | takeCompletedAtOrAbove firstIndex =>
    rw [BatchOp.run, BatchState.onContext, ensures_zoom, ensures_bind, ensures_modify, ensures_pure]
    exact ⟨⟨rfl, s.context.lookup_takeCompletedAtOrAbove firstIndex⟩,
      h.withContext (h.coherent.takeCompletedAtOrAbove firstIndex) rfl (Nat.le_refl _)⟩

theorem Reached.sound (h : Reached settings s) : s.Sound := by
  induction h with
  | founded founding matchers meets founded => exact founding.begin_sound meets founded
  | @step op s after exit reached meets run ih =>
    have hrun := op.run_spec ih meets
    rw [Ensures, run] at hrun
    cases exit with
    | ok done => exact hrun.2
    | error failure => exact hrun.2

/-- In a run whose foundings and operations meet their conditions, no operation mixes
two requests. -/
theorem batch_membership (h : Reached settings s) :
    s.Separate ∧
      (∀ op : BatchOp, op.Meets settings s →
        Ensures (op.run settings) (fun done after => op.Effect s done after)
          (fun _ after => op.Effect s false after) s) ∧
      ∀ (context : DecodingInferenceContext) (seed : AdmissionSeed) (requestId : Nat)
        (resident : ResidentRef),
        Ensures (DecodingInferenceContext.appendSlot seed requestId resident)
          (fun slot grown => slot = context.activeBatchSize ∧
            grown.perSlotSizesConsistent = true ∧
            grown.rows = context.rows ++ [seed.row context requestId resident])
          (fun _ after => after = context) context := by
  refine ⟨h.sound.separate, ?_, ?_⟩
  · intro op hmeets
    apply (op.run_spec h.sound hmeets).mono
    · intro _ _ hdone
      exact hdone.1
    · intro _ _ hthrown
      exact hthrown.1
  · intro context seed requestId resident
    apply (context.appendSlot_spec seed requestId resident).mono
    · intro slot grown hgrown
      obtain ⟨hslot, rfl, hadmissible⟩ := hgrown
      have hfits := context.fits_row seed requestId resident
      exact ⟨hslot, (DecodingInferenceContext.perSlotSizesConsistent_iff _).2
        (hadmissible.rectangular.pushSlot hfits),
        DecodingInferenceContext.rows_pushSlot hadmissible.rectangular hfits⟩
    · intro _ _ hsame
      exact hsame

theorem batch_membership_founders :
    ∃ s : BatchState Nat,
      ({ rawBatchedInputIds := [[1], [2]] } : Founding Nat).begin [none, none] = some s ∧
        s.Separate :=
  ⟨_, rfl, (@batch_membership Nat {} _ (Reached.founded { rawBatchedInputIds := [[1], [2]] }
    [none, none] (fun _ => rfl) rfl)).1⟩

/-- The prefill of a joiner that prunes leaves one count in a batch of two, and the
next eviction throws.  A matcher that a failed batch left constrains a request of the
next batch once another request of it is evicted. -/
theorem membership_mixed :
    (({ rawBatchedInputIds := [[1]], residentCapacity := 2 } : Founding Nat).begin
        [none, none]).map (fun s =>
      let joined := ((BatchOp.admitSequence false
        { seed := { promptTokenIds := [2], originalIndex := 1 } } 2 .unmanaged true).run
          { mVisualPruner := true } s).2
      let prefilled := ((BatchOp.prefillSlotInPlace 1 0 { update := skipUpdate true }).run
        { mVisualPruner := true } joined).2
      (joined.context.perSlotSizesConsistent, prefilled.context.perSlotSizesConsistent,
        ((BatchState.performBatchEvict true true) prefilled).1.toOption)) =
          some (true, false, none) ∧
      (({ rawBatchedInputIds := [[1], [2]] } : Founding Nat).begin [some 7, none]).map (fun s =>
        let finished := ((BatchOp.updateSlot 1
          ⟨fun row => { row with finishedState := true }, fun _ => rfl⟩).run {} s).2
        (finished.guide 0, ((BatchState.performBatchEvict true true) finished).2.guide 0)) =
          some (none, some 7) := by
  decide +kernel

end Runs

end EdgeLLM.Ports.Generation
