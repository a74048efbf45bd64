import EdgeLLM.Ports.SwaSequence

/-!
# The bounded-SWA page manager

The manager with its free pages and sparse table, the one live request handle
and the quarantined request, and every public operation.  Device calls (stream
synchronization, table uploads, buffer operations of the cache) are answered
from a tape that each operation is run with: the call succeeds, returns an
error, or throws.

`faulted` is not in the source: it records that a device call of the live
request has failed.
-/

namespace EdgeLLM.Ports.BoundedSwa

open Verified Checked

inductive SwaKVCacheStatus where
  | kOk
  | kRequestFailed
  | kPoisoned
deriving DecidableEq

inductive Phase where
  | kAdmitted
  | kExecuting
  | kFinishing
deriving DecidableEq

/-- `RequestHandle::Impl`. -/
structure RequestImpl where
  inputLengths : List Int := []
  states : List SwaKVCacheState
  pendingCompactionMapping : List Int := []
  pendingCompactionBatchSize : Int := -1
  pendingDeviceBatchMapping : Bool := false
  phase : Phase := .kAdmitted
  deviceWorkPending : Bool := false

/-- How a device call ends: success, an error status, an exception. -/
inductive DeviceOutcome where
  | success
  | failure
  | threw
deriving DecidableEq

/-- `BoundedSwaKVPageManager`, its table, and the live handle. -/
structure SwaPageManager where
  freePages : List PageId
  table : SwaPageTable
  requestActive : Bool := false
  poisoned : Bool := false
  quarantinedRequest : Option RequestImpl := none
  handle : Option RequestImpl := none
  device : List DeviceOutcome := []
  faulted : Bool := false

/-- The manager as constructed over a table of sentinels. -/
def SwaPageManager.initial (g : SwaGeometry) : SwaPageManager where
  freePages := List.range g.numPages
  table := SwaPageTable.initial

/-- A computation of the manager. -/
abbrev SwaM (α : Type) : Type := Checked SwaCheck SwaPageManager α

namespace SwaPageManager

/-! ## Access to the request and the device -/

def checkedImpl : SwaM RequestImpl := do
  match ← Checked.read SwaPageManager.handle with
  | none => Checked.fail .handleInvalid
  | some impl => pure impl

def onImpl (f : RequestImpl → RequestImpl) : SwaM Unit :=
  Checked.modify fun m => { m with handle := m.handle.map f }

def onTable (f : SwaPageTable → Except SwaCheck SwaPageTable) : SwaM Unit :=
  Checked.zoom SwaPageManager.table (fun table m => { m with table := table }) (Checked.mutate f)

/-- The sequences of the live request with the table. -/
def batch (m : SwaPageManager) : Batch :=
  ⟨(m.handle.map RequestImpl.states).getD [], m.table⟩

def setBatch (batch : Batch) (m : SwaPageManager) : SwaPageManager :=
  { m with
    table := batch.table
    handle := m.handle.map fun impl => { impl with states := batch.states } }

/-- A loop over the sequences of the live request. -/
def onBatch (body : Nat → Checked SwaCheck SlotFrame Bool) : SwaM Bool :=
  Checked.zoom batch setBatch (eachState body)

/-- The next device call. -/
def deviceCall : SwaM DeviceOutcome := fun m =>
  match m.device with
  | [] => (.ok .success, m)
  | outcome :: rest =>
    (.ok outcome, { m with
      device := rest
      faulted := m.faulted || decide (outcome ≠ .success) })

/-- A device call whose failure is thrown (`CUDA_CHECK`). -/
def cudaCheck : SwaM Unit := do
  let outcome ← deviceCall
  Checked.check (outcome = .success) .device

/-- `mSynchronizer(stream) == cudaSuccess`. -/
def synchronizer : SwaM Bool := do
  match ← deviceCall with
  | .success => pure true
  | .failure => pure false
  | .threw => Checked.fail .device

/-- `setRow(slot, nullptr, 0)` on the sparse table. -/
def clearRow (g : SwaGeometry) (slot : Int) : SwaM Unit :=
  onTable fun table => table.clearRow g slot

/-- The resident checks of `beginRequest`, in loop order. -/
def checkResidents (g : SwaGeometry) : List Int → List ResidentRef → Except SwaCheck Unit
  | _, [] => .ok ()
  | seen, resident :: rest => do
      requireThat (0 ≤ resident.slot ∧ resident.slot < g.maxBatchSize) .residentSlotRange
      requireThat (resident.slot ∉ seen) .residentSlotsUnique
      checkResidents g (seen ++ [resident.slot]) rest

/-- Move `count` pages from the back of the free list to the reserve. -/
def drawPages : Nat → List PageId → List PageId → List PageId × List PageId
  | 0, freePages, reserved => (freePages, reserved)
  | count + 1, freePages, reserved =>
    match freePages.getLast? with
    | none => (freePages, reserved)
    | some page => drawPages count freePages.dropLast (reserved ++ [page])

/-- The sequences of a new request, each with its private reservation. -/
def admitResidents (g : SwaGeometry) : List ResidentRef → List PageId → List PageId × List SwaKVCacheState
  | [], freePages => (freePages, [])
  | resident :: rest, freePages =>
    let (freePages, reserved) := drawPages g.privatePagesPerSequence freePages []
    let (freePages, states) := admitResidents g rest freePages
    (freePages, { resident, pageSizeTokens := g.pageSize, windowSizeTokens := g.windowSize,
                  reservedPages := reserved } :: states)

def beginRequest (g : SwaGeometry) (residents : List ResidentRef) (stream : Nat) :
    SwaM SwaKVCacheStatus := do
  Checked.check (stream = g.stream) .streamDiffers
  let m ← Checked.read id
  if m.poisoned then pure .kPoisoned
  else if m.requestActive then pure .kRequestFailed
  else do
    Checked.check (0 < residents.length ∧ residents.length ≤ g.maxBatchSize) .batchSizeRange
    ofExcept (checkResidents g [] residents)
    let requiredPages := residents.length * g.privatePagesPerSequence
    if m.freePages.length < requiredPages then pure .kRequestFailed
    else do
      let (freePages, states) := admitResidents g residents m.freePages
      Checked.modify fun m =>
        { m with
          freePages := freePages
          handle := some { states := states }
          requestActive := true
          faulted := false
          table := { m.table with wiped := ∅ } }
      pure .kOk

/-! ## Prefill and decode -/

/-- The length check of `preparePrefill`. -/
def checkInputLengths (g : SwaGeometry) : List Int → Except SwaCheck Unit
  | [] => .ok ()
  | inputLength :: rest => do
      requireThat (0 < inputLength ∧ inputLength ≤ g.maxPagesPerSeq * g.pageSize)
        .prefillLengthRange
      checkInputLengths g rest

/-- The loop body of `preparePrefill`. -/
def preparePrefillSlot (g : SwaGeometry) (inputLengths : List Int) (slot : Nat) :
    Checked SwaCheck SlotFrame Bool := do
  let residentSlot ← Checked.read fun frame => frame.state.resident.slot
  SlotFrame.onTable fun table => table.clearRow g residentSlot
  let advanced ← advanceAndBind g residentSlot (inputLengths.getD slot 0).toNat
  Checked.check (advanced = true) .prefillNotPrepared
  pure true

def preparePrefill (g : SwaGeometry) (inputLengths : List Int) : SwaM SwaKVCacheStatus := do
  let impl ← checkedImpl
  Checked.check (impl.phase = .kAdmitted ∧ impl.deviceWorkPending = false) .prefillPhase
  Checked.check (inputLengths.length = impl.states.length) .prefillLengthsSize
  ofExcept (checkInputLengths g inputLengths)
  onImpl fun impl => { impl with inputLengths := inputLengths }
  let _ ← onBatch (preparePrefillSlot g inputLengths)
  cudaCheck
  onImpl fun impl => { impl with phase := .kExecuting, deviceWorkPending := true }
  pure .kOk

/-- The loop body of `completePrefill`. -/
def completePrefillSlot (g : SwaGeometry) (inputLengths : List Int) (slot : Nat) :
    Checked SwaCheck SlotFrame Bool := do
  let state ← Checked.read SlotFrame.state
  Checked.check (state.pendingEndpoint.map Int.ofNat = inputLengths[slot]?) .prefillEndpointDiffers
  retire g state.resident.slot
  pure true

def completePrefill (g : SwaGeometry) : SwaM SwaKVCacheStatus := do
  let impl ← checkedImpl
  Checked.check (impl.phase = .kExecuting ∧ impl.deviceWorkPending = true) .completePrefillPhase
  let _ ← onBatch (completePrefillSlot g impl.inputLengths)
  onImpl fun impl => { impl with deviceWorkPending := false }
  pure .kOk

/-- The loop body of `prepareDecodeStep`; `false` ends the loop. -/
def prepareDecodeSlot (g : SwaGeometry) (_slot : Nat) : Checked SwaCheck SlotFrame Bool := do
  let state ← Checked.read SlotFrame.state
  if state.exactResidentTokenCount = int32Max then pure false
  else advanceAndBind g state.resident.slot (state.exactResidentTokenCount + 1)

def prepareDecodeStep (g : SwaGeometry) : SwaM SwaKVCacheStatus := do
  let impl ← checkedImpl
  Checked.check (impl.phase = .kExecuting ∧ impl.deviceWorkPending = false) .decodePhase
  let advanced ← onBatch (prepareDecodeSlot g)
  if advanced then do
    cudaCheck
    onImpl fun impl => { impl with deviceWorkPending := true }
    pure .kOk
  else do
    onImpl fun impl => { impl with phase := .kFinishing }
    pure .kRequestFailed

/-- The loop body of `completeDecodeStep`. -/
def completeDecodeSlot (g : SwaGeometry) (_slot : Nat) : Checked SwaCheck SlotFrame Bool := do
  let state ← Checked.read SlotFrame.state
  retire g state.resident.slot
  pure true

def completeDecodeStep (g : SwaGeometry) : SwaM SwaKVCacheStatus := do
  let impl ← checkedImpl
  Checked.check (impl.phase = .kExecuting ∧ impl.deviceWorkPending = true) .completeDecodePhase
  let _ ← onBatch (completeDecodeSlot g)
  onImpl fun impl => { impl with deviceWorkPending := false }
  pure .kOk

/-! ## Release -/

/-- `releaseState`; the capacity of the free list is the pool size. -/
def releaseState (g : SwaGeometry) (state : SwaKVCacheState) : SwaM Unit := do
  let leasedPageCount := state.pageBindings.length + state.reservedPages.length +
    state.pendingRetireBindings.length
  let freeCount ← Checked.read fun m => m.freePages.length
  Checked.check (leasedPageCount = g.privatePagesPerSequence ∧
    freeCount + leasedPageCount ≤ g.numPages) .terminated
  Checked.modify fun m => { m with freePages := m.freePages ++ state.leased }

/-- `clearAndRelease`: clear the rows, and only then give the pages back.  When
the clearing throws, the request is quarantined with its pages. -/
def clearAndRelease (g : SwaGeometry) (request : RequestImpl) : SwaM Unit := do
  let cleared ← Checked.attempt do
    forEach (fun state => clearRow g state.resident.slot) request.states
    cudaCheck
  match cleared with
  | .error _ => do
      Checked.modify fun m => { m with poisoned := true }
      let occupied ← Checked.read fun m => m.quarantinedRequest.isSome
      Checked.check (occupied = false) .terminated
      Checked.modify fun m => { m with quarantinedRequest := some request }
  | .ok _ => do
      forEach (releaseState g) request.states
      Checked.modify fun m => { m with requestActive := false }

def synchronize : SwaM SwaKVCacheStatus := do
  let impl ← checkedImpl
  if impl.deviceWorkPending then do
    let reached ← synchronizer
    if reached then do
      onImpl fun impl => { impl with deviceWorkPending := false }
      pure .kOk
    else do
      Checked.modify fun m => { m with poisoned := true }
      let occupied ← Checked.read fun m => m.quarantinedRequest.isSome
      Checked.check (occupied = false) .alreadyQuarantined
      Checked.modify fun m => { m with quarantinedRequest := m.handle, handle := none }
      pure .kPoisoned
  else pure .kOk

/-- Take the live request out of its handle. -/
def takeHandle : SwaM (Option RequestImpl) := do
  let taken ← Checked.read SwaPageManager.handle
  Checked.modify fun m => { m with handle := none }
  pure taken

/-- The status after a release. -/
def releasedStatus : SwaM SwaKVCacheStatus := do
  let poisoned ← Checked.read SwaPageManager.poisoned
  pure (if poisoned then .kPoisoned else .kOk)

def finish (g : SwaGeometry) : SwaM SwaKVCacheStatus := do
  let valid ← Checked.read fun m => m.handle.isSome
  if valid then do
    let syncStatus ← synchronize
    if syncStatus ≠ .kOk then pure syncStatus
    else do
      match ← takeHandle with
      | none => pure ()
      | some request => clearAndRelease g request
      releasedStatus
  else pure .kOk

/-- `abandon`, the destructor of the handle. -/
def abandon (g : SwaGeometry) : SwaM Unit := do
  match ← takeHandle with
  | none => pure ()
  | some request =>
    if request.deviceWorkPending then do
      let status ← Checked.attempt synchronizer
      match status with
      | .ok true => clearAndRelease g { request with deviceWorkPending := false }
      | _ => do
          Checked.modify fun m => { m with poisoned := true }
          let occupied ← Checked.read fun m => m.quarantinedRequest.isSome
          Checked.check (occupied = false) .terminated
          Checked.modify fun m => { m with quarantinedRequest := some request }
    else clearAndRelease g request

def shutdown (g : SwaGeometry) : SwaM SwaKVCacheStatus := do
  match ← Checked.read SwaPageManager.quarantinedRequest with
  | none => do
      let active ← Checked.read SwaPageManager.requestActive
      pure (if active then .kRequestFailed else .kOk)
  | some request => do
      let status ← Checked.attempt synchronizer
      match status with
      | .ok true => do
          Checked.modify fun m => { m with quarantinedRequest := none, poisoned := false }
          clearAndRelease g { request with deviceWorkPending := false }
          releasedStatus
      | _ => pure .kPoisoned

/-! ## Compaction -/

/-- The destination of an old slot, if it survives. -/
def destinationOf (destination : Int) : Option Nat :=
  if 0 ≤ destination then some destination.toNat else none

/-- The marking loop of `validateCompactionMapping`; returns the destinations
in the order they were marked. -/
def markDestinations (newBatchSize : Int) : List Int → List Nat → Except SwaCheck (List Nat)
  | [], marked => .ok marked
  | destination :: rest, marked => do
      requireThat (-1 ≤ destination ∧ destination < newBatchSize) .mappingDestination
      match destinationOf destination with
      | none => markDestinations newBatchSize rest marked
      | some k => do
          requireThat (k ∉ marked) .mappingDuplicate
          markDestinations newBatchSize rest (marked ++ [k])

def validateCompactionMapping (oldToNew : List Int) (oldBatchSize : Nat) (newBatchSize : Int) :
    Except SwaCheck Unit := do
  requireThat (oldToNew.length = oldBatchSize) .mappingSize
  requireThat (0 ≤ newBatchSize ∧ newBatchSize ≤ oldBatchSize) .mappingBatchSize
  let marked ← markDestinations newBatchSize oldToNew []
  requireThat (∀ k ∈ List.range newBatchSize.toNat, k ∈ marked) .mappingOmits

def beginBatchCompaction (oldToNew : List Int) (newBatchSize : Int) : SwaM SwaKVCacheStatus := do
  let impl ← checkedImpl
  Checked.check (impl.phase = .kExecuting ∧ impl.deviceWorkPending = false) .compactionPhase
  ofExcept (validateCompactionMapping oldToNew impl.states.length newBatchSize)
  onImpl fun impl =>
    { impl with
      pendingCompactionMapping := oldToNew
      pendingCompactionBatchSize := newBatchSize
      pendingDeviceBatchMapping := true }
  cudaCheck
  onImpl fun impl => { impl with deviceWorkPending := true }
  pure .kOk

/-- The sequences with their destinations. -/
def compactionMoves (impl : RequestImpl) : List (Option Nat × SwaKVCacheState) :=
  (impl.pendingCompactionMapping.map destinationOf).zip impl.states

/-- The default-constructed sequence the survivors are moved over. -/
def blankState : SwaKVCacheState where
  resident := ⟨-1, 0⟩
  pageSizeTokens := 0
  windowSizeTokens := 0

/-- The clearing loop of `compactBatch`: both rows of a dropped slot, and its
recurrent state. -/
def clearDropped (g : SwaGeometry) (state : SwaKVCacheState) : SwaM Unit := do
  -- the base table has as many rows as the sparse one
  clearRow g state.resident.slot
  cudaCheck

/-- `compactBatch`.  Moving survivors does not touch the free list, so the
releases of the moving loop stand together. -/
def compactBatch (g : SwaGeometry) : SwaM SwaKVCacheStatus := do
  let impl ← checkedImpl
  Checked.check (impl.phase = .kExecuting ∧ impl.deviceWorkPending = true) .compactionNotPending
  Checked.check (0 ≤ impl.pendingCompactionBatchSize ∧ impl.pendingDeviceBatchMapping = true)
    .compactionMappingMissing
  forEach (clearDropped g) (dropped (compactionMoves impl))
  -- the base upload, the sparse upload and the length compaction
  cudaCheck
  cudaCheck
  cudaCheck
  let syncStatus ← synchronize
  if syncStatus ≠ .kOk then pure syncStatus
  else do
    forEach (releaseState g) (dropped (compactionMoves impl))
    onImpl fun current =>
      { current with
        states := scatter (compactionMoves impl)
          (List.replicate impl.pendingCompactionBatchSize.toNat blankState)
        pendingCompactionMapping := []
        pendingCompactionBatchSize := -1
        pendingDeviceBatchMapping := false }
    -- `setActiveBatchSize` reshapes a device tensor
    cudaCheck
    if impl.pendingCompactionBatchSize = 0 then
      onImpl fun impl => { impl with phase := .kFinishing }
    else pure ()
    pure .kOk

/-- The public operations; `abandon` is the destruction of the handle. -/
inductive Op where
  | beginRequest (residents : List ResidentRef) (stream : Nat)
  | preparePrefill (inputLengths : List Int)
  | completePrefill
  | prepareDecodeStep
  | completeDecodeStep
  | beginBatchCompaction (oldToNew : List Int) (newBatchSize : Int)
  | compactBatch
  | finish
  | abandon
  | shutdown

/-- One operation. -/
def call (g : SwaGeometry) : Op → SwaM SwaKVCacheStatus
  | .beginRequest residents stream => beginRequest g residents stream
  | .preparePrefill inputLengths => preparePrefill g inputLengths
  | .completePrefill => completePrefill g
  | .prepareDecodeStep => prepareDecodeStep g
  | .completeDecodeStep => completeDecodeStep g
  | .beginBatchCompaction oldToNew newBatchSize => beginBatchCompaction oldToNew newBatchSize
  | .compactBatch => compactBatch g
  | .finish => finish g
  | .abandon => do
      abandon g
      pure .kOk
  | .shutdown => shutdown g

/-- One operation with the outcomes of its device calls. -/
def step (g : SwaGeometry) (op : Op) (device : List DeviceOutcome) (m : SwaPageManager) :
    Except SwaCheck SwaKVCacheStatus × SwaPageManager :=
  call g op { m with device := device }

/-- A run: an operation that throws leaves its partial state behind. -/
def run (g : SwaGeometry) : List (Op × List DeviceOutcome) → SwaPageManager → SwaPageManager
  | [], m => m
  | (op, device) :: rest, m => run g rest (step g op device m).2

end SwaPageManager

end EdgeLLM.Ports.BoundedSwa
