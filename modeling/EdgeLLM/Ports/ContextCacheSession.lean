import EdgeLLM.Ports.ContextCacheManager

/-!
# Operations on a lease

The public operations of the manager: acquisition, growth, snapshot
reservation and retirement, the three publications, and the end of a lease.
-/

namespace EdgeLLM.Ports.ContextCache

open Verified Checked

set_option linter.unusedSectionVars false

variable {H : Type} [DecidableEq H]

/-- The lease after taking ownership of one active reference. -/
def CacheRequestLease.own (lease : CacheRequestLease H) (r : ResourceId) : CacheRequestLease H :=
  { lease with
    activeResources := lease.activeResources ++ [r]
    basePages := if r.type = .baseKvPage then lease.basePages ++ [r.index] else lease.basePages
    specPages := if r.type = .draftKvPage then lease.specPages ++ [r.index] else lease.specPages }

namespace Session

def onManager {α : Type} (f : Checked Check (ContextCacheManager H) α) :
    Checked Check (Session H) α :=
  Checked.zoom Session.manager (fun m s => { s with manager := m }) f

def onLease (f : CacheRequestLease H → CacheRequestLease H) : Checked Check (Session H) Unit :=
  Checked.modify fun s => { s with lease := f s.lease }

/-- `releaseLease`: drop every active reference and reset the handle. -/
def releaseLease : Checked Check (Session H) Unit := do
  let resources ← Checked.read fun s => s.lease.activeResources
  forEach
    (fun r => onManager (ContextCacheManager.onPools fun pools => pools.releaseActiveRef r))
    resources
  onLease fun _ => {}

/-- `CacheRequestLease::release`; it is `noexcept`. -/
def release : Checked Check (Session H) Unit := do
  let valid ← Checked.read fun s => s.lease.valid
  if valid then Checked.noexcept .terminated releaseLease else onLease fun _ => {}

/-- Pin one bound resource and record it in the lease. -/
def pin (r : ResourceId) : Checked Check (Session H) Unit := do
  onManager (ContextCacheManager.onPools fun pools => pools.addActiveRef r)
  onLease fun lease => lease.own r

/-- Eviction, allocation and handover, after a feasible plan. -/
def evictAndAllocate (demand : ResourceDemand) (eviction : EvictionPlan) (failure : Check) :
    Checked Check (Session H) Unit := do
  onManager (ContextCacheManager.applyEviction eviction)
  let allocated ← onManager (Checked.zoom ContextCacheManager.pools
    (fun pools m => { m with pools := pools })
    (Checked.update fun pools => pools.allocateInto demand demand.count))
  match allocated with
  | none => Checked.fail failure
  | some resources => onLease fun lease => resources.foldl CacheRequestLease.own lease

/-- The lease `acquire` starts from. -/
def leaseOfPlan (plan : ReusePlan H) : CacheRequestLease H where
  valid := true
  mode := plan.mode
  matchedBlockHashes := plan.matchedBlockHashes
  specReplayDependency := plan.specReplayDependency
  hybridHasAttention := plan.hybridHasAttention
  recurrentSnapshotBinding := plan.recurrentSnapshotBinding
  partialKvSnapshotBinding := plan.partialKvSnapshotBinding

/-- `mRecords.touch` of an optional record that still exists. -/
def touchStored (id : Option RecordId) : Checked Check (ContextCacheManager H) Unit := do
  let stored ← Checked.read fun m => id.filter fun id => m.records.contains id
  match stored with
  | some id => ContextCacheManager.touch id
  | none => pure ()

/-- The body of `acquire`; `false` is insufficient capacity. -/
def acquireBody (plan : ReusePlan H) : Checked Check (Session H) Bool := do
  forEach pin plan.bindings
  let m ← Checked.read Session.manager
  let protectedRecord := plan.specRecord <|> plan.hybridRecord
  let eviction ← ofExcept
    (EvictionPlanner.plan plan.demand m.pools m.records protectedRecord)
  if eviction.feasible = false then pure false
  else do
    evictAndAllocate plan.demand eviction .allocationAfterFeasiblePlan
    onManager (touchStored plan.specRecord)
    onManager (touchStored plan.hybridRecord)
    pure true

/-- `acquire` with its local lease: it is released when the body throws and
when the capacity does not suffice. -/
def acquireLease (plan : ReusePlan H) : Checked Check (Session H) (AcquireResult H) := do
  let acquired ← onThrow .terminated (acquireBody plan) release
  if acquired then do
    let lease ← Checked.read Session.lease
    pure { lease := some lease, status := .acquired, plan := plan }
  else do
    release
    pure { lease := none, status := .insufficientCapacity, plan := plan }

end Session

namespace ContextCacheManager

def acquire (plan : ReusePlan H) : Checked Check (ContextCacheManager H) (AcquireResult H) :=
  Checked.zoom (fun m => (⟨m, Session.leaseOfPlan plan⟩ : Session H)) (fun s _ => s.manager)
    (Session.acquireLease plan)

/-- The plan of one of the four acquisitions; `coverage` is the caller's
`requireKvPageCoverage`, absent when the plan is acquired as made. -/
inductive AcquireRequest (H : Type) where
  | vanilla
  | spec
  | hybrid (candidates : List (HybridCheckpointCandidate H)) (hasAttention : Bool)
  | hybridMtp (candidates : List (HybridCheckpointCandidate H))

/-- The planning half of `acquireVanilla`, `acquireSpec`, `acquireHybrid` and
`acquireHybridMtp`. -/
def makePlan (m : ContextCacheManager H) (request : AcquireRequest H)
    (inputFullBlockHashes : List H) (inputTokenCount : Int)
    (lookupPolicy : ContextCacheLookupPolicy) : Except Check (ReusePlan H) :=
  match request with
  | .vanilla =>
    makeVanillaReusePlan inputFullBlockHashes inputTokenCount m.pageSize m.baseIndex lookupPolicy
  | .spec =>
    match m.specReuseContract with
    | none => .error .specContractMissing
    | some contract =>
      makeSpecReusePlan inputFullBlockHashes inputTokenCount m.pageSize lookupPolicy
        m.baseIndex m.specIndex m.records contract
  | .hybrid candidates hasAttention =>
    makeHybridReusePlan candidates inputFullBlockHashes inputTokenCount m.pageSize hasAttention
      m.records lookupPolicy
  | .hybridMtp candidates =>
    makeHybridMtpReusePlan candidates inputFullBlockHashes inputTokenCount m.pageSize m.records
      lookupPolicy

/-- Plan, cover and acquire as one serialized manager operation. -/
def acquireRequest (request : AcquireRequest H) (inputFullBlockHashes : List H)
    (inputTokenCount : Int) (lookupPolicy : ContextCacheLookupPolicy)
    (coverage : Option (Int × Int)) : Checked Check (ContextCacheManager H) (AcquireResult H) := do
  let m ← Checked.read id
  let plan ← ofExcept
    (m.makePlan request inputFullBlockHashes inputTokenCount lookupPolicy)
  let plan ← ofExcept (match coverage with
    | none => .ok plan
    | some (basePages, draftPages) => requireKvPageCoverage plan basePages draftPages)
  acquire plan

end ContextCacheManager

namespace Session

/-! ## Growth and snapshots -/

/-- `growPages`: append private pages; `false` leaves everything unchanged. -/
def growPages (demand : ResourceDemand) : Checked Check (Session H) Bool :=
  if demand.count = 0 then pure true
  else do
    let m ← Checked.read Session.manager
    let eviction ← ofExcept (EvictionPlanner.plan demand m.pools m.records none)
    if eviction.feasible = false then pure false
    else do
      evictAndAllocate demand eviction .growthAfterFeasiblePlan
      pure true

def growBasePages (count : Int) : Checked Check (Session H) Bool := do
  let lease ← Checked.read Session.lease
  Checked.check (lease.valid = true) .leaseForeign
  Checked.check (lease.mode = .vanilla ∨ lease.mode = .hybrid) .growthNeedsBaseLease
  Checked.check (0 ≤ count) .growthCountNegative
  growPages { baseKvPages := count }

def growSpecPages (baseCount draftCount : Int) : Checked Check (Session H) Bool := do
  let lease ← Checked.read Session.lease
  Checked.check (lease.valid = true) .leaseForeign
  Checked.check (lease.mode = .spec ∨ lease.mode = .hybridMtp) .growthNeedsPairedLease
  Checked.check (0 ≤ baseCount ∧ 0 ≤ draftCount) .growthCountsNegative
  growPages { baseKvPages := baseCount, draftKvPages := draftCount }

/-- The last resource of a type among the newly owned ones. -/
def lastOfType (t : ResourceType) (rs : List ResourceId) : Option Int :=
  (rs.filter fun r => r.type = t).getLast?.map ResourceId.index

def reserveHybridSnapshots (needsPartialKvSnapshot : Bool) :
    Checked Check (Session H) (Option HybridSnapshotReservation) := do
  let lease ← Checked.read Session.lease
  Checked.check (lease.valid = true) .leaseForeign
  Checked.check (lease.mode = .hybrid ∨ lease.mode = .hybridMtp) .snapshotNeedsExactLease
  Checked.check (needsPartialKvSnapshot = false ∨ lease.hybridHasAttention = true)
    .partialNeedsAttention
  let grown ← growPages
    { recurrentSnapshotSlots := 1
      partialKvSnapshotSlots := if needsPartialKvSnapshot then 1 else 0 }
  if grown = false then pure none
  else do
    let owned ← Checked.read fun s => s.lease.activeResources.drop lease.activeResources.length
    let recurrent := lastOfType .recurrentSnapshot owned
    let partialKv := lastOfType .partialKvSnapshot owned
    Checked.check ((∃ slot ∈ recurrent, 0 ≤ slot) ∧ partialKv.isSome = needsPartialKvSnapshot)
      .reservationIncomplete
    pure (some ⟨recurrent.getD 0, partialKv⟩)

/-- `releaseLeaseResource`: give up one owned resource. -/
def releaseLeaseResource (r : ResourceId) : Checked Check (Session H) Unit := do
  let lease ← Checked.read Session.lease
  Checked.check (r ∈ lease.activeResources) .resourceNotOwned
  onLease fun lease => { lease with activeResources := lease.activeResources.erase r }
  onManager (ContextCacheManager.onPools fun pools => pools.releaseActiveRef r)

/-- `releaseLeaseResource` for an optional snapshot slot. -/
def releaseSnapshot (t : ResourceType) (slot : Option Int) : Checked Check (Session H) Unit :=
  match slot with
  | some slot => releaseLeaseResource ⟨t, slot⟩
  | none => pure ()

def releaseRestoredHybridSnapshots : Checked Check (Session H) Unit := do
  let lease ← Checked.read Session.lease
  Checked.check (lease.valid = true ∧ (lease.mode = .hybrid ∨ lease.mode = .hybridMtp))
    .restoredNeedsExactLease
  releaseSnapshot .recurrentSnapshot lease.recurrentSnapshotBinding
  onLease fun lease => { lease with recurrentSnapshotBinding := none }
  releaseSnapshot .partialKvSnapshot lease.partialKvSnapshotBinding
  onLease fun lease => { lease with partialKvSnapshotBinding := none }

def retireHybridSnapshotReservation (reservation : HybridSnapshotReservation) :
    Checked Check (Session H) Unit := do
  let lease ← Checked.read Session.lease
  Checked.check (lease.valid = true ∧ (lease.mode = .hybrid ∨ lease.mode = .hybridMtp))
    .retirementNeedsExactLease
  releaseLeaseResource ⟨.recurrentSnapshot, reservation.recurrentSnapshotSlot⟩
  releaseSnapshot .partialKvSnapshot reservation.partialKvSnapshotSlot

/-! ## Publication -/

/-- The full blocks a standard publication commits. -/
def publishCount (request : PublishRequest H) (pageSize : Int) : Nat :=
  min request.fullBlockHashes.length (request.residentStateLength / pageSize).toNat

/-- The prefix check of every publication. -/
def matchesAcquired (lease : CacheRequestLease H) (hashes : List H) : Prop :=
  hashes.take lease.matchedBlockHashes.length = lease.matchedBlockHashes.take hashes.length

instance (lease : CacheRequestLease H) (hashes : List H) :
    Decidable (matchesAcquired lease hashes) := by
  unfold matchesAcquired
  infer_instance

/-- The replay dependency lies on the published path. -/
def matchesReplay (lease : CacheRequestLease H) (hashes : List H) (publishCount : Nat) : Prop :=
  ∀ dependency ∈ lease.specReplayDependency,
    dependency.pathBlockCount.toNat ≤ publishCount ∧
      hashes[(dependency.pathBlockCount - 1).toNat]? = some dependency.terminalHash

instance (lease : CacheRequestLease H) (hashes : List H) (n : Nat) :
    Decidable (matchesReplay lease hashes n) := by
  unfold matchesReplay
  infer_instance

/-- `publish` onto an existing exact record: touch it, or attach the
speculative state it lacks. -/
def publishExisting (existing : RecordId) (publishCount : Nat)
    (specState : Option SpecPagedStateRecord) :
    Checked Check (ContextCacheManager H) PublishResult := do
  let record ← ContextCacheManager.getRecord existing
  Checked.check (publishCount ≤ record.basePagePath.length) .existingRecordShort
  let canonicalPages := record.basePagePath.take publishCount
  match specState, record.specState with
  | some state, none => do
      ContextCacheManager.upgradeRecord existing record state
      pure ⟨.published, some existing, canonicalPages, publishCount⟩
  | _, _ => do
      ContextCacheManager.touch existing
      pure ⟨.existingRecord, some existing, canonicalPages, publishCount⟩

/-- The state a speculative lease publishes with `publishCount` blocks. -/
def publishedSpecState (lease : CacheRequestLease H) (contract : Option SpecReuseContract)
    (logicalHashes : List H) (residentStateLength : Int) :
    Except Check (Option SpecPagedStateRecord) :=
  match lease.mode, contract with
  | .spec, some contract =>
    makeSpecPublishedState
      (lease.specPages.take (if contract.ownsPagedSpecState then logicalHashes.length else 0))
      logicalHashes residentStateLength contract
  | _, _ => .ok none

def publish (request : PublishRequest H) : Checked Check (Session H) PublishResult := do
  let lease ← Checked.read Session.lease
  Checked.check (lease.valid = true) .leaseForeign
  Checked.check (lease.mode = .vanilla ∨ lease.mode = .spec) .publishNeedsStandardLease
  Checked.check (0 ≤ request.residentStateLength) .residentLengthNegative
  let m ← Checked.read Session.manager
  Checked.check (lease.mode = .spec → m.specReuseContract.isSome = true) .publishWithoutContract
  let publishCount := publishCount request m.pageSize
  Checked.check (0 < publishCount) .publishNoFullBlock
  Checked.check (publishCount ≤ lease.basePages.length) .publishExceedsBasePath
  Checked.check (lease.mode = .spec → (∃ contract ∈ m.specReuseContract,
    contract.ownsPagedSpecState = true) → publishCount ≤ lease.specPages.length)
    .publishExceedsSpecPath
  let logicalHashes := request.fullBlockHashes.take publishCount
  Checked.check (matchesAcquired lease logicalHashes) .publishPathMismatch
  Checked.check (matchesReplay lease request.fullBlockHashes publishCount) .publishReplayMismatch
  let specState ← ofExcept
    (publishedSpecState lease m.specReuseContract logicalHashes request.residentStateLength)
  match logicalHashes.getLast? with
  | none => Checked.fail .publishNoFullBlock
  | some terminalHash =>
    let key : CacheRecordKey H := ⟨terminalHash, publishCount⟩
    match m.records.find key with
    | some existing => onManager (publishExisting existing publishCount specState)
    | none =>
      onManager (ContextCacheManager.publishRecord
        { key := key
          logicalBlockHashes := logicalHashes
          basePagePath := []
          specState := specState }
        lease.basePages true)

/-- An existing hybrid checkpoint is touched and reported. -/
def reportCheckpoint (existing : RecordId) (fullBlockCount : Int) :
    Checked Check (ContextCacheManager H) PublishResult := do
  let record ← ContextCacheManager.getRecord existing
  ContextCacheManager.touch existing
  pure ⟨.existingRecord, some existing, record.basePagePath, fullBlockCount⟩

/-- The record both checkpoint publications insert. -/
def checkpointRecord (request : HybridPublishRequest H) (specState : Option SpecPagedStateRecord) :
    CacheRecord H where
  key := ⟨request.checkpoint.exactPrefixDigest, request.fullBlockHashes.length⟩
  logicalBlockHashes := request.fullBlockHashes
  basePagePath := []
  specState := specState
  recurrentSnapshotSlot := some request.snapshots.recurrentSnapshotSlot
  partialKvSnapshotSlot := request.snapshots.partialKvSnapshotSlot
  exactCheckpointLength := some request.checkpoint.exactLength

/-- Touch the stored checkpoint or insert a new record for it. -/
def publishCheckpoint (request : HybridPublishRequest H)
    (specState : Option SpecPagedStateRecord) (hasPath : Bool) :
    Checked Check (Session H) PublishResult := do
  let s ← Checked.read id
  match s.manager.records.findHybrid request.checkpoint with
  | some existing => onManager (reportCheckpoint existing request.fullBlockHashes.length)
  | none =>
    onManager (ContextCacheManager.publishRecord (checkpointRecord request specState)
      s.lease.basePages hasPath)

def publishHybrid (request : HybridPublishRequest H) :
    Checked Check (Session H) PublishResult := do
  let lease ← Checked.read Session.lease
  let pageSize ← Checked.read fun s => s.manager.pageSize
  Checked.check (lease.valid = true) .leaseForeign
  Checked.check (lease.mode = .hybrid) .hybridNeedsExactLease
  Checked.check (0 < request.checkpoint.exactLength) .checkpointLengthNotPositive
  let fullBlockCount := request.checkpoint.exactLength / pageSize
  Checked.check ((request.fullBlockHashes.length : Int) = fullBlockCount) .checkpointBlockCount
  let needsPartialSnapshot := lease.hybridHasAttention &&
    decide (request.checkpoint.exactLength % pageSize ≠ 0)
  Checked.check (0 ≤ request.snapshots.recurrentSnapshotSlot ∧
    request.snapshots.partialKvSnapshotSlot.isSome = needsPartialSnapshot) .snapshotSetIncomplete
  Checked.check (lease.hybridHasAttention = false ∨ fullBlockCount ≤ lease.basePages.length)
    .checkpointExceedsPath
  Checked.check (⟨.recurrentSnapshot, request.snapshots.recurrentSnapshotSlot⟩ ∈
    lease.activeResources) .recurrentNotOwned
  Checked.check (∀ slot ∈ request.snapshots.partialKvSnapshotSlot,
    ⟨.partialKvSnapshot, slot⟩ ∈ lease.activeResources) .partialNotOwned
  Checked.check (matchesAcquired lease request.fullBlockHashes) .checkpointPathMismatch
  publishCheckpoint request none lease.hybridHasAttention

def publishHybridMtp (request : HybridPublishRequest H) :
    Checked Check (Session H) PublishResult := do
  let lease ← Checked.read Session.lease
  let pageSize ← Checked.read fun s => s.manager.pageSize
  Checked.check (lease.valid = true) .leaseForeign
  Checked.check (lease.mode = .hybridMtp) .mtpNeedsCombinedLease
  Checked.check (0 < request.checkpoint.exactLength) .mtpLengthNotPositive
  -- the boundary token stays private
  let fullBlockCount := (request.checkpoint.exactLength - 1) / pageSize
  Checked.check ((request.fullBlockHashes.length : Int) = fullBlockCount) .mtpBlockCount
  Checked.check (0 ≤ request.snapshots.recurrentSnapshotSlot ∧
    request.snapshots.partialKvSnapshotSlot.isSome = true) .mtpSnapshotSetIncomplete
  Checked.check (fullBlockCount ≤ lease.basePages.length ∧
    fullBlockCount ≤ lease.specPages.length) .mtpExceedsPaths
  Checked.check (⟨.recurrentSnapshot, request.snapshots.recurrentSnapshotSlot⟩ ∈
    lease.activeResources) .mtpRecurrentNotOwned
  Checked.check (∀ slot ∈ request.snapshots.partialKvSnapshotSlot,
    ⟨.partialKvSnapshot, slot⟩ ∈ lease.activeResources) .mtpPartialNotOwned
  Checked.check (matchesAcquired lease request.fullBlockHashes) .mtpPathMismatch
  publishCheckpoint request
    (some ⟨lease.specPages.take request.fullBlockHashes.length⟩) true

end Session

end EdgeLLM.Ports.ContextCache
