import EdgeLLM.Ports.ContextCacheEvictionPlanner
import EdgeLLM.Ports.ContextCacheReusePlan

/-!
# The context-cache manager

`ContextCacheManager` orchestrates the pools, the two indexes and the record
store through the lifecycle acquire, execute, publish or release.  Every
operation below is a `Checked` computation: it may throw at any assertion and
what was mutated before the throw stays, except where the source has a
rollback guard.

Two computations run on more than the manager: operations on a lease run on a
`Session` (the manager and the caller's lease), and a publication runs on a
`Transaction` (the manager and the progress counters of its rollback guard).
-/

namespace EdgeLLM.Ports.ContextCache

open Verified Checked

set_option linter.unusedSectionVars false

variable {H : Type} [DecidableEq H]

/-! ## Data -/

/-- Move-only ownership of one request's active references.  `valid` is the
manager back-pointer being set. -/
structure CacheRequestLease (H : Type) where
  valid : Bool := false
  mode : ReusePlanMode := .vanilla
  matchedBlockHashes : List H := []
  activeResources : List ResourceId := []
  basePages : List PageId := []
  specPages : List PageId := []
  specReplayDependency : Option (SpecReplayDependency H) := none
  hybridHasAttention : Bool := false
  recurrentSnapshotBinding : Option Int := none
  partialKvSnapshotBinding : Option Int := none
deriving DecidableEq

inductive AcquireStatus where
  | acquired
  | insufficientCapacity
deriving DecidableEq

structure AcquireResult (H : Type) where
  lease : Option (CacheRequestLease H) := none
  status : AcquireStatus := .acquired
  plan : ReusePlan H
deriving DecidableEq

inductive PublishStatus where
  | published
  | existingRecord
deriving DecidableEq

structure PublishRequest (H : Type) where
  fullBlockHashes : List H
  residentStateLength : Int

structure PublishResult where
  status : PublishStatus := .published
  record : Option RecordId := none
  canonicalBasePages : List PageId := []
  publishedBaseFullBlockCount : Int := 0
deriving DecidableEq

/-- Request-private snapshot slots reserved before a hybrid capture. -/
structure HybridSnapshotReservation where
  recurrentSnapshotSlot : Int := 0
  partialKvSnapshotSlot : Option Int := none

structure HybridPublishRequest (H : Type) where
  fullBlockHashes : List H
  checkpoint : HybridCheckpointKey H
  snapshots : HybridSnapshotReservation

/-- Cumulative outcomes of record eviction. -/
structure ContextCacheManagerMetrics where
  evictedRecords : Int := 0
  reclaimed : ResourceDemand := {}

structure ContextCacheManager (H : Type) where
  pageSize : Int
  pools : ResourcePools
  baseIndex : BaseBlockIndex H := {}
  specIndex : SpecPagedStateIndex H := {}
  specReuseContract : Option SpecReuseContract := none
  records : CacheRecordStore H
  metrics : ContextCacheManagerMetrics := {}

/-- The manager together with the lease an operation works on. -/
structure Session (H : Type) where
  manager : ContextCacheManager H
  lease : CacheRequestLease H

/-- The free counts of all pools. -/
def ResourcePools.freeCounts (pools : ResourcePools) : ResourceDemand where
  baseKvPages := pools.freeCount .baseKvPage
  draftKvPages := pools.freeCount .draftKvPage
  recurrentSnapshotSlots := pools.freeCount .recurrentSnapshot
  partialKvSnapshotSlots := pools.freeCount .partialKvSnapshot

/-- `mMetrics` after one eviction between two readings of the free counts. -/
def ContextCacheManagerMetrics.evicted (metrics : ContextCacheManagerMetrics)
    (freeBefore freeAfter : ResourceDemand) : ContextCacheManagerMetrics where
  evictedRecords := metrics.evictedRecords + 1
  reclaimed :=
    { baseKvPages := metrics.reclaimed.baseKvPages +
        (freeAfter.baseKvPages - freeBefore.baseKvPages)
      draftKvPages := metrics.reclaimed.draftKvPages +
        (freeAfter.draftKvPages - freeBefore.draftKvPages)
      recurrentSnapshotSlots := metrics.reclaimed.recurrentSnapshotSlots +
        (freeAfter.recurrentSnapshotSlots - freeBefore.recurrentSnapshotSlots)
      partialKvSnapshotSlots := metrics.reclaimed.partialKvSnapshotSlots +
        (freeAfter.partialKvSnapshotSlots - freeBefore.partialKvSnapshotSlots) }

namespace ContextCacheManager

/-- The constructor. -/
def make (pageSize : Int) (capacities : ResourceDemand) (maxRecords : Int)
    (specReuseContract : Option SpecReuseContract) : Except Check (ContextCacheManager H) := do
  requireThat (0 < pageSize) .pageSizeNotPositive
  requireThat (capacities.isNonNegative = true) .capacitiesNegative
  requireThat (0 ≤ maxRecords) .maxRecordsNegative
  let pools ← ResourcePools.make capacities
  .ok
    { pageSize := pageSize
      pools := pools
      specReuseContract := specReuseContract
      records := { maxRecords := maxRecords.toNat } }

/-! ## Access to the components -/

def onPools (f : ResourcePools → Except Check ResourcePools) :
    Checked Check (ContextCacheManager H) Unit :=
  Checked.zoom ContextCacheManager.pools (fun pools m => { m with pools := pools })
    (Checked.mutate f)

def onSpecIndex (f : Checked Check (SpecPagedStateIndex H) Unit) :
    Checked Check (ContextCacheManager H) Unit :=
  Checked.zoom ContextCacheManager.specIndex (fun index m => { m with specIndex := index }) f

def onRecords {α : Type} (f : CacheRecordStore H → Except Check (α × CacheRecordStore H)) :
    Checked Check (ContextCacheManager H) α :=
  Checked.zoom ContextCacheManager.records (fun records m => { m with records := records })
    (Checked.update f)

def erasePage (page : PageId) : Checked Check (ContextCacheManager H) Unit :=
  Checked.modify fun m => { m with baseIndex := m.baseIndex.erasePage page }

def touch (id : RecordId) : Checked Check (ContextCacheManager H) Unit :=
  onRecords fun records => (records.touch id).map fun records => ((), records)

def getRecord (id : RecordId) : Checked Check (ContextCacheManager H) (CacheRecord H) :=
  onRecords fun records => (records.get id).map fun record => (record, records)

/-- One iteration of the base-page loop of `evictRecord`. -/
def releaseBasePage (page : PageId) : Checked Check (ContextCacheManager H) Unit := do
  onPools fun pools => pools.releaseCacheRef ⟨.baseKvPage, page⟩
  let unreferenced ← Checked.read fun m => decide (m.pools.cacheRefCount ⟨.baseKvPage, page⟩ = 0)
  if unreferenced then erasePage page else pure ()

def releaseCacheRef (r : ResourceId) : Checked Check (ContextCacheManager H) Unit :=
  onPools fun pools => pools.releaseCacheRef r

def evictRecord (id : RecordId) : Checked Check (ContextCacheManager H) Unit := do
  let freeBefore ← Checked.read fun m => m.pools.freeCounts
  let record ← onRecords fun records => records.erase id
  onSpecIndex (SpecPagedStateIndex.erase record)
  forEach releaseBasePage record.basePagePath
  forEach releaseCacheRef
    ((specPages record.specState).map (ResourceId.mk .draftKvPage) ++
      record.recurrentSnapshotSlot.toList.map (ResourceId.mk .recurrentSnapshot) ++
      record.partialKvSnapshotSlot.toList.map (ResourceId.mk .partialKvSnapshot))
  Checked.modify fun m =>
    { m with metrics := m.metrics.evicted freeBefore m.pools.freeCounts }

def applyEviction (plan : EvictionPlan) : Checked Check (ContextCacheManager H) Unit :=
  forEach evictRecord plan.victims

/-! ## Publication -/

/-- `BaseProjection`: the canonical page of every block and the mappings the
index lacks. -/
structure BaseProjection (H : Type) where
  canonicalPages : List PageId := []
  missingMappings : List (H × PageId) := []

/-- One iteration of `prepareBaseProjection`. -/
def projectBlock (index : BaseBlockIndex H) (projection : BaseProjection H)
    (block : H × PageId) : BaseProjection H :=
  match index.lookup block.1 with
  | some canonical =>
    { projection with canonicalPages := projection.canonicalPages ++ [canonical] }
  | none =>
    match projection.missingMappings.find? fun missing => missing.1 = block.1 with
    | some prepared =>
      { projection with canonicalPages := projection.canonicalPages ++ [prepared.2] }
    | none =>
      { canonicalPages := projection.canonicalPages ++ [block.2]
        missingMappings := projection.missingMappings ++ [block] }

def prepareBaseProjection (index : BaseBlockIndex H) (logicalHashes : List H)
    (producerPages : List PageId) : Except Check (BaseProjection H) := do
  requireThat (logicalHashes.length ≤ producerPages.length) .producerPathShort
  .ok ((logicalHashes.zip producerPages).foldl (projectBlock index) {})

def selectRecordLimitVictim (records : CacheRecordStore H) : Except Check (Option RecordId) := do
  requireThat (records.size ≤ records.maxRecords) .recordLimitExceeded
  if records.maxRecords = 0 ∨ records.size < records.maxRecords then .ok none
  else do
    requireThat (records.lru ≠ []) .emptyLru
    .ok records.lru.head?

structure PreparedPublication (H : Type) where
  record : CacheRecord H
  canonicalBasePages : List PageId
  missingBaseMappings : List (H × PageId)
  cacheResources : List ResourceId
  recordLimitVictim : Option RecordId
  publishedBaseFullBlockCount : Int

/-- The progress counters of `PublicationRollbackGuard`. -/
structure PublicationGuard where
  addedCacheRefCount : Nat := 0
  insertedMappingCount : Nat := 0
  insertedRecord : RecordId := 0
  specIndexed : Bool := false

structure Transaction (H : Type) where
  manager : ContextCacheManager H
  guard : PublicationGuard := {}

namespace Transaction

def onManager {α : Type} (f : Checked Check (ContextCacheManager H) α) :
    Checked Check (Transaction H) α :=
  Checked.zoom Transaction.manager (fun m t => { t with manager := m }) f

def note (f : PublicationGuard → PublicationGuard) : Checked Check (Transaction H) Unit :=
  Checked.modify fun t => { t with guard := f t.guard }

/-- `addCacheRef` followed by `cacheRefAdded`. -/
def addCacheRef (r : ResourceId) : Checked Check (Transaction H) Unit := do
  onManager (onPools fun pools => pools.addCacheRef r)
  note fun guard => { guard with addedCacheRefCount := guard.addedCacheRefCount + 1 }

/-- `mBaseIndex.insert` with its check, then `baseMappingInserted`. -/
def insertMapping (missing : H × PageId) : Checked Check (Transaction H) Unit := do
  let inserted ← onManager (Checked.zoom ContextCacheManager.baseIndex
    (fun index m => { m with baseIndex := index })
    (Checked.update fun index => index.insert missing.1 missing.2))
  Checked.check (inserted.inserted = true ∧ inserted.canonicalPage = missing.2) .baseIndexChanged
  note fun guard => { guard with insertedMappingCount := guard.insertedMappingCount + 1 }

/-- The destructor of an uncommitted `PublicationRollbackGuard`. -/
def rollback (publication : PreparedPublication H) : Checked Check (Transaction H) Unit := do
  let guard ← Checked.read Transaction.guard
  if guard.specIndexed then do
    let record ← onManager (getRecord guard.insertedRecord)
    onManager (onSpecIndex (SpecPagedStateIndex.erase record))
  else pure ()
  let stored ← Checked.read fun t => t.manager.records.contains guard.insertedRecord
  if guard.insertedRecord ≠ 0 ∧ stored = true then
    onManager (onRecords fun records =>
      (records.erase guard.insertedRecord).map fun erased => ((), erased.2))
  else pure ()
  forEach (fun missing => onManager (erasePage missing.2))
    (publication.missingBaseMappings.take guard.insertedMappingCount).reverse
  forEach (fun r => onManager (releaseCacheRef r))
    (publication.cacheResources.take guard.addedCacheRefCount).reverse

/-- The store and speculative-index part of the guarded commit. -/
def storeRecord (record : CacheRecord H) : Checked Check (Transaction H) RecordId := do
  let inserted ← onManager (onRecords fun records => records.insert record)
  Checked.check (inserted.inserted = true) .recordAppeared
  note fun guard => { guard with insertedRecord := inserted.id }
  let record ← onManager (getRecord inserted.id)
  if record.specState.isSome then do
    onManager (onSpecIndex (SpecPagedStateIndex.insert record))
    note fun guard => { guard with specIndexed := true }
  else pure ()
  pure inserted.id

/-- The guarded part of `commitPreparedPublication`, up to `rollback.commit`. -/
def commit (publication : PreparedPublication H) : Checked Check (Transaction H) RecordId := do
  forEach addCacheRef publication.cacheResources
  forEach insertMapping publication.missingBaseMappings
  storeRecord publication.record

end Transaction

/-- The record limit after a commit: a store that retains nothing drops the
new record, a full one drops the preselected victim. -/
def enforceRecordLimit (victim : Option RecordId) (id : RecordId) :
    Checked Check (ContextCacheManager H) Unit := do
  let maxRecords ← Checked.read fun m => m.records.maxRecords
  if maxRecords = 0 then evictRecord id
  else match victim with
    | some victim => evictRecord victim
    | none => pure ()
  let size ← Checked.read fun m => m.records.size
  Checked.check (size ≤ maxRecords) .recordLimitNotEnforced

def commitPreparedPublication (publication : PreparedPublication H) :
    Checked Check (ContextCacheManager H) PublishResult := do
  let id ← Checked.zoom (fun m => ({ manager := m } : Transaction H)) (fun t _ => t.manager)
    (onThrow .terminated (Transaction.commit publication)
      (Transaction.rollback publication))
  enforceRecordLimit publication.recordLimitVictim id
  let retained ← Checked.read fun m => m.records.contains id
  pure
    { status := .published
      record := if retained then some id else none
      canonicalBasePages := publication.canonicalBasePages
      publishedBaseFullBlockCount := publication.publishedBaseFullBlockCount }

/-- The common tail of the three publications: project the path, prepare the
publication, commit it.  `hasPath` is false for a pure-recurrent checkpoint. -/
def publishRecord (record : CacheRecord H) (producerPages : List PageId) (hasPath : Bool) :
    Checked Check (ContextCacheManager H) PublishResult := do
  let index ← Checked.read ContextCacheManager.baseIndex
  let projection ← ofExcept
    (if hasPath then prepareBaseProjection index record.logicalBlockHashes producerPages
      else .ok {})
  let record := { record with basePagePath := projection.canonicalPages }
  let records ← Checked.read ContextCacheManager.records
  let victim ← ofExcept (selectRecordLimitVictim records)
  commitPreparedPublication
    { record := record
      canonicalBasePages := projection.canonicalPages
      missingBaseMappings := projection.missingMappings
      cacheResources := record.resources
      recordLimitVictim := victim
      publishedBaseFullBlockCount := record.logicalBlockHashes.length }

/-- `SpecUpgradeRollbackGuard` around the in-place upgrade of a base-only
record: references, index entries, then the state itself. -/
def upgradeRecord (existing : RecordId) (record : CacheRecord H) (state : SpecPagedStateRecord) :
    Checked Check (ContextCacheManager H) Unit :=
  let upgradedRecord := { record with specState := some state }
  let resources := state.pagePath.map (ResourceId.mk .draftKvPage)
  Checked.zoom (fun m => ({ manager := m } : Transaction H)) (fun t _ => t.manager)
    (onThrow .terminated
      (do
        forEach Transaction.addCacheRef resources
        Transaction.onManager (onSpecIndex (SpecPagedStateIndex.insert upgradedRecord))
        Transaction.note fun guard => { guard with specIndexed := true }
        Transaction.onManager (onRecords fun records =>
          (records.setSpecState existing state).map fun records => ((), records)))
      (do
        let guard ← Checked.read Transaction.guard
        if guard.specIndexed then
          Transaction.onManager (onSpecIndex (SpecPagedStateIndex.erase upgradedRecord))
        else pure ()
        forEach (fun r => Transaction.onManager (releaseCacheRef r))
          (resources.take guard.addedCacheRefCount).reverse))

end ContextCacheManager

end EdgeLLM.Ports.ContextCache
