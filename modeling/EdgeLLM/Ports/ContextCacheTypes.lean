import EdgeLLM.Verified.Checked
import Mathlib.Algebra.Order.Ring.Nat

/-!
# Context-cache types

The value types shared by every component of the context cache: typed resource
ids, per-pool demands, the speculative contract, and the assertions
(`ELLM_CHECK`) the components make.

Page ids, slot ids, lengths and counts are `int32_t` in the source and `Int`
here, so that the sign checks keep their content; all arithmetic on them is
bounded by a checked token count.  `BlockHash` is a type parameter `H` of the
modules above: the manager only compares hashes.
-/

namespace EdgeLLM.Ports.ContextCache

/-- Host record identity (`uint64_t`, 0 means no record). -/
abbrev RecordId := Nat

/-- Host identity of one K/V page pair. -/
abbrev PageId := Int

/-- Largest `int32_t`. -/
def int32Max : Nat := 2 ^ 31 - 1

/-- Largest `uint64_t`. -/
def uint64Max : Nat := 2 ^ 64 - 1

inductive ResourceType where
  | baseKvPage
  | draftKvPage
  | recurrentSnapshot
  | partialKvSnapshot
deriving DecidableEq

/-- `kRESOURCE_TYPES`. -/
def resourceTypes : List ResourceType :=
  [.baseKvPage, .draftKvPage, .recurrentSnapshot, .partialKvSnapshot]

theorem mem_resourceTypes (t : ResourceType) : t ∈ resourceTypes := by
  cases t <;> decide

/-- Pool-local identity of one typed resource. -/
structure ResourceId where
  type : ResourceType
  index : Int
deriving DecidableEq

/-- Number of resources required from each pool by one atomic operation. -/
structure ResourceDemand where
  baseKvPages : Int := 0
  draftKvPages : Int := 0
  recurrentSnapshotSlots : Int := 0
  partialKvSnapshotSlots : Int := 0
deriving DecidableEq

namespace ResourceDemand

def get (demand : ResourceDemand) : ResourceType → Int
  | .baseKvPage => demand.baseKvPages
  | .draftKvPage => demand.draftKvPages
  | .recurrentSnapshot => demand.recurrentSnapshotSlots
  | .partialKvSnapshot => demand.partialKvSnapshotSlots

/-- `++demand.get(type)`. -/
def increment (demand : ResourceDemand) : ResourceType → ResourceDemand
  | .baseKvPage => { demand with baseKvPages := demand.baseKvPages + 1 }
  | .draftKvPage => { demand with draftKvPages := demand.draftKvPages + 1 }
  | .recurrentSnapshot =>
    { demand with recurrentSnapshotSlots := demand.recurrentSnapshotSlots + 1 }
  | .partialKvSnapshot =>
    { demand with partialKvSnapshotSlots := demand.partialKvSnapshotSlots + 1 }

def isNonNegative (demand : ResourceDemand) : Bool :=
  decide (0 ≤ demand.baseKvPages ∧ 0 ≤ demand.draftKvPages ∧
    0 ≤ demand.recurrentSnapshotSlots ∧ 0 ≤ demand.partialKvSnapshotSlots)

/-- `resourceDemandCount`: the total number of resources. -/
def count (demand : ResourceDemand) : Nat :=
  demand.baseKvPages.toNat + demand.draftKvPages.toNat +
    demand.recurrentSnapshotSlots.toNat + demand.partialKvSnapshotSlots.toNat

end ResourceDemand

/-- Contract between a speculative decoder and context reuse. -/
structure SpecReuseContract where
  ownsPagedSpecState : Bool
  futureDependencyTokens : Int

/-- Request-level lookup policy. -/
inductive ContextCacheLookupPolicy where
  | useCache
  | bypass
deriving DecidableEq

/-- The assertions of the context cache, one constructor per `ELLM_CHECK`
message; `terminated` is a throw out of a `noexcept` function. -/
inductive Check where
  -- ResourcePools
  | demandNegative
  | capacitiesNegative
  | allocationOutputSize
  | activeRefToFree
  | activeRefOverflow
  | activeRefUnderflow
  | freeListFull
  | cacheRefToFree
  | cacheRefOverflow
  | cacheRefUnderflow
  | invalidResourceId
  -- BaseBlockIndex
  | indexNegativePage
  | pageAlreadyIndexed
  -- SpecPagedStateIndex
  | specIndexWithoutRecordId
  | specPathNotLogicalPath
  | specRecordAlreadyIndexed
  | specLookupExceedsPath
  | specIndexMissingBoundary
  | specIndexMissingCandidate
  -- CacheRecord
  | specStateEmpty
  | specStateNotBasePath
  | specStateNegativePage
  | recordBlockCountNegative
  | recordWithoutBlock
  | recordLogicalCount
  | hybridCheckpointIncomplete
  | recordTerminalHash
  | recordBasePath
  | recordNegativePage
  | recordNegativeSnapshot
  | recordNegativeLength
  -- CacheRecordStore
  | maxRecordsNegative
  | recordIdsExhausted
  | recordIdNotUnique
  | exactKeyNotUnique
  | hybridKeyNotUnique
  | hybridInputNegative
  | recordMissing
  | specStateDiffers
  | recordIndexesInconsistent
  | hybridIndexInconsistent
  -- reuse planning
  | pageSizeNotPositive
  | inputTokenCountNegative
  | tooManyBlockHashes
  | specIndexNotPaged
  | specIndexNotCoherent
  | replayExceedsPath
  | futureDependencyNegative
  | coverageNegative
  | residentLengthNegative
  | publishedStateBinding
  -- EvictionPlanner
  | evictionDemandNegative
  | mruRecordMissing
  | evictionWithoutCacheRef
  -- ContextCacheManager
  | leaseForeign
  | producerPathShort
  | recordLimitExceeded
  | emptyLru
  | specContractMissing
  | allocationAfterFeasiblePlan
  | growthNeedsBaseLease
  | growthCountNegative
  | growthCountsNegative
  | growthNeedsPairedLease
  | growthAfterFeasiblePlan
  | snapshotNeedsExactLease
  | partialNeedsAttention
  | reservationIncomplete
  | restoredNeedsExactLease
  | retirementNeedsExactLease
  | resourceNotOwned
  | baseIndexChanged
  | recordAppeared
  | recordLimitNotEnforced
  | publishNeedsStandardLease
  | publishWithoutContract
  | publishNoFullBlock
  | publishExceedsBasePath
  | publishExceedsSpecPath
  | publishPathMismatch
  | publishReplayMismatch
  | existingRecordShort
  | hybridNeedsExactLease
  | checkpointLengthNotPositive
  | checkpointBlockCount
  | snapshotSetIncomplete
  | checkpointExceedsPath
  | recurrentNotOwned
  | partialNotOwned
  | checkpointPathMismatch
  | mtpNeedsCombinedLease
  | mtpLengthNotPositive
  | mtpBlockCount
  | mtpSnapshotSetIncomplete
  | mtpExceedsPaths
  | mtpRecurrentNotOwned
  | mtpPartialNotOwned
  | mtpPathMismatch
  | terminated
deriving DecidableEq

/-- The checks of the resource pools that only broken accounting can fire. -/
def Check.accounting : Check → Bool
  | .activeRefUnderflow | .cacheRefUnderflow | .freeListFull | .activeRefToFree
  | .cacheRefToFree => true
  | _ => false

/-- The checks that only incoherent indexes can fire. -/
def Check.coherence : Check → Bool
  | .specIndexNotPaged | .specIndexNotCoherent | .specLookupExceedsPath
  | .specIndexMissingBoundary | .specIndexMissingCandidate | .recordMissing
  | .recordIndexesInconsistent | .hybridIndexInconsistent => true
  | _ => false

/-- The failures no caller can cause. -/
def Check.internal (e : Check) : Bool := e.accounting || e.coherence || decide (e = .terminated)

end EdgeLLM.Ports.ContextCache
