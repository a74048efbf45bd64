import EdgeLLM.Ports.ContextCacheCoherence

/-!
# Reuse planning

The four planners turn a lookup into a side-effect-free proposal: which cached
pages to bind and how many private resources to allocate.  `requireKvPageCoverage`
is the coordinator's only adjustment of a plan before it is acquired.

What acquisition needs from a plan is `ReusePlan.Bound`: the `i`-th bound base
page is the indexed page of the `i`-th input hash, and every bound resource is
owned by a record.
-/

namespace EdgeLLM.Ports.ContextCache

open Verified

set_option linter.unusedSectionVars false

variable {H : Type} [DecidableEq H]

inductive ReusePlanKind where
  | standard
  | noReusablePrefix
  | fullInputRewind
deriving DecidableEq

inductive ReusePlanMode where
  | vanilla
  | hybrid
  | hybridMtp
  | spec
deriving DecidableEq

inductive SpecReplayMode where
  | none
  | fullPage
deriving DecidableEq

/-- Exact digest computed by the runtime for one stored hybrid length. -/
structure HybridCheckpointCandidate (H : Type) where
  exactLength : Int
  exactPrefixDigest : H
deriving DecidableEq

/-- Original coherent state boundary required by full-page replay. -/
structure SpecReplayDependency (H : Type) where
  pathBlockCount : Int
  terminalHash : H
deriving DecidableEq

structure ReusePlan (H : Type) where
  mode : ReusePlanMode := .vanilla
  matchedTokenLength : Int := 0
  reuseTokenLength : Int := 0
  matchedBlockHashes : List H := []
  basePageBindings : List PageId := []
  specRecord : Option RecordId := none
  specPageBindings : List PageId := []
  specReplayDependency : Option (SpecReplayDependency H) := none
  hybridHasAttention : Bool := false
  hybridCheckpoint : Option (HybridCheckpointKey H) := none
  hybridRecord : Option RecordId := none
  recurrentSnapshotBinding : Option Int := none
  partialKvSnapshotBinding : Option Int := none
  demand : ResourceDemand := {}
  kind : ReusePlanKind := .standard
  specReplayMode : SpecReplayMode := .none
deriving DecidableEq

/-- The resources a plan binds, in the order acquisition pins them. -/
def ReusePlan.bindings (plan : ReusePlan H) : List ResourceId :=
  plan.basePageBindings.map (ResourceId.mk .baseKvPage) ++
    plan.specPageBindings.map (ResourceId.mk .draftKvPage) ++
    plan.recurrentSnapshotBinding.toList.map (ResourceId.mk .recurrentSnapshot) ++
    plan.partialKvSnapshotBinding.toList.map (ResourceId.mk .partialKvSnapshot)

/-! ## The planners -/

/-- The common checks; the result is the page count of the whole input. -/
def validateAndCountInputPages (inputFullBlockHashes : List H) (inputTokenCount pageSize : Int) :
    Except Check Int := do
  requireThat (0 < pageSize) .pageSizeNotPositive
  requireThat (0 ≤ inputTokenCount) .inputTokenCountNegative
  requireThat ((inputFullBlockHashes.length : Int) ≤ inputTokenCount / pageSize) .tooManyBlockHashes
  .ok ((inputTokenCount + pageSize - 1) / pageSize)

/-- Vanilla reuse; a block-aligned match of the full input rewinds one page. -/
def makeVanillaReusePlan (inputFullBlockHashes : List H) (inputTokenCount pageSize : Int)
    (index : BaseBlockIndex H) (lookupPolicy : ContextCacheLookupPolicy) :
    Except Check (ReusePlan H) := do
  let totalInputPages ← validateAndCountInputPages inputFullBlockHashes inputTokenCount pageSize
  if inputTokenCount = 0 then .ok {}
  else if lookupPolicy = .bypass then
    .ok { kind := .noReusablePrefix, demand := { baseKvPages := totalInputPages } }
  else
    let lookup := index.lookupPrefix inputFullBlockHashes
    let rewind := inputTokenCount % pageSize = 0 ∧ (lookup.pageIds.length : Int) = totalInputPages
    let basePageBindings := if rewind then lookup.pageIds.dropLast else lookup.pageIds
    .ok
      { matchedTokenLength := lookup.pageIds.length * pageSize
        reuseTokenLength := basePageBindings.length * pageSize
        matchedBlockHashes :=
          if rewind then lookup.matchedHashes.dropLast else lookup.matchedHashes
        basePageBindings := basePageBindings
        demand := { baseKvPages := totalInputPages - basePageBindings.length }
        kind := if rewind then .fullInputRewind
          else if basePageBindings = [] then .noReusablePrefix else .standard }

/-- `std::sort` by descending length.  The order of equal lengths is
unspecified there; the lengths of one request's candidates are distinct. -/
def orderCandidates (candidates : List (HybridCheckpointCandidate H)) :
    List (HybridCheckpointCandidate H) :=
  candidates.insertionSort fun a b => b.exactLength ≤ a.exactLength

def logicalPrefixMatches (record : CacheRecord H) (inputFullBlockHashes : List H)
    (fullBlockCount : Int) : Prop :=
  (record.logicalBlockHashes.length : Int) = fullBlockCount ∧
    fullBlockCount ≤ inputFullBlockHashes.length ∧
    record.logicalBlockHashes = inputFullBlockHashes.take record.logicalBlockHashes.length

instance (record : CacheRecord H) (hashes : List H) (n : Int) :
    Decidable (logicalPrefixMatches record hashes n) := by
  unfold logicalPrefixMatches
  infer_instance

/-- The loop shared by both checkpoint planners: the first ordered candidate
that is stored and that `accept` turns into a plan. -/
def searchCheckpoint (records : CacheRecordStore H) (inputTokenCount : Int)
    (accept : HybridCheckpointKey H → RecordId → CacheRecord H → Option (ReusePlan H)) :
    List (HybridCheckpointCandidate H) → Except Check (Option (ReusePlan H))
  | [] => .ok none
  | candidate :: rest =>
    let key : HybridCheckpointKey H := ⟨candidate.exactPrefixDigest, candidate.exactLength⟩
    if candidate.exactLength ≤ 0 ∨ inputTokenCount ≤ candidate.exactLength then
      searchCheckpoint records inputTokenCount accept rest
    else
      match records.findHybrid key with
      | none => searchCheckpoint records inputTokenCount accept rest
      | some recordId => do
          let record ← records.get recordId
          match accept key recordId record with
          | some plan => .ok (some plan)
          | none => searchCheckpoint records inputTokenCount accept rest

/-- The body of the candidate loop of `makeHybridReusePlan`. -/
def acceptHybrid (inputFullBlockHashes : List H) (totalInputPages pageSize : Int)
    (hasAttention : Bool) (key : HybridCheckpointKey H) (recordId : RecordId)
    (record : CacheRecord H) : Option (ReusePlan H) :=
  let fullBlockCount := key.exactLength / pageSize
  let hasPartial := decide (key.exactLength % pageSize ≠ 0)
  let snapshotSetComplete := record.recurrentSnapshotSlot.isSome = true ∧
    record.partialKvSnapshotSlot.isSome = (hasAttention && hasPartial)
  let attentionPathComplete :=
    if hasAttention then (record.basePagePath.length : Int) = fullBlockCount
    else record.basePagePath = []
  if logicalPrefixMatches record inputFullBlockHashes fullBlockCount ∧ snapshotSetComplete ∧
      attentionPathComplete ∧ ¬(hasAttention = false ∧ record.partialKvSnapshotSlot.isSome = true)
  then
    some
      { mode := .hybrid
        hybridHasAttention := hasAttention
        hybridCheckpoint := some key
        hybridRecord := some recordId
        recurrentSnapshotBinding := record.recurrentSnapshotSlot
        partialKvSnapshotBinding := record.partialKvSnapshotSlot
        matchedBlockHashes := if hasAttention then record.logicalBlockHashes else []
        basePageBindings := if hasAttention then record.basePagePath else []
        reuseTokenLength := key.exactLength
        matchedTokenLength := key.exactLength
        demand := { baseKvPages := if hasAttention then totalInputPages - fullBlockCount else 0 } }
  else none

/-- Exact hybrid or pure-recurrent reuse: the longest complete checkpoint
strictly shorter than the input wins. -/
def makeHybridReusePlan (candidates : List (HybridCheckpointCandidate H))
    (inputFullBlockHashes : List H) (inputTokenCount pageSize : Int) (hasAttention : Bool)
    (records : CacheRecordStore H) (lookupPolicy : ContextCacheLookupPolicy) :
    Except Check (ReusePlan H) := do
  let totalInputPages ← validateAndCountInputPages inputFullBlockHashes inputTokenCount pageSize
  let cold : ReusePlan H :=
    { mode := .hybrid
      hybridHasAttention := hasAttention
      kind := if inputTokenCount = 0 then .standard else .noReusablePrefix
      demand := { baseKvPages := if hasAttention then totalInputPages else 0 } }
  if inputTokenCount = 0 ∨ lookupPolicy = .bypass then .ok cold
  else
    let found ← searchCheckpoint records inputTokenCount
      (acceptHybrid inputFullBlockHashes totalInputPages pageSize hasAttention)
      (orderCandidates candidates)
    .ok (found.getD cold)

/-- The body of the candidate loop of `makeHybridMtpReusePlan`: the boundary
token stays private, so the path ends before `exactLength - 1`. -/
def acceptHybridMtp (inputFullBlockHashes : List H) (totalInputPages pageSize : Int)
    (key : HybridCheckpointKey H) (recordId : RecordId) (record : CacheRecord H) :
    Option (ReusePlan H) :=
  let fullBlockCount := (key.exactLength - 1) / pageSize
  let snapshotSetComplete := record.recurrentSnapshotSlot.isSome = true ∧
    record.partialKvSnapshotSlot.isSome = true
  let draftPathComplete := record.specState.isSome = true ∧
    ((specPages record.specState).length : Int) = fullBlockCount
  if logicalPrefixMatches record inputFullBlockHashes fullBlockCount ∧ snapshotSetComplete ∧
      (record.basePagePath.length : Int) = fullBlockCount ∧ draftPathComplete
  then
    some
      { mode := .hybridMtp
        hybridHasAttention := true
        hybridCheckpoint := some key
        hybridRecord := some recordId
        recurrentSnapshotBinding := record.recurrentSnapshotSlot
        partialKvSnapshotBinding := record.partialKvSnapshotSlot
        matchedBlockHashes := record.logicalBlockHashes
        basePageBindings := record.basePagePath
        specPageBindings := specPages record.specState
        reuseTokenLength := key.exactLength
        matchedTokenLength := key.exactLength
        demand :=
          { baseKvPages := totalInputPages - fullBlockCount
            draftKvPages := totalInputPages - fullBlockCount } }
  else none

/-- Exact hybrid+MTP reuse with equally long base and draft paths. -/
def makeHybridMtpReusePlan (candidates : List (HybridCheckpointCandidate H))
    (inputFullBlockHashes : List H) (inputTokenCount pageSize : Int)
    (records : CacheRecordStore H) (lookupPolicy : ContextCacheLookupPolicy) :
    Except Check (ReusePlan H) := do
  let totalInputPages ← validateAndCountInputPages inputFullBlockHashes inputTokenCount pageSize
  let cold : ReusePlan H :=
    { mode := .hybridMtp
      hybridHasAttention := true
      kind := if inputTokenCount = 0 then .standard else .noReusablePrefix
      demand := { baseKvPages := totalInputPages, draftKvPages := totalInputPages } }
  if inputTokenCount = 0 ∨ lookupPolicy = .bypass then .ok cold
  else
    let found ← searchCheckpoint records inputTokenCount
      (acceptHybridMtp inputFullBlockHashes totalInputPages pageSize)
      (orderCandidates candidates)
    .ok (found.getD cold)

/-- Full pages a speculative hit recomputes at its boundary. -/
def replayPages (contract : SpecReuseContract) (pageSize : Int) : Except Check Int := do
  requireThat (0 < pageSize) .pageSizeNotPositive
  requireThat (0 ≤ contract.futureDependencyTokens) .futureDependencyNegative
  .ok ((contract.futureDependencyTokens + pageSize - 1) / pageSize)

/-- The paired prefix of a speculative lookup. -/
structure PairedPrefix where
  blockCount : Int
  specRecord : Option RecordId := none
  specPages : List PageId := []

/-- The coherence checks on the record behind a speculative match. -/
def pairedPrefix (inputFullBlockHashes : List H) (baseBlockCount : Int)
    (found : SpecPagedStateMatch) (record : CacheRecord H) : Except Check PairedPrefix :=
  match record.specState with
  | none => .error .specIndexNotPaged
  | some paged => do
      let n := found.pathBlockCount
      requireThat (0 < n ∧ n ≤ baseBlockCount ∧ n ≤ paged.pagePath.length ∧
        n ≤ record.logicalBlockHashes.length ∧
        record.logicalBlockHashes[(n - 1).toNat]? = inputFullBlockHashes[(n - 1).toNat]?)
        .specIndexNotCoherent
      .ok ⟨n, some record.id, paged.pagePath.take n.toNat⟩

/-- The part of `makeSpecReusePlan` after the paired prefix is known. -/
def finishSpecReusePlan (inputFullBlockHashes : List H) (inputTokenCount pageSize : Int)
    (totalInputPages : Int) (basePageIds : List PageId) (paired : PairedPrefix)
    (contract : SpecReuseContract) : Except Check (ReusePlan H) := do
  let n := paired.blockCount
  let fullInputMatch := inputTokenCount % pageSize = 0 ∧ n = totalInputPages
  let specReplayPageCount ← replayPages contract pageSize
  let rewindPageCount := max specReplayPageCount (if fullInputMatch then 1 else 0)
  requireThat (rewindPageCount ≤ n) .replayExceedsPath
  let kept := (n - rewindPageCount).toNat
  let basePageBindings := basePageIds.take kept
  let specPageBindings :=
    if contract.ownsPagedSpecState then paired.specPages.take kept else paired.specPages
  .ok
    { mode := .spec
      matchedTokenLength := n * pageSize
      reuseTokenLength := basePageBindings.length * pageSize
      matchedBlockHashes := inputFullBlockHashes.take kept
      basePageBindings := basePageBindings
      specPageBindings := specPageBindings
      specRecord := if basePageBindings = [] then none else paired.specRecord
      specReplayDependency :=
        if 0 < specReplayPageCount ∧ specReplayPageCount < n then
          (inputFullBlockHashes[(n - 1).toNat]?).map fun hash => ⟨n, hash⟩
        else none
      specReplayMode :=
        if 0 < specReplayPageCount ∧ basePageBindings ≠ [] then .fullPage else .none
      kind := if fullInputMatch then .fullInputRewind
        else if basePageBindings = [] then .noReusablePrefix else .standard
      demand :=
        { baseKvPages := totalInputPages - basePageBindings.length
          draftKvPages :=
            if contract.ownsPagedSpecState then totalInputPages - specPageBindings.length
            else 0 } }

def makeSpecReusePlan (inputFullBlockHashes : List H) (inputTokenCount pageSize : Int)
    (lookupPolicy : ContextCacheLookupPolicy) (baseIndex : BaseBlockIndex H)
    (specIndex : SpecPagedStateIndex H) (records : CacheRecordStore H)
    (contract : SpecReuseContract) : Except Check (ReusePlan H) := do
  let totalInputPages ← validateAndCountInputPages inputFullBlockHashes inputTokenCount pageSize
  let cold : ReusePlan H :=
    { mode := .spec
      kind := if inputTokenCount = 0 then .standard else .noReusablePrefix
      demand :=
        { baseKvPages := totalInputPages
          draftKvPages := if contract.ownsPagedSpecState then totalInputPages else 0 } }
  if inputTokenCount = 0 ∨ lookupPolicy = .bypass then .ok cold
  else
    let basePageIds := (baseIndex.lookupPrefix inputFullBlockHashes).pageIds
    if contract.ownsPagedSpecState then do
      let found ← specIndex.lookupLongest inputFullBlockHashes basePageIds.length
      match found with
      | none => .ok cold
      | some found => do
          let record ← records.get found.record
          let paired ← pairedPrefix inputFullBlockHashes basePageIds.length found record
          finishSpecReusePlan inputFullBlockHashes inputTokenCount pageSize totalInputPages
            basePageIds paired contract
    else
      finishSpecReusePlan inputFullBlockHashes inputTokenCount pageSize totalInputPages
        basePageIds ⟨basePageIds.length, none, []⟩ contract

/-- `makeSpecPublishedState`: the pages a speculative lease publishes. -/
def makeSpecPublishedState (pageBindings : List PageId) (fullBlockHashes : List H)
    (residentStateLength : Int) (contract : SpecReuseContract) :
    Except Check (Option SpecPagedStateRecord) := do
  requireThat (0 ≤ residentStateLength) .residentLengthNegative
  if contract.ownsPagedSpecState = false then .ok none
  else do
    requireThat (pageBindings.length = fullBlockHashes.length) .publishedStateBinding
    if fullBlockHashes = [] then .ok none else .ok (some ⟨pageBindings⟩)

/-- `requireKvPageCoverage`: raise the private demand to the pages the
deployment needs bound. -/
def requireKvPageCoverage (plan : ReusePlan H) (basePages draftPages : Int) :
    Except Check (ReusePlan H) := do
  requireThat (0 ≤ basePages ∧ 0 ≤ draftPages) .coverageNegative
  let extendDemand (demand : Int) (boundPages : Nat) (requiredPages : Int) : Int :=
    max demand (max 0 (requiredPages - boundPages))
  .ok { plan with
    demand := { plan.demand with
      baseKvPages := extendDemand plan.demand.baseKvPages plan.basePageBindings.length basePages
      draftKvPages :=
        extendDemand plan.demand.draftKvPages plan.specPageBindings.length draftPages } }

/-! ## Plans bind cached pages -/

/-- What acquisition relies on: base binding `i` is the indexed page of input
hash `i`, every binding has a cache reference in `C`, and the reused token
length spans the bound pages. -/
structure ReusePlan.Bound (index : BaseBlockIndex H) (C : Multiset ResourceId) (hashes : List H)
    (pageSize : Int) (plan : ReusePlan H) : Prop where
  base : ∀ (i : Nat) (page : PageId), plan.basePageBindings[i]? = some page →
    ∃ hash : H, hashes[i]? = some hash ∧ index.lookup hash = some page
  cached : ∀ r ∈ plan.bindings, r ∈ C
  reuse : (plan.basePageBindings.length : Int) * pageSize ≤ plan.reuseTokenLength

section Bound

variable {index : BaseBlockIndex H} {store : CacheRecordStore H} {hashes : List H}
  {tokenCount pageSize : Int} {policy : ContextCacheLookupPolicy} {plan : ReusePlan H}
  {C : Multiset ResourceId}

theorem ReusePlan.Bound.cold (hbase : plan.basePageBindings = []) (hbind : plan.bindings = [])
    (hreuse : plan.reuseTokenLength = 0) : plan.Bound index C hashes pageSize where
  base i page h := by simp [hbase] at h
  cached r hr := by simp [hbind] at hr
  reuse := by simp [hbase, hreuse]

theorem lookupPrefix_getElem? : ∀ {hashes : List H} {i : Nat} {page : PageId},
      (index.lookupPrefix hashes).pageIds[i]? = some page →
        ∃ hash, hashes[i]? = some hash ∧ index.lookup hash = some page := by
  intro hashes
  induction hashes with
  | nil => intro i page h; simp [BaseBlockIndex.lookupPrefix] at h
  | cons hash hashes ih =>
    intro i page h
    unfold BaseBlockIndex.lookupPrefix at h
    cases hl : index.lookup hash with
    | none => simp [hl] at h
    | some first =>
      simp only [hl] at h
      cases i with
      | zero =>
        simp only [List.getElem?_cons_zero, Option.some.injEq] at h
        exact ⟨hash, rfl, h ▸ hl⟩
      | succ i => exact ih (by simpa using h)

theorem lookupPrefix_length_le :
    ∀ hashes : List H, (index.lookupPrefix hashes).pageIds.length ≤ hashes.length := by
  intro hashes
  induction hashes with
  | nil => simp [BaseBlockIndex.lookupPrefix]
  | cons hash hashes ih =>
    unfold BaseBlockIndex.lookupPrefix
    split
    · exact Nat.zero_le _
    · simpa using ih

/-- Planning failures that are the caller's fault. -/
private theorem validate_outcome :
    Outcome (validateAndCountInputPages hashes tokenCount pageSize) (fun _ => True)
      (fun e => e.internal = false) := by
  unfold validateAndCountInputPages
  simp only [outcome_bind, outcome_requireThat]
  exact ⟨fun _ => ⟨fun _ => ⟨fun _ => trivial, fun _ => rfl⟩, fun _ => rfl⟩, fun _ => rfl⟩

theorem makeVanillaReusePlan_bound (hpaths : PathsIndexed index store) :
    Outcome (makeVanillaReusePlan hashes tokenCount pageSize index policy)
      (fun plan => plan.Bound index store.cacheLedger hashes pageSize)
      (fun e => e.internal = false) := by
  unfold makeVanillaReusePlan
  refine validate_outcome.bind fun total _ => ?_
  rw [outcome_ite, outcome_ite]
  refine ⟨fun _ => .cold rfl rfl rfl, fun _ => ⟨fun _ => .cold rfl rfl rfl, fun _ => ?_⟩⟩
  rw [outcome_ok]
  set found := index.lookupPrefix hashes with hfound
  -- rewinding only drops the last page
  have hsub : ∀ {c : Prop} [Decidable c] {i : Nat} {page : PageId},
      (if c then found.pageIds.dropLast else found.pageIds)[i]? = some page →
        found.pageIds[i]? = some page := by
    intro c _ i page h
    by_cases hc : c
    · rw [if_pos hc, List.getElem?_dropLast] at h
      by_cases hi : i < found.pageIds.length - 1
      · rwa [if_pos hi] at h
      · rw [if_neg hi] at h
        cases h
    · rwa [if_neg hc] at h
  refine
    { base := fun i page h => lookupPrefix_getElem? (hsub h)
      cached := ?_
      reuse := le_refl _ }
  intro r hr
  simp only [ReusePlan.bindings, List.map_nil, Option.toList_none, List.append_nil,
    List.mem_map] at hr
  obtain ⟨page, hp, rfl⟩ := hr
  obtain ⟨i, hi⟩ := List.mem_iff_getElem?.1 hp
  obtain ⟨hash, -, hl⟩ := lookupPrefix_getElem? (hsub hi)
  exact hpaths.page_cached hl

variable {bad : Check → Prop} {id : RecordId} {record : CacheRecord H} {total : Int}
variable {specIndex : SpecPagedStateIndex H} {contract : SpecReuseContract}

/-- What the candidate loop returns; it cannot throw. -/
theorem searchCheckpoint_outcome (hs : store.Coherent) (tokenCount : Int)
    {accept : HybridCheckpointKey H → RecordId → CacheRecord H → Option (ReusePlan H)}
    {Q : ReusePlan H → Prop}
    (haccept : ∀ key id record plan, 0 < key.exactLength → key.exactLength < tokenCount →
      store.records.lookup id = some record → accept key id record = some plan → Q plan) :
    ∀ candidates, Outcome (searchCheckpoint store tokenCount accept candidates)
      (fun found => ∀ plan, found = some plan → Q plan) bad := by
  intro candidates
  induction candidates with
  | nil => simp [searchCheckpoint]
  | cons candidate rest ih =>
    unfold searchCheckpoint
    rw [outcome_ite]
    refine ⟨fun _ => ih, fun hrange => ?_⟩
    rw [not_or] at hrange
    cases hfind : store.findHybrid ⟨candidate.exactPrefixDigest, candidate.exactLength⟩ with
    | none => exact ih
    | some id =>
      obtain ⟨record, hr, -⟩ := (hs.hybrid _ id).1 hfind
      simp only [CacheRecordStore.get_spec hr, outcome_bind, outcome_ok]
      cases ha : accept ⟨candidate.exactPrefixDigest, candidate.exactLength⟩ id record with
      | none => exact ih
      | some plan =>
        rw [outcome_ok]
        rintro _ ⟨⟩
        exact haccept _ id record _ (Int.not_le.1 hrange.1) (Int.not_le.1 hrange.2) hr ha

/-- The tail of a checkpoint planner: the cold plan or an accepted one. -/
theorem searchPlan_outcome (hs : store.Coherent) {bypassed : Prop} [Decidable bypassed]
    {accept : HybridCheckpointKey H → RecordId → CacheRecord H → Option (ReusePlan H)}
    {cold : ReusePlan H} {Q : ReusePlan H → Prop} (hcold : Q cold)
    (haccept : ∀ key id record plan, 0 < key.exactLength → key.exactLength < tokenCount →
      store.records.lookup id = some record → accept key id record = some plan → Q plan)
    (candidates : List (HybridCheckpointCandidate H)) :
    Outcome (if bypassed then .ok cold else do
      let found ← searchCheckpoint store tokenCount accept candidates
      .ok (found.getD cold)) Q bad := by
  rw [outcome_ite]
  refine ⟨fun _ => hcold, fun _ => ?_⟩
  refine (searchCheckpoint_outcome hs tokenCount haccept _).bind fun found hfound => ?_
  cases found with
  | none => exact hcold
  | some plan => exact hfound plan rfl

/-- The path of a stored record that matches the input is a bound prefix. -/
private theorem record_base (hpaths : PathsIndexed index store) (hr : store.records.lookup id = some record) {n : Int}
    (hmatch : logicalPrefixMatches record hashes n)
    (hlen : (record.basePagePath.length : Int) = n) {i : Nat} {page : PageId}
    (hp : record.basePagePath[i]? = some page) :
    ∃ hash, hashes[i]? = some hash ∧ index.lookup hash = some page := by
  obtain ⟨hlogical, hle, htake⟩ := hmatch
  obtain ⟨hi, rfl⟩ := List.getElem?_eq_some_iff.1 hp
  have hi' : i < record.logicalBlockHashes.length := by omega
  have hin : i < hashes.length := by omega
  refine ⟨hashes[i], List.getElem?_eq_getElem hin, ?_⟩
  have hhash : record.logicalBlockHashes[i] = hashes[i] := by
    have := congrArg (fun l => l[i]?) htake
    simpa [hi', hin] using this
  have hz : i < record.blocks.length := by simp [CacheRecord.blocks, hi, hi']
  have hmem : (hashes[i], record.basePagePath[i]) ∈ record.blocks := by
    rw [← hhash, ← List.getElem_zip (h := hz)]
    exact List.getElem_mem hz
  exact hpaths.covers id record hr _ hmem

/-- Resources bound from a stored record are cached. -/
private theorem record_cached
    (hr : store.records.lookup id = some record) {rs : List ResourceId}
    (hsub : ∀ r ∈ rs, r ∈ record.resources) : ∀ r ∈ rs, r ∈ store.cacheLedger :=
  fun r hmem => CacheRecordStore.mem_cacheLedger.2 ⟨id, record, hr, hsub r hmem⟩

theorem acceptHybrid_bound (hpaths : PathsIndexed index store)
    {hasAttention : Bool} {key : HybridCheckpointKey H}
    (hP : 0 < pageSize) (hpos : 0 < key.exactLength) (hr : store.records.lookup id = some record)
    (h : acceptHybrid hashes total pageSize hasAttention key id record = some plan) :
    plan.Bound index store.cacheLedger hashes pageSize := by
  unfold acceptHybrid at h
  obtain ⟨⟨hmatch, -, hattn, -⟩, h⟩ := Option.ite_none_right_eq_some.1 h
  cases h
  refine { base := ?_, cached := record_cached hr ?_, reuse := ?_ }
  · intro i page hp
    cases hasAttention with
    | false => simp at hp
    | true => exact record_base hpaths hr hmatch (by simpa using hattn) (by simpa using hp)
  · intro r hr
    cases hasAttention with
    | false =>
      simp [ReusePlan.bindings, CacheRecord.resources] at hr ⊢
      exact Or.inr (Or.inr hr)
    | true =>
      simp [ReusePlan.bindings, CacheRecord.resources] at hr ⊢
      exact hr.imp_right Or.inr
  · cases hasAttention with
    | false => simpa using hpos.le
    | true =>
      simp only [if_true] at hattn ⊢
      rw [hattn, mul_comm]
      exact Int.mul_ediv_self_le hP.ne'

theorem makeHybridReusePlan_bound (hpaths : PathsIndexed index store) (hs : store.Coherent)
    {candidates : List (HybridCheckpointCandidate H)} {hasAttention : Bool} (hP : 0 < pageSize) :
    Outcome (makeHybridReusePlan candidates hashes tokenCount pageSize hasAttention store policy)
      (fun plan => plan.Bound index store.cacheLedger hashes pageSize)
      (fun e => e.internal = false) := by
  unfold makeHybridReusePlan
  refine validate_outcome.bind fun total _ => ?_
  exact searchPlan_outcome hs (.cold rfl rfl rfl)
    (fun _ _ _ _ hpos _ hr ha => acceptHybrid_bound hpaths hP hpos hr ha) _

theorem acceptHybridMtp_bound (hpaths : PathsIndexed index store)
    {key : HybridCheckpointKey H}
    (hP : 0 < pageSize) (hr : store.records.lookup id = some record)
    (h : acceptHybridMtp hashes total pageSize key id record = some plan) :
    plan.Bound index store.cacheLedger hashes pageSize := by
  unfold acceptHybridMtp at h
  obtain ⟨⟨hmatch, -, hlen, -⟩, h⟩ := Option.ite_none_right_eq_some.1 h
  cases h
  refine
    { base := fun i page hp => record_base hpaths hr hmatch hlen hp
      cached := record_cached hr fun r hr => hr
      reuse := ?_ }
  have hle : pageSize * ((key.exactLength - 1) / pageSize) ≤ key.exactLength - 1 :=
    Int.mul_ediv_self_le hP.ne'
  show (record.basePagePath.length : Int) * pageSize ≤ key.exactLength
  rw [hlen, mul_comm]
  omega

theorem makeHybridMtpReusePlan_bound (hpaths : PathsIndexed index store) (hs : store.Coherent)
    {candidates : List (HybridCheckpointCandidate H)} (hP : 0 < pageSize) :
    Outcome (makeHybridMtpReusePlan candidates hashes tokenCount pageSize store policy)
      (fun plan => plan.Bound index store.cacheLedger hashes pageSize)
      (fun e => e.internal = false) := by
  unfold makeHybridMtpReusePlan
  refine validate_outcome.bind fun total _ => ?_
  exact searchPlan_outcome hs (.cold rfl rfl rfl)
    (fun _ _ _ _ _ _ hr ha => acceptHybridMtp_bound hpaths hP hr ha) _

/-- A speculative match is a boundary of a stored record. -/
theorem lookupFrom_spec
    (hcarries : specIndex.Carries store.specLedger) {found : SpecPagedStateMatch} :
    ∀ {n : Nat}, specIndex.lookupFrom hashes n = some found →
      ∃ k < n, ∃ hash, hashes[k]? = some hash ∧ found.pathBlockCount = (k : Int) + 1 ∧
        (hash, found) ∈ store.specLedger := by
  intro n
  induction n with
  | zero => intro h; simp [SpecPagedStateIndex.lookupFrom] at h
  | succ n ih =>
    intro h
    unfold SpecPagedStateIndex.lookupFrom at h
    cases hcur : (hashes[n]?.map specIndex.candidates).bind fun entry =>
        entry.reverse.find? fun m => m.pathBlockCount == (n : Int) + 1 with
    | none =>
      rw [hcur] at h
      obtain ⟨k, hk, rest⟩ := ih h
      exact ⟨k, Nat.lt_succ_of_lt hk, rest⟩
    | some first =>
      rw [hcur] at h
      cases h
      obtain ⟨entry, hentry, hfind⟩ := Option.bind_eq_some_iff.1 hcur
      obtain ⟨hash, hhash, rfl⟩ := Option.map_eq_some_iff.1 hentry
      have hmem := List.mem_of_find?_eq_some hfind
      have hcount := List.find?_some hfind
      rw [List.mem_reverse] at hmem
      refine ⟨n, Nat.lt_succ_self n, hash, hhash, by simpa using hcount, ?_⟩
      rw [← Multiset.count_pos, ← hcarries.count, List.count_pos_iff]
      exact hmem

/-- The record behind a speculative match passes the coherence checks. -/
theorem pairedPrefix_outcome (hs : store.Coherent) {n : Nat} {found : SpecPagedStateMatch}
    {k : Nat} {hash : H} (hk : k < n) (hhash : hashes[k]? = some hash)
    (hcount : found.pathBlockCount = (k : Int) + 1) (hmem : (hash, found) ∈ store.specLedger) :
    ∃ record paged, store.records.lookup found.record = some record ∧
      record.specState = some paged ∧ k + 1 ≤ paged.pagePath.length ∧
      pairedPrefix hashes n found record =
        .ok ⟨(k : Int) + 1, some record.id, paged.pagePath.take (k + 1)⟩ := by
  obtain ⟨id, record, hr, hb⟩ := CacheRecordStore.mem_specLedger.1 hmem
  have hid : found.record = id :=
    (record_of_mem_specBoundaries hb).trans (hs.id_eq id record hr)
  unfold CacheRecord.specBoundaries at hb
  cases hspec : record.specState with
  | none => simp [hspec] at hb
  | some paged =>
    rw [hspec] at hb
    obtain ⟨i, hi, hm⟩ := mem_pathBoundaries.1 hb
    have hik : i = k := by
      have := congrArg SpecPagedStateMatch.pathBlockCount hm
      simp only [hcount] at this
      omega
    subst hik
    have hvalid := validateRecord_ok (hs.valid id record hr)
    have hlen := hvalid.spec_logical hspec
    simp only [hlen, List.take_length] at hi
    obtain ⟨hilt, -⟩ := List.getElem?_eq_some_iff.1 hi
    refine ⟨record, paged, hid ▸ hr, hspec, by omega, ?_⟩
    have hcond : 0 < found.pathBlockCount ∧ found.pathBlockCount ≤ (n : Int) ∧
        found.pathBlockCount ≤ paged.pagePath.length ∧
        found.pathBlockCount ≤ record.logicalBlockHashes.length ∧
        record.logicalBlockHashes[(found.pathBlockCount - 1).toNat]? =
          hashes[(found.pathBlockCount - 1).toNat]? := by
      have hsub : (found.pathBlockCount - 1).toNat = i := by omega
      rw [hsub, hi, hhash]
      refine ⟨by omega, by omega, by omega, by omega, rfl⟩
    have htoNat : found.pathBlockCount.toNat = i + 1 := by omega
    simp only [pairedPrefix, hspec, requireThat, if_pos hcond, htoNat, bind, Except.bind]
    rw [hcount]

theorem finishSpecReusePlan_bound {pageIds : List PageId} {paired : PairedPrefix} (hbase : ∀ (i : Nat) (page : PageId), pageIds[i]? = some page →
      ∃ hash : H, hashes[i]? = some hash ∧ index.lookup hash = some page)
    (hcached : ∀ p ∈ pageIds, ResourceId.mk .baseKvPage p ∈ C)
    (hspec : ∀ p ∈ paired.specPages, ResourceId.mk .draftKvPage p ∈ C) :
    Outcome (finishSpecReusePlan hashes tokenCount pageSize total pageIds paired contract)
      (fun plan => plan.Bound index C hashes pageSize) (fun e => e.internal = false) := by
  unfold finishSpecReusePlan replayPages
  simp only [outcome_bind, outcome_requireThat, outcome_ok]
  refine ⟨fun _ => ⟨fun _ => ⟨fun _ => ?_, fun _ => rfl⟩, fun _ => rfl⟩, fun _ => rfl⟩
  refine { base := ?_, cached := ?_, reuse := le_refl _ }
  · intro i page hp
    obtain ⟨hi, rfl⟩ := List.getElem?_eq_some_iff.1 hp
    rw [List.length_take, lt_min_iff] at hi
    exact hbase i _ (by simp [hi.2])
  · intro r hr
    simp only [ReusePlan.bindings, Option.toList_none, List.map_nil, List.append_nil,
      List.mem_append, List.mem_map] at hr
    rcases hr with ⟨p, hp, rfl⟩ | ⟨p, hp, rfl⟩
    · exact hcached p (List.mem_of_mem_take hp)
    · split at hp
      · exact hspec p (List.mem_of_mem_take hp)
      · exact hspec p hp

/-- The speculative planner is either cold, or finishes on a paired prefix that
a stored record backs: its coherence checks pass. -/
theorem makeSpecReusePlan_rule (hs : store.Coherent)
    (hcarries : specIndex.Carries store.specLedger)
    {ok : ReusePlan H → Prop}
    (hvalid : Outcome (validateAndCountInputPages hashes tokenCount pageSize) (fun _ => True) bad)
    (hcold : ∀ total kind, validateAndCountInputPages hashes tokenCount pageSize = .ok total →
      ok { mode := .spec, kind := kind,
           demand :=
            { baseKvPages := total
              draftKvPages := if contract.ownsPagedSpecState then total else 0 } })
    (hfinish : ∀ total paired,
      validateAndCountInputPages hashes tokenCount pageSize = .ok total → tokenCount ≠ 0 →
      (∀ p ∈ paired.specPages, ResourceId.mk .draftKvPage p ∈ store.cacheLedger) →
      0 ≤ paired.blockCount → (contract.ownsPagedSpecState = true → 0 < paired.blockCount) →
      paired.blockCount ≤ ((index.lookupPrefix hashes).pageIds.length : Int) →
      (contract.ownsPagedSpecState = true → (paired.specPages.length : Int) = paired.blockCount) →
      Outcome (finishSpecReusePlan hashes tokenCount pageSize total
        (index.lookupPrefix hashes).pageIds paired contract) ok bad) :
    Outcome (makeSpecReusePlan hashes tokenCount pageSize policy index specIndex store contract)
      ok bad := by
  unfold makeSpecReusePlan
  cases htotal : validateAndCountInputPages hashes tokenCount pageSize with
  | error e =>
    rw [htotal] at hvalid
    exact hvalid
  | ok total =>
    rw [outcome_bind, outcome_ok, outcome_ite]
    refine ⟨fun _ => hcold _ _ htotal, fun hwarm => ?_⟩
    have htokens : tokenCount ≠ 0 := fun h => hwarm (Or.inl h)
    rw [outcome_ite]
    refine ⟨fun howns => ?_, fun howns => ?_⟩
    rotate_left
    · exact hfinish total _ htotal htokens (by simp) (Int.natCast_nonneg _)
        (fun h => absurd h howns) (Int.le_refl _) fun h => absurd h howns
    have hlookup : specIndex.lookupLongest hashes (index.lookupPrefix hashes).pageIds.length =
        .ok (specIndex.lookupFrom hashes (index.lookupPrefix hashes).pageIds.length) := by
      unfold SpecPagedStateIndex.lookupLongest
      rw [if_pos ⟨Int.natCast_nonneg _, by simpa using lookupPrefix_length_le hashes⟩]
      simp
    rw [hlookup, outcome_bind, outcome_ok]
    cases hfound : specIndex.lookupFrom hashes (index.lookupPrefix hashes).pageIds.length with
    | none => exact hcold _ _ htotal
    | some found =>
      obtain ⟨k, hk, hash, hhash, hcount, hmem⟩ := lookupFrom_spec hcarries hfound
      obtain ⟨record, paged, hr, hspec, hlen, hpaired⟩ :=
        pairedPrefix_outcome hs hk hhash hcount hmem
      simp only [CacheRecordStore.get_spec hr, hpaired, outcome_bind, outcome_ok]
      have hpos : (0 : Int) < (k : Int) + 1 := by omega
      refine hfinish total _ htotal htokens (fun p hp => ?_) hpos.le (fun _ => hpos) ?_ ?_
      rotate_left
      · show (k : Int) + 1 ≤ _
        omega
      · intro _
        rw [List.length_take, Nat.min_eq_left hlen]
        rfl
      refine CacheRecordStore.mem_cacheLedger.2
        ⟨_, record, hr, CacheRecord.draft_mem_resources.2 ?_⟩
      simpa [specPages, hspec] using List.mem_of_mem_take hp

theorem makeSpecReusePlan_bound (hpaths : PathsIndexed index store) (hs : store.Coherent) (hcarries : specIndex.Carries store.specLedger) :
    Outcome (makeSpecReusePlan hashes tokenCount pageSize policy index specIndex store contract)
      (fun plan => plan.Bound index store.cacheLedger hashes pageSize)
      (fun e => e.internal = false) := by
  have hbase : ∀ (i : Nat) (page : PageId), (index.lookupPrefix hashes).pageIds[i]? = some page →
        ∃ hash : H, hashes[i]? = some hash ∧ index.lookup hash = some page :=
    fun _ _ => lookupPrefix_getElem?
  have hcached : ∀ p ∈ (index.lookupPrefix hashes).pageIds,
      ResourceId.mk .baseKvPage p ∈ store.cacheLedger := by
    intro p hp
    obtain ⟨i, hi⟩ := List.mem_iff_getElem?.1 hp
    obtain ⟨hash, -, hl⟩ := hbase i p hi
    exact hpaths.page_cached hl
  exact makeSpecReusePlan_rule hs hcarries validate_outcome
    (fun _ _ _ => .cold rfl rfl rfl)
    fun _ _ _ _ hspec _ _ _ _ => finishSpecReusePlan_bound hbase hcached hspec

/-- A contract that replays at most one page, and only pages it owns; every
registered one is such. -/
structure SpecReuseContract.Fits (contract : SpecReuseContract) (pageSize : Int) : Prop where
  page : contract.futureDependencyTokens ≤ pageSize
  owned : contract.ownsPagedSpecState = true ∨ contract.futureDependencyTokens = 0

/-- The replay of such a contract stays on the coherent path. -/
theorem makeSpecReusePlan_replay (hs : store.Coherent)
    (hcarries : specIndex.Carries store.specLedger)
    (hfits : contract.Fits pageSize) :
    Outcome (makeSpecReusePlan hashes tokenCount pageSize policy index specIndex store contract)
      (fun _ => True) (fun e => e ≠ .replayExceedsPath) := by
  refine makeSpecReusePlan_rule hs hcarries ?_ (fun _ _ _ => trivial) ?_
  · unfold validateAndCountInputPages
    simp [outcome_bind]
  intro total paired htotal htokens _ hnonneg hpos _ _
  unfold validateAndCountInputPages at htotal
  simp only [check_bind_eq_ok, requireThat_eq_ok, Except.ok.injEq] at htotal
  obtain ⟨hP, hcount, -, rfl⟩ := htotal
  unfold finishSpecReusePlan replayPages
  simp only [outcome_bind, outcome_requireThat, outcome_ok]
  refine ⟨fun _ => ⟨fun hfuture => ⟨fun _ => trivial, fun hlong => absurd ?_ hlong⟩,
    fun _ => by simp⟩, fun _ => by simp⟩
  have htotal : 1 ≤ (tokenCount + pageSize - 1) / pageSize :=
    Int.le_ediv_of_mul_le hP (by omega)
  have hfull : (if tokenCount % pageSize = 0 ∧
      paired.blockCount = (tokenCount + pageSize - 1) / pageSize then 1 else 0) ≤
        paired.blockCount := by
    split
    · omega
    · exact hnonneg
  refine max_le ?_ hfull
  rcases hfits.owned with howns | hnone
  · have hreplay : (contract.futureDependencyTokens + pageSize - 1) / pageSize < 2 :=
      Int.ediv_lt_of_lt_mul hP (by have := hfits.page; omega)
    have := hpos howns
    omega
  · rw [hnone, Int.ediv_eq_zero_of_lt (by omega) (by omega)]
    exact hnonneg

/-- Raising the private demand leaves the bindings alone. -/
theorem requireKvPageCoverage_bound {basePages draftPages : Int}
    (h : plan.Bound index C hashes pageSize) :
    Outcome (requireKvPageCoverage plan basePages draftPages)
      (fun plan => plan.Bound index C hashes pageSize) (fun e => e.internal = false) := by
  unfold requireKvPageCoverage
  simp only [outcome_bind, outcome_requireThat, outcome_ok]
  exact ⟨fun _ => ⟨h.base, h.cached, h.reuse⟩, fun _ => rfl⟩

end Bound

end EdgeLLM.Ports.ContextCache
