import EdgeLLM.Ports.ContextCacheTypes
import EdgeLLM.Verified.Tally
import Mathlib.Data.Finset.Sort

/-!
# Cache records and their store

A record is the reusable state retained at one publication endpoint: a base
page path with the chained hashes of its blocks, optional speculative pages,
optional snapshots.  The store keeps the records under their ids together
with an exact-key index, a hybrid-checkpoint index and the LRU list.

The three unordered maps are finite maps; an LRU iterator is the id it points
at.  `CacheRecordStore.Coherent` says that the four containers describe one
set of records, each once.
-/

namespace EdgeLLM.Ports.ContextCache

open Verified

variable {H : Type} [DecidableEq H]

/-- Exact lookup identity of one published endpoint. -/
structure CacheRecordKey (H : Type) where
  terminalHash : H
  fullBlockCount : Int
deriving DecidableEq

/-- Exact identity of an atomic recurrent checkpoint. -/
structure HybridCheckpointKey (H : Type) where
  exactPrefixDigest : H
  exactLength : Int
deriving DecidableEq

/-- Full-page speculative state retained by one record. -/
structure SpecPagedStateRecord where
  pagePath : List PageId
deriving DecidableEq

structure CacheRecord (H : Type) where
  id : RecordId := 0
  key : CacheRecordKey H
  logicalBlockHashes : List H
  basePagePath : List PageId
  specState : Option SpecPagedStateRecord := none
  recurrentSnapshotSlot : Option Int := none
  partialKvSnapshotSlot : Option Int := none
  exactCheckpointLength : Option Int := none

def hasNegativePage (pages : List PageId) : Bool := pages.any fun page => decide (page < 0)

/-- The draft pages of the optional speculative state. -/
def specPages (state : Option SpecPagedStateRecord) : List PageId :=
  (state.map SpecPagedStateRecord.pagePath).getD []

namespace CacheRecord

/-- `resources()`: every resource the record owns one cache reference of. -/
def resources (record : CacheRecord H) : List ResourceId :=
  record.basePagePath.map (ResourceId.mk .baseKvPage) ++
    (specPages record.specState).map (ResourceId.mk .draftKvPage) ++
    record.recurrentSnapshotSlot.toList.map (ResourceId.mk .recurrentSnapshot) ++
    record.partialKvSnapshotSlot.toList.map (ResourceId.mk .partialKvSnapshot)

def hybridKey (record : CacheRecord H) : Option (HybridCheckpointKey H) :=
  record.exactCheckpointLength.map fun length => ⟨record.key.terminalHash, length⟩

end CacheRecord

def validateSpecState (state : SpecPagedStateRecord) (basePathSize : Nat) :
    Except Check Unit := do
  requireThat (state.pagePath ≠ []) .specStateEmpty
  requireThat (state.pagePath.length = basePathSize) .specStateNotBasePath
  requireThat (hasNegativePage state.pagePath = false) .specStateNegativePage

def validateOptionalSpecState (state : Option SpecPagedStateRecord) (basePathSize : Nat) :
    Except Check Unit :=
  match state with
  | some state => validateSpecState state basePathSize
  | none => .ok ⟨⟩

def validateRecord (record : CacheRecord H) : Except Check Unit := do
  let hasHybridIdentity := record.exactCheckpointLength.isSome
  requireThat (0 ≤ record.key.fullBlockCount) .recordBlockCountNegative
  requireThat (0 < record.key.fullBlockCount ∨ hasHybridIdentity = true) .recordWithoutBlock
  requireThat (record.logicalBlockHashes.length = record.key.fullBlockCount.toNat)
    .recordLogicalCount
  -- the two branches on the hybrid identity
  requireThat (∀ length ∈ record.exactCheckpointLength,
    0 < length ∧ record.recurrentSnapshotSlot.isSome = true) .hybridCheckpointIncomplete
  requireThat (hasHybridIdentity = false →
    record.logicalBlockHashes.getLast? = some record.key.terminalHash) .recordTerminalHash
  requireThat ((hasHybridIdentity = true ∧ record.basePagePath = []) ∨
    record.basePagePath.length = record.logicalBlockHashes.length) .recordBasePath
  requireThat (hasNegativePage record.basePagePath = false) .recordNegativePage
  validateOptionalSpecState record.specState record.basePagePath.length
  requireThat ((∀ slot ∈ record.recurrentSnapshotSlot, 0 ≤ slot) ∧
    ∀ slot ∈ record.partialKvSnapshotSlot, 0 ≤ slot) .recordNegativeSnapshot
  requireThat (∀ length ∈ record.exactCheckpointLength, 0 ≤ length) .recordNegativeLength

/-! ## The store -/

structure RecordInsertResult where
  id : RecordId
  inserted : Bool

structure CacheRecordStore (H : Type) where
  nextId : RecordId := 1
  maxRecords : Nat
  lru : List RecordId := []
  records : Finmap fun _ : RecordId => CacheRecord H := ∅
  exactIndex : Finmap fun _ : CacheRecordKey H => RecordId := ∅
  hybridIndex : Finmap fun _ : HybridCheckpointKey H => RecordId := ∅

namespace CacheRecordStore

def size (store : CacheRecordStore H) : Nat := store.records.keys.card

def contains (store : CacheRecordStore H) (id : RecordId) : Bool := (store.records.lookup id).isSome

def find (store : CacheRecordStore H) (key : CacheRecordKey H) : Option RecordId :=
  store.exactIndex.lookup key

def findHybrid (store : CacheRecordStore H) (key : HybridCheckpointKey H) : Option RecordId :=
  store.hybridIndex.lookup key

def get (store : CacheRecordStore H) (id : RecordId) : Except Check (CacheRecord H) :=
  match store.records.lookup id with
  | some record => .ok record
  | none => .error .recordMissing

/-- Ready checkpoint lengths in descending order without repetition. -/
def hybridCandidateLengths (store : CacheRecordStore H) (inputTokenCount : Int) :
    Except Check (List Int) :=
  if inputTokenCount < 0 then .error .hybridInputNegative
  else .ok (((store.hybridIndex.keys.image HybridCheckpointKey.exactLength).filter
    (· < inputTokenCount)).sort (· ≥ ·))

/-- `mLru.splice(end, ...)`: move the id to the most recently used end. -/
def moveToBack (store : CacheRecordStore H) (id : RecordId) : CacheRecordStore H :=
  { store with lru := store.lru.erase id ++ [id] }

def touch (store : CacheRecordStore H) (id : RecordId) : Except Check (CacheRecordStore H) :=
  if store.contains id then .ok (store.moveToBack id) else .error .recordMissing

/-- The id after `id`; 0 once the id space is used up. -/
def succId (id : RecordId) : RecordId := if id = uint64Max then 0 else id + 1

/-- Insertion of a record whose keys are all free: one metadata transaction. -/
def insertFresh (store : CacheRecordStore H) (record : CacheRecord H) : CacheRecordStore H :=
  let record := { record with id := store.nextId }
  { store with
    nextId := succId store.nextId
    lru := store.lru ++ [store.nextId]
    records := store.records.insert store.nextId record
    exactIndex := store.exactIndex.insert record.key store.nextId
    hybridIndex := match record.hybridKey with
      | some key => store.hybridIndex.insert key store.nextId
      | none => store.hybridIndex }

/-- `insert`: an exact duplicate is touched, not replaced. -/
def insert (store : CacheRecordStore H) (record : CacheRecord H) :
    Except Check (RecordInsertResult × CacheRecordStore H) := do
  validateRecord record
  match record.hybridKey.bind store.findHybrid with
  | some duplicate => do
      let store ← store.touch duplicate
      .ok (⟨duplicate, false⟩, store)
  | none =>
    match store.find record.key with
    | some duplicate => do
        let store ← store.touch duplicate
        .ok (⟨duplicate, false⟩, store)
    | none => do
        requireThat (store.nextId ≠ 0) .recordIdsExhausted
        requireThat (store.contains store.nextId = false) .recordIdNotUnique
        requireThat (store.find record.key = none) .exactKeyNotUnique
        requireThat (record.hybridKey.bind store.findHybrid = none) .hybridKeyNotUnique
        .ok (⟨store.nextId, true⟩, store.insertFresh record)

/-- `setSpecState`: attach speculative state to a base-only record. -/
def setSpecState (store : CacheRecordStore H) (id : RecordId) (state : SpecPagedStateRecord) :
    Except Check (CacheRecordStore H) :=
  match store.records.lookup id with
  | none => .error .recordMissing
  | some record =>
    match record.specState with
    | some old => do
        requireThat (old = state) .specStateDiffers
        store.touch id
    | none => do
        let upgraded := { record with specState := some state }
        validateRecord upgraded
        .ok ({ store with records := store.records.insert id upgraded }.moveToBack id)

/-- Removal of a record from all four containers. -/
def eraseRecord (store : CacheRecordStore H) (id : RecordId) (record : CacheRecord H) :
    CacheRecordStore H :=
  { store with
    lru := store.lru.erase id
    records := store.records.erase id
    exactIndex := store.exactIndex.erase record.key
    hybridIndex := match record.hybridKey with
      | some key => store.hybridIndex.erase key
      | none => store.hybridIndex }

def erase (store : CacheRecordStore H) (id : RecordId) :
    Except Check (CacheRecord H × CacheRecordStore H) :=
  match store.records.lookup id with
  | none => .error .recordMissing
  | some record => do
      requireThat (store.exactIndex.lookup record.key = some id) .recordIndexesInconsistent
      match record.hybridKey with
      | some key =>
        requireThat (store.hybridIndex.lookup key = some id) .hybridIndexInconsistent
      | none => .ok ⟨⟩
      .ok (record, store.eraseRecord id record)

end CacheRecordStore

/-! ## Validated records -/

/-- What `validateRecord` accepts, as far as the indexes depend on it. -/
structure CacheRecord.Valid (record : CacheRecord H) : Prop where
  count_nonneg : 0 ≤ record.key.fullBlockCount
  logical : record.logicalBlockHashes.length = record.key.fullBlockCount.toNat
  hybrid : ∀ length, record.exactCheckpointLength = some length →
    0 < length ∧ record.recurrentSnapshotSlot.isSome = true
  terminal : record.exactCheckpointLength = none →
    record.logicalBlockHashes.getLast? = some record.key.terminalHash
  base : (record.exactCheckpointLength ≠ none ∧ record.basePagePath = []) ∨
    record.basePagePath.length = record.logicalBlockHashes.length
  base_nonneg : hasNegativePage record.basePagePath = false
  spec : ∀ state, record.specState = some state → state.pagePath ≠ [] ∧
    state.pagePath.length = record.basePagePath.length ∧ hasNegativePage state.pagePath = false
  snapshots : (∀ slot ∈ record.recurrentSnapshotSlot, 0 ≤ slot) ∧
    ∀ slot ∈ record.partialKvSnapshotSlot, 0 ≤ slot

variable {record : CacheRecord H}

/-- The accepting runs of `validateRecord`, check by check. -/
theorem validateRecord_eq_ok : validateRecord record = .ok () ↔ 0 ≤ record.key.fullBlockCount ∧
      (0 < record.key.fullBlockCount ∨ record.exactCheckpointLength.isSome = true) ∧
      record.logicalBlockHashes.length = record.key.fullBlockCount.toNat ∧
      (∀ length ∈ record.exactCheckpointLength,
        0 < length ∧ record.recurrentSnapshotSlot.isSome = true) ∧
      (record.exactCheckpointLength.isSome = false →
        record.logicalBlockHashes.getLast? = some record.key.terminalHash) ∧
      ((record.exactCheckpointLength.isSome = true ∧ record.basePagePath = []) ∨
        record.basePagePath.length = record.logicalBlockHashes.length) ∧
      hasNegativePage record.basePagePath = false ∧
      validateOptionalSpecState record.specState record.basePagePath.length = .ok () ∧
      ((∀ slot ∈ record.recurrentSnapshotSlot, 0 ≤ slot) ∧
        ∀ slot ∈ record.partialKvSnapshotSlot, 0 ≤ slot) ∧
      ∀ length ∈ record.exactCheckpointLength, 0 ≤ length := by
  unfold validateRecord
  simp only [check_bind_eq_ok, requireThat_eq_ok]

theorem validateSpecState_eq_ok {state : SpecPagedStateRecord} {n : Nat} :
    validateSpecState state n = .ok () ↔
      state.pagePath ≠ [] ∧ state.pagePath.length = n ∧ hasNegativePage state.pagePath = false := by
  unfold validateSpecState
  simp only [check_bind_eq_ok, requireThat_eq_ok]

/-- A refused record is the caller's fault. -/
theorem validateRecord_outcome (record : CacheRecord H) :
    Outcome (validateRecord record) (fun _ => validateRecord record = .ok ())
      fun e => e.internal = false := by
  cases hv : validateRecord record with
  | ok u => rfl
  | error e =>
    have hbad : Outcome (validateRecord record) (fun _ => True) fun e => e.internal = false := by
      unfold validateRecord validateOptionalSpecState validateSpecState
      simp only [outcome_bind, outcome_requireThat]
      refine ⟨fun _ => ⟨fun _ => ⟨fun _ => ⟨fun _ => ⟨fun _ => ⟨fun _ => ⟨fun _ => ?_,
        fun _ => rfl⟩, fun _ => rfl⟩, fun _ => rfl⟩, fun _ => rfl⟩, fun _ => rfl⟩,
        fun _ => rfl⟩, fun _ => rfl⟩
      cases record.specState with
      | none => simp [Check.internal, Check.accounting, Check.coherence]
      | some state =>
        simp [outcome_bind, Check.internal, Check.accounting, Check.coherence]
    rw [hv] at hbad
    exact hbad

theorem validateRecord_ok (h : validateRecord record = .ok ()) : record.Valid := by
  obtain ⟨hcount, -, hlogical, hhybrid, hterminal, hbase, hneg, hspec, hsnap, -⟩ :=
    validateRecord_eq_ok.1 h
  refine
    { count_nonneg := hcount
      logical := hlogical
      hybrid := fun length hl => hhybrid length hl
      terminal := fun hnone => hterminal (by simp [hnone])
      base := ?_
      base_nonneg := hneg
      spec := ?_
      snapshots := hsnap }
  · refine hbase.imp_left fun hb => ⟨?_, hb.2⟩
    intro hnone
    simp [hnone] at hb
  · intro state hstate
    rw [hstate] at hspec
    exact validateSpecState_eq_ok.1 hspec

/-- Attaching validated speculative state keeps a record valid. -/
theorem validateRecord_upgrade {state : SpecPagedStateRecord} (h : validateRecord record = .ok ())
    (hs : validateSpecState state record.basePagePath.length = .ok ()) :
    validateRecord { record with specState := some state } = .ok () := by
  obtain ⟨h1, h2, h3, h4, h5, h6, h7, -, h9, h10⟩ := validateRecord_eq_ok.1 h
  exact validateRecord_eq_ok.2 ⟨h1, h2, h3, h4, h5, h6, h7, hs, h9, h10⟩

omit [DecidableEq H] in
/-- A record with speculative state spans its whole logical path. -/
theorem CacheRecord.Valid.spec_logical (h : record.Valid) {state : SpecPagedStateRecord}
    (hs : record.specState = some state) :
    state.pagePath.length = record.logicalBlockHashes.length := by
  obtain ⟨hne, hlen, -⟩ := h.spec state hs
  rcases h.base with ⟨-, hnil⟩ | hbase
  · rw [hnil, List.length_nil, List.length_eq_zero_iff] at hlen
    exact absurd hlen hne
  · exact hlen.trans hbase

/-! ## Store coherence -/

namespace CacheRecordStore

/-- The LRU list, the record map and the two key indexes describe one set of
records, each exactly once, and every stored record is valid. -/
structure Coherent (store : CacheRecordStore H) : Prop where
  lru_nodup : store.lru.Nodup
  lru_mem : ∀ id, id ∈ store.lru ↔ ∃ record, store.records.lookup id = some record
  id_eq : ∀ id record, store.records.lookup id = some record → record.id = id
  id_pos : ∀ id record, store.records.lookup id = some record → id ≠ 0
  id_lt : ∀ id record, store.records.lookup id = some record →
    store.nextId = 0 ∨ id < store.nextId
  exact : ∀ key id, store.exactIndex.lookup key = some id ↔
    ∃ record, store.records.lookup id = some record ∧ record.key = key
  hybrid : ∀ key id, store.hybridIndex.lookup key = some id ↔
    ∃ record, store.records.lookup id = some record ∧ record.hybridKey = some key
  valid : ∀ id record, store.records.lookup id = some record → validateRecord record = .ok ()

variable {store : CacheRecordStore H} {record : CacheRecord H} {id : RecordId}

omit [DecidableEq H] in
theorem contains_iff : store.contains id = true ↔ ∃ record, store.records.lookup id = some record :=
  Option.isSome_iff_exists

theorem coherent_empty (n : Nat) : ({ maxRecords := n } : CacheRecordStore H).Coherent where
  lru_nodup := List.nodup_nil
  lru_mem id := by simp
  id_eq id record h := by simp at h
  id_pos id record h := by simp at h
  id_lt id record h := by simp at h
  exact key id := by simp
  hybrid key id := by simp
  valid id record h := by simp at h

/-- Every stored record is one LRU node. -/
theorem Coherent.size_eq (h : store.Coherent) : store.size = store.lru.length := by
  have hkeys : store.records.keys = store.lru.toFinset := by
    ext id
    rw [Finmap.mem_keys, Finmap.mem_iff, List.mem_toFinset, h.lru_mem]
  rw [size, hkeys, List.toFinset_card_of_nodup h.lru_nodup]

theorem Coherent.moveToBack (h : store.Coherent) (hid : id ∈ store.lru) :
    (store.moveToBack id).Coherent where
  lru_nodup := by
    refine List.nodup_append.2 ⟨h.lru_nodup.erase id, List.nodup_singleton id, ?_⟩
    intro x hx y hy hxy
    rw [List.mem_singleton] at hy
    subst hy hxy
    exact h.lru_nodup.not_mem_erase hx
  lru_mem x := by
    show x ∈ store.lru.erase id ++ [id] ↔ ∃ record, store.records.lookup x = some record
    rw [← h.lru_mem x, List.mem_append, List.mem_singleton]
    by_cases hx : x = id
    · subst hx
      simp [hid]
    · simp [hx, List.mem_erase_of_ne hx]
  id_eq := h.id_eq
  id_pos := h.id_pos
  id_lt := h.id_lt
  exact := h.exact
  hybrid := h.hybrid
  valid := h.valid

/-- Both keys of a record are unused. -/
structure KeysFree (store : CacheRecordStore H) (record : CacheRecord H) : Prop where
  exact : store.find record.key = none
  hybrid : record.hybridKey.bind store.findHybrid = none
  id : store.records.lookup store.nextId = none
  nextId : store.nextId ≠ 0

theorem insertFresh_lookup_self :
    (store.insertFresh record).records.lookup store.nextId =
      some { record with id := store.nextId } :=
  Finmap.lookup_insert _

theorem insertFresh_lookup_ne (hne : id ≠ store.nextId) :
    (store.insertFresh record).records.lookup id = store.records.lookup id :=
  Finmap.lookup_insert_of_ne _ hne

theorem insertFresh_lookup_iff (hfree : store.records.lookup store.nextId = none)
    {record' : CacheRecord H} :
    (store.insertFresh record).records.lookup id = some record' ↔
      (id = store.nextId ∧ record' = { record with id := store.nextId }) ∨
        store.records.lookup id = some record' := by
  by_cases hid : id = store.nextId
  · subst hid
    rw [insertFresh_lookup_self, hfree]
    simp [eq_comm]
  · rw [insertFresh_lookup_ne hid]
    simp [hid]

theorem Coherent.insertFresh (h : store.Coherent) (hfree : store.KeysFree record)
    (hvalid : validateRecord record = .ok ()) : (store.insertFresh record).Coherent := by
  have hlookup : ∀ id record', (store.insertFresh record).records.lookup id = some record' ↔
      (id = store.nextId ∧ record' = { record with id := store.nextId }) ∨
        store.records.lookup id = some record' :=
    fun id record' => insertFresh_lookup_iff hfree.id
  refine
    { lru_nodup := ?_
      lru_mem := ?_
      id_eq := ?_
      id_pos := ?_
      id_lt := ?_
      exact := ?_
      hybrid := ?_
      valid := ?_ }
  · refine List.nodup_append.2 ⟨h.lru_nodup, List.nodup_singleton _, ?_⟩
    intro x hx y hy hxy
    rw [List.mem_singleton] at hy
    subst hy hxy
    obtain ⟨record', hr⟩ := (h.lru_mem _).1 hx
    simp [hfree.id] at hr
  · intro x
    simp only [hlookup]
    have hlru : (store.insertFresh record).lru = store.lru ++ [store.nextId] := rfl
    rw [hlru, List.mem_append, List.mem_singleton, h.lru_mem]
    constructor
    · rintro (⟨record', hr⟩ | rfl)
      · exact ⟨record', Or.inr hr⟩
      · exact ⟨_, Or.inl ⟨rfl, rfl⟩⟩
    · rintro ⟨record', ⟨rfl, -⟩ | hr⟩
      · exact Or.inr rfl
      · exact Or.inl ⟨record', hr⟩
  · intro x record' hx
    rcases (hlookup x record').1 hx with ⟨rfl, rfl⟩ | hr
    · rfl
    · exact h.id_eq x record' hr
  · intro x record' hx
    rcases (hlookup x record').1 hx with ⟨rfl, rfl⟩ | hr
    · exact hfree.nextId
    · exact h.id_pos x record' hr
  · intro x record' hx
    show succId store.nextId = 0 ∨ x < succId store.nextId
    unfold succId
    split
    · exact Or.inl rfl
    · right
      rcases (hlookup x record').1 hx with ⟨rfl, rfl⟩ | hr
      · exact Nat.lt_succ_self _
      · rcases h.id_lt x record' hr with hz | hlt
        · exact absurd hz hfree.nextId
        · exact Nat.lt_succ_of_lt hlt
  · intro key x
    have hindex : (store.insertFresh record).exactIndex =
        store.exactIndex.insert record.key store.nextId := rfl
    simp only [hindex, hlookup]
    by_cases hkey : key = record.key
    · subst hkey
      rw [Finmap.lookup_insert]
      constructor
      · intro hx
        cases hx
        exact ⟨_, Or.inl ⟨rfl, rfl⟩, rfl⟩
      · rintro ⟨record', ⟨rfl, -⟩ | hr, hk⟩
        · rfl
        · have hsome := (h.exact record.key x).2 ⟨record', hr, hk⟩
          have hnone := hfree.exact
          rw [find, hsome] at hnone
          cases hnone
    · rw [Finmap.lookup_insert_of_ne _ hkey, h.exact]
      constructor
      · rintro ⟨record', hr, hk⟩
        exact ⟨record', Or.inr hr, hk⟩
      · rintro ⟨record', ⟨rfl, rfl⟩ | hr, hk⟩
        · exact absurd hk.symm hkey
        · exact ⟨record', hr, hk⟩
  · intro key x
    simp only [hlookup]
    have hindex : (store.insertFresh record).hybridIndex.lookup key =
        if record.hybridKey = some key then some store.nextId
        else store.hybridIndex.lookup key := by
      show (match record.hybridKey with
        | some key => store.hybridIndex.insert key store.nextId
        | none => store.hybridIndex).lookup key = _
      cases hk : record.hybridKey with
      | none => simp
      | some key' =>
        by_cases hkey : key = key'
        · subst hkey
          simp [Finmap.lookup_insert]
        · simp [Finmap.lookup_insert_of_ne _ hkey, Ne.symm hkey]
    rw [hindex]
    split
    · rename_i hk
      constructor
      · intro hx
        cases hx
        exact ⟨_, Or.inl ⟨rfl, rfl⟩, hk⟩
      · rintro ⟨record', ⟨rfl, -⟩ | hr, hk'⟩
        · rfl
        · have hsome := (h.hybrid key x).2 ⟨record', hr, hk'⟩
          have hnone := hfree.hybrid
          rw [hk, Option.bind_some, findHybrid, hsome] at hnone
          cases hnone
    · rename_i hk
      rw [h.hybrid]
      constructor
      · rintro ⟨record', hr, hk'⟩
        exact ⟨record', Or.inr hr, hk'⟩
      · rintro ⟨record', ⟨rfl, rfl⟩ | hr, hk'⟩
        · exact absurd hk' hk
        · exact ⟨record', hr, hk'⟩
  · intro x record' hx
    rcases (hlookup x record').1 hx with ⟨rfl, rfl⟩ | hr
    · exact hvalid
    · exact h.valid x record' hr

theorem eraseRecord_lookup_iff {x : RecordId} {record' : CacheRecord H} :
    (store.eraseRecord id record).records.lookup x = some record' ↔
      x ≠ id ∧ store.records.lookup x = some record' := by
  show (store.records.erase id).lookup x = some record' ↔ _
  by_cases hx : x = id
  · subst hx
    simp [Finmap.lookup_erase]
  · simp [Finmap.lookup_erase_ne hx, hx]

theorem Coherent.eraseRecord (h : store.Coherent) (hid : store.records.lookup id = some record) :
    (store.eraseRecord id record).Coherent := by
  have hlookup : ∀ x record', (store.eraseRecord id record).records.lookup x = some record' ↔
      x ≠ id ∧ store.records.lookup x = some record' :=
    fun x record' => eraseRecord_lookup_iff
  refine
    { lru_nodup := h.lru_nodup.erase id
      lru_mem := ?_
      id_eq := fun x record' hx => h.id_eq x record' ((hlookup x record').1 hx).2
      id_pos := fun x record' hx => h.id_pos x record' ((hlookup x record').1 hx).2
      id_lt := fun x record' hx => h.id_lt x record' ((hlookup x record').1 hx).2
      exact := ?_
      hybrid := ?_
      valid := fun x record' hx => h.valid x record' ((hlookup x record').1 hx).2 }
  · intro x
    simp only [hlookup, exists_and_left]
    show x ∈ store.lru.erase id ↔ _
    rw [h.lru_nodup.mem_erase_iff, h.lru_mem]
  · intro key x
    simp only [hlookup]
    show (store.exactIndex.erase record.key).lookup key = some x ↔ _
    by_cases hkey : key = record.key
    · subst hkey
      rw [Finmap.lookup_erase]
      refine ⟨fun hx => by simp at hx, ?_⟩
      rintro ⟨record', ⟨hx, hr⟩, hk⟩
      -- the exact index maps the key to one id only
      have hx' := (h.exact record.key x).2 ⟨record', hr, hk⟩
      have hid' := (h.exact record.key id).2 ⟨record, hid, rfl⟩
      rw [hid', Option.some.injEq] at hx'
      exact absurd hx'.symm hx
    · rw [Finmap.lookup_erase_ne hkey, h.exact]
      constructor
      · rintro ⟨record', hr, hk⟩
        refine ⟨record', ⟨?_, hr⟩, hk⟩
        rintro rfl
        rw [hid, Option.some.injEq] at hr
        exact hkey (by rw [← hk, hr])
      · rintro ⟨record', ⟨-, hr⟩, hk⟩
        exact ⟨record', hr, hk⟩
  · intro key x
    simp only [hlookup]
    have hindex : (store.eraseRecord id record).hybridIndex.lookup key =
        if record.hybridKey = some key then none else store.hybridIndex.lookup key := by
      show (match record.hybridKey with
        | some key => store.hybridIndex.erase key
        | none => store.hybridIndex).lookup key = _
      cases hk : record.hybridKey with
      | none => simp
      | some key' =>
        by_cases hkey : key = key'
        · subst hkey
          simp [Finmap.lookup_erase]
        · simp [Finmap.lookup_erase_ne hkey, Ne.symm hkey]
    rw [hindex]
    split
    · rename_i hk
      refine ⟨fun hx => by simp at hx, ?_⟩
      rintro ⟨record', ⟨hx, hr⟩, hk'⟩
      have hx' := (h.hybrid key x).2 ⟨record', hr, hk'⟩
      have hid' := (h.hybrid key id).2 ⟨record, hid, hk⟩
      rw [hid', Option.some.injEq] at hx'
      exact absurd hx'.symm hx
    · rename_i hk
      rw [h.hybrid]
      constructor
      · rintro ⟨record', hr, hk'⟩
        refine ⟨record', ⟨?_, hr⟩, hk'⟩
        rintro rfl
        rw [hid, Option.some.injEq] at hr
        subst hr
        exact hk hk'
      · rintro ⟨record', ⟨-, hr⟩, hk'⟩
        exact ⟨record', hr, hk'⟩

/-- Overwriting a record without touching its identity. -/
theorem Coherent.replace (h : store.Coherent) (hid : store.records.lookup id = some record)
    {new : CacheRecord H} (hnid : new.id = record.id) (hkey : new.key = record.key)
    (hhybrid : new.hybridKey = record.hybridKey) (hvalid : validateRecord new = .ok ()) :
    ({ store with records := store.records.insert id new } : CacheRecordStore H).Coherent := by
  have hlookup : ∀ x record', (store.records.insert id new).lookup x = some record' →
      (x = id ∧ record' = new) ∨ (x ≠ id ∧ store.records.lookup x = some record') := by
    intro x record' hx
    by_cases hxid : x = id
    · subst hxid
      rw [Finmap.lookup_insert, Option.some.injEq] at hx
      exact Or.inl ⟨rfl, hx.symm⟩
    · rw [Finmap.lookup_insert_of_ne _ hxid] at hx
      exact Or.inr ⟨hxid, hx⟩
  -- every identity read of the new map is one of the old map
  have hproj : ∀ {α : Type} (f : CacheRecord H → α) (_ : f new = f record) (a : α) x,
      (∃ record', (store.records.insert id new).lookup x = some record' ∧ f record' = a) ↔
        ∃ record', store.records.lookup x = some record' ∧ f record' = a := by
    intro α f hf a x
    by_cases hxid : x = id
    · subst hxid
      simp [Finmap.lookup_insert, hid, hf]
    · rw [Finmap.lookup_insert_of_ne _ hxid]
  refine
    { lru_nodup := h.lru_nodup
      lru_mem := ?_
      id_eq := ?_
      id_pos := ?_
      id_lt := ?_
      exact := fun key x => (h.exact key x).trans (hproj CacheRecord.key hkey key x).symm
      hybrid := fun key x =>
        (h.hybrid key x).trans (hproj CacheRecord.hybridKey hhybrid (some key) x).symm
      valid := ?_ }
  · intro x
    rw [h.lru_mem]
    simpa using (hproj (fun _ => ()) rfl () x).symm
  · intro x record' hx
    rcases hlookup x record' hx with ⟨rfl, rfl⟩ | ⟨-, hr⟩
    · rw [hnid]
      exact h.id_eq x record hid
    · exact h.id_eq x record' hr
  · intro x record' hx
    rcases hlookup x record' hx with ⟨rfl, rfl⟩ | ⟨-, hr⟩
    · exact h.id_pos x record hid
    · exact h.id_pos x record' hr
  · intro x record' hx
    rcases hlookup x record' hx with ⟨rfl, rfl⟩ | ⟨-, hr⟩
    · exact h.id_lt x record hid
    · exact h.id_lt x record' hr
  · intro x record' hx
    rcases hlookup x record' hx with ⟨rfl, rfl⟩ | ⟨-, hr⟩
    · exact hvalid
    · exact h.valid x record' hr

omit [DecidableEq H] in
theorem touch_spec (hid : store.records.lookup id = some record) :
    store.touch id = .ok (store.moveToBack id) :=
  if_pos (contains_iff.2 ⟨record, hid⟩)

omit [DecidableEq H] in
theorem get_spec (hid : store.records.lookup id = some record) : store.get id = .ok record := by
  rw [get, hid]

/-- `erase` of a stored record never meets an inconsistent index. -/
theorem Coherent.erase_spec (h : store.Coherent) (hid : store.records.lookup id = some record) :
    store.erase id = .ok (record, store.eraseRecord id record) := by
  have hexact := (h.exact record.key id).2 ⟨record, hid, rfl⟩
  unfold erase
  rw [hid]
  cases hk : record.hybridKey with
  | none => simp [requireThat, hexact, hk, bind, Except.bind]
  | some key =>
    have hhybrid := (h.hybrid key id).2 ⟨record, hid, hk⟩
    simp [requireThat, hexact, hk, hhybrid, bind, Except.bind]

/-- A valid record under free keys, while ids are left, is inserted. -/
theorem Coherent.insert_fresh (h : store.Coherent) (hvalid : validateRecord record = .ok ())
    (hhybrid : record.hybridKey.bind store.findHybrid = none)
    (hexact : store.find record.key = none) (hnext : store.nextId ≠ 0) : store.KeysFree record ∧
      store.insert record = .ok (⟨store.nextId, true⟩, store.insertFresh record) := by
  have hfree : store.records.lookup store.nextId = none := by
    cases hl : store.records.lookup store.nextId with
    | none => rfl
    | some old =>
      rcases h.id_lt _ old hl with hz | hlt
      · exact absurd hz hnext
      · exact absurd hlt (Nat.lt_irrefl _)
  refine ⟨⟨hexact, hhybrid, hfree, hnext⟩, ?_⟩
  rw [insert, hvalid]
  simp [hhybrid, hexact, requireThat, hnext, contains, hfree, bind, Except.bind]

/-- The stored record that `insert` touches in place of `record`. -/
def duplicate (store : CacheRecordStore H) (record : CacheRecord H) : Option RecordId :=
  (record.hybridKey.bind store.findHybrid).or (store.find record.key)

/-- The three outcomes of `insert`: a new record, a touched duplicate, or a
refused record. -/
theorem Coherent.insert_spec (h : store.Coherent) (record : CacheRecord H) :
    (store.KeysFree record ∧ validateRecord record = .ok () ∧
      store.insert record = .ok (⟨store.nextId, true⟩, store.insertFresh record)) ∨
    (∃ dup old, store.duplicate record = some dup ∧ store.records.lookup dup = some old ∧
      store.insert record = .ok (⟨dup, false⟩, store.moveToBack dup)) ∨
    (∃ e, store.insert record = .error e ∧
      (validateRecord record = .error e ∨ e = .recordIdsExhausted)) := by
  cases hv : validateRecord record with
  | error e => exact Or.inr (Or.inr ⟨e, by rw [insert, hv]; rfl, Or.inl rfl⟩)
  | ok u =>
    cases hhyb : record.hybridKey.bind store.findHybrid with
    | some dup =>
      right
      left
      obtain ⟨key, -, hfind⟩ := Option.bind_eq_some_iff.1 hhyb
      obtain ⟨old, hold, -⟩ := (h.hybrid key dup).1 hfind
      exact ⟨dup, old, by rw [duplicate, hhyb, Option.some_or], hold,
        by simp [insert, hv, hhyb, touch_spec hold, bind, Except.bind]⟩
    | none =>
      cases hexact : store.find record.key with
      | some dup =>
        right
        left
        obtain ⟨old, hold, -⟩ := (h.exact record.key dup).1 hexact
        exact ⟨dup, old, by rw [duplicate, hhyb, Option.none_or, hexact], hold,
          by simp [insert, hv, hhyb, hexact, touch_spec hold, bind, Except.bind]⟩
      | none =>
        by_cases hnext : store.nextId = 0
        · refine Or.inr (Or.inr ⟨.recordIdsExhausted, ?_, Or.inr rfl⟩)
          simp [insert, hv, hhyb, hexact, requireThat, hnext, bind, Except.bind]
        · obtain ⟨hfree, hins⟩ := h.insert_fresh hv hhyb hexact hnext
          exact Or.inl ⟨hfree, rfl, hins⟩

/-- `setSpecState` on a base-only record attaches the state and touches it. -/
theorem setSpecState_spec (hid : store.records.lookup id = some record)
    (hbase : record.specState = none) {state : SpecPagedStateRecord}
    (hvalid : validateRecord { record with specState := some state } = .ok ()) :
    store.setSpecState id state =
      .ok (({ store with
        records := store.records.insert id { record with specState := some state } } :
          CacheRecordStore H).moveToBack id) := by
  unfold setSpecState
  simp [hid, hbase, hvalid, bind, Except.bind]

end CacheRecordStore

end EdgeLLM.Ports.ContextCache
