import EdgeLLM.Ports.ContextCacheReachable

/-!
# A stored record stays what it is

Ids are never reused and a record with speculative state is never rewritten:
whatever is called later, an id names the record it was given to, or nothing.
Only four mutations touch the store (`insert`, `setSpecState`, `erase` and the
LRU splice); `Keeps` carries the invariant from them to every call.
-/

namespace EdgeLLM.Ports.ContextCache

open Verified Checked

set_option linter.unusedSectionVars false

variable {H : Type} [DecidableEq H] {id : RecordId} {record : CacheRecord H}

/-! ## The store -/

namespace CacheRecordStore

variable {store store' : CacheRecordStore H}

/-- `id` is taken, and names at most `record`. -/
structure Fixes (id : RecordId) (record : CacheRecord H) (store : CacheRecordStore H) : Prop where
  same : ∀ found, store.records.lookup id = some found → found = record
  used : store.nextId = 0 ∨ id < store.nextId

theorem Fixes.moveToBack (h : store.Fixes id record) (other : RecordId) :
    (store.moveToBack other).Fixes id record where
  same := h.same
  used := h.used

theorem Fixes.touch (h : store.Fixes id record) {other : RecordId}
    (ht : store.touch other = .ok store') : store'.Fixes id record := by
  unfold CacheRecordStore.touch at ht
  split at ht
  · cases ht
    exact h.moveToBack other
  · cases ht

theorem Fixes.insertFresh (h : store.Fixes id record) (hnext : store.nextId ≠ 0)
    (new : CacheRecord H) : (store.insertFresh new).Fixes id record where
  same found hf := by
    have hlt := h.used.resolve_left hnext
    have hne : id ≠ store.nextId := Nat.ne_of_lt hlt
    rw [insertFresh_lookup_ne hne] at hf
    exact h.same found hf
  used := by
    have hlt := h.used.resolve_left hnext
    show succId store.nextId = 0 ∨ id < succId store.nextId
    unfold succId
    split
    · exact Or.inl rfl
    · exact Or.inr (Nat.lt_succ_of_lt hlt)

theorem Fixes.insert (h : store.Fixes id record) {new : CacheRecord H}
    {result : RecordInsertResult} (hi : store.insert new = .ok (result, store')) :
    store'.Fixes id record := by
  unfold CacheRecordStore.insert at hi
  simp only [check_bind_eq_ok] at hi
  obtain ⟨-, hi⟩ := hi
  split at hi
  · rw [bind_eq_ok] at hi
    obtain ⟨touched, ht, he⟩ := hi
    cases he
    exact h.touch ht
  · split at hi
    · rw [bind_eq_ok] at hi
      obtain ⟨touched, ht, he⟩ := hi
      cases he
      exact h.touch ht
    · simp only [check_bind_eq_ok, requireThat_eq_ok] at hi
      obtain ⟨hnext, -, -, -, he⟩ := hi
      cases he
      exact h.insertFresh hnext new

theorem Fixes.setSpecState (h : store.Fixes id record) (hspec : record.specState.isSome = true)
    {other : RecordId} {state : SpecPagedStateRecord}
    (hset : store.setSpecState other state = .ok store') : store'.Fixes id record := by
  unfold CacheRecordStore.setSpecState at hset
  cases hl : store.records.lookup other with
  | none =>
    rw [hl] at hset
    cases hset
  | some old =>
    rw [hl] at hset
    cases hold : old.specState with
    | some oldState =>
      simp only [hold, check_bind_eq_ok] at hset
      exact h.touch hset.2
    | none =>
      simp only [hold, check_bind_eq_ok] at hset
      obtain ⟨-, he⟩ := hset
      cases he
      -- the upgraded record had no state, so it is another one
      have hne : id ≠ other := by
        intro heq
        have hsame := h.same old (heq ▸ hl)
        rw [← hsame, hold] at hspec
        cases hspec
      refine
        { same := fun found hf => h.same found ?_
          used := h.used }
      change (Finmap.insert other _ store.records).lookup id = some found at hf
      rwa [Finmap.lookup_insert_of_ne _ hne] at hf

theorem Fixes.eraseRecord (h : store.Fixes id record) (other : RecordId) (old : CacheRecord H) :
    (store.eraseRecord other old).Fixes id record where
  same found hf := h.same found (eraseRecord_lookup_iff.1 hf).2
  used := h.used

theorem Fixes.erase (h : store.Fixes id record) {other : RecordId} {old : CacheRecord H}
    (he : store.erase other = .ok (old, store')) : store'.Fixes id record := by
  unfold CacheRecordStore.erase at he
  cases hl : store.records.lookup other with
  | none =>
    rw [hl] at he
    cases he
  | some stored =>
    rw [hl] at he
    simp only [check_bind_eq_ok] at he
    obtain ⟨-, he⟩ := he
    cases hk : stored.hybridKey with
    | none =>
      rw [hk] at he
      cases he
      exact h.eraseRecord other _
    | some key =>
      simp only [hk, check_bind_eq_ok] at he
      cases he.2
      exact h.eraseRecord other _

end CacheRecordStore

/-! ## The manager -/

namespace ContextCacheManager

open Checked

/-- The store of the manager fixes `id`. -/
def Fixes (id : RecordId) (record : CacheRecord H) (m : ContextCacheManager H) : Prop :=
  m.records.Fixes id record

theorem keeps_onPools (f : ResourcePools → Except Check ResourcePools) :
    Keeps (Fixes id record) (onPools f) := Keeps.zoom_frame _ fun _ _ h => h

theorem keeps_onSpecIndex (f : Checked Check (SpecPagedStateIndex H) Unit) :
    Keeps (Fixes id record) (onSpecIndex f) := Keeps.zoom_frame _ fun _ _ h => h

theorem keeps_onRecords {α : Type} {f : CacheRecordStore H → Except Check (α × CacheRecordStore H)}
    (hf : ∀ store a store', store.Fixes id record → f store = .ok (a, store') →
      store'.Fixes id record) : Keeps (Fixes id record) (onRecords f) :=
  (Keeps.update hf).zoom _ (fun _ h => h) fun _ _ _ h => h

theorem keeps_touch (other : RecordId) : Keeps (Fixes id record) (touch other) := by
  refine keeps_onRecords fun store a store' h hf => ?_
  cases ht : store.touch other with
  | error e =>
    rw [ht] at hf
    cases hf
  | ok touched =>
    rw [ht] at hf
    cases hf
    exact h.touch ht

theorem keeps_getRecord (other : RecordId) : Keeps (Fixes id record) (getRecord other) := by
  refine keeps_onRecords fun store a store' h hf => ?_
  cases hg : store.get other with
  | error e =>
    rw [hg] at hf
    cases hf
  | ok found =>
    rw [hg] at hf
    cases hf
    exact h

theorem keeps_releaseCacheRef (r : ResourceId) :
    Keeps (Fixes id record) (releaseCacheRef r) := keeps_onPools _

theorem keeps_erasePage (page : PageId) : Keeps (Fixes id record) (erasePage page) :=
  Keeps.modify fun _ h => h

theorem keeps_releaseBasePage (page : PageId) : Keeps (Fixes id record) (releaseBasePage page) :=
  (keeps_onPools _).bind fun _ => (keeps_read _).bind fun _ =>
    (keeps_erasePage page).ite (keeps_pure _)

theorem keeps_evictRecord (other : RecordId) : Keeps (Fixes id record) (evictRecord other) := by
  refine (keeps_read _).bind fun _ => Keeps.bind ?_ fun old => ?_
  · exact keeps_onRecords fun store a store' h hf => h.erase hf
  · refine (keeps_onSpecIndex _).bind fun _ => ?_
    refine (Keeps.forEach keeps_releaseBasePage _).bind fun _ => ?_
    refine (Keeps.forEach keeps_releaseCacheRef _).bind fun _ => ?_
    exact Keeps.modify fun _ h => h

theorem keeps_applyEviction (plan : EvictionPlan) :
    Keeps (Fixes id record) (applyEviction plan) := Keeps.forEach keeps_evictRecord _

namespace Transaction

/-- The transaction works on such a manager. -/
def Fixes (id : RecordId) (record : CacheRecord H) (t : Transaction H) : Prop :=
  t.manager.Fixes id record

theorem keeps_onManager {α : Type} {f : Checked Check (ContextCacheManager H) α}
    (hf : Keeps (ContextCacheManager.Fixes id record) f) : Keeps (Fixes id record) (onManager f) :=
  hf.zoom _ (fun _ h => h) fun _ _ _ h => h

theorem keeps_note (f : PublicationGuard → PublicationGuard) :
    Keeps (Fixes id record) (note f) := Keeps.modify fun _ h => h

theorem keeps_addCacheRef (r : ResourceId) : Keeps (Fixes id record) (addCacheRef r) :=
  (keeps_onManager (keeps_onPools _)).bind fun _ => keeps_note _

theorem keeps_insertMapping (missing : H × PageId) :
    Keeps (Fixes id record) (insertMapping missing) := by
  refine Keeps.bind (keeps_onManager ?_) fun _ => .checked <| keeps_note _
  exact Keeps.zoom_frame _ fun _ _ h => h

theorem keeps_rollback (publication : PreparedPublication H) :
    Keeps (Fixes id record) (rollback publication) := by
  unfold rollback
  refine (keeps_read _).bind fun guard => ?_
  have hundo : Keeps (Fixes id record) (do
      forEach (fun missing : H × PageId => onManager (erasePage missing.2))
        (publication.missingBaseMappings.take guard.insertedMappingCount).reverse
      forEach (fun r => onManager (releaseCacheRef r))
        (publication.cacheResources.take guard.addedCacheRefCount).reverse) :=
    (Keeps.forEach (fun _ => keeps_onManager (keeps_erasePage _)) _).bind fun _ =>
      Keeps.forEach (fun _ => keeps_onManager (keeps_releaseCacheRef _)) _
  have herase : Keeps (ContextCacheManager.Fixes id record) (onRecords fun records =>
      (records.erase guard.insertedRecord).map fun erased => ((), erased.2)) := by
    refine keeps_onRecords fun store a store' h hf => ?_
    cases he : store.erase guard.insertedRecord with
    | error e =>
      rw [he] at hf
      cases hf
    | ok erased =>
      rw [he] at hf
      cases hf
      exact h.erase he
  have hstored : Keeps (Fixes id record) _ := (keeps_read fun t : Transaction H =>
    t.manager.records.contains guard.insertedRecord).bind fun stored =>
      Keeps.ite (p := guard.insertedRecord ≠ 0 ∧ stored = true)
        ((keeps_onManager herase).bind fun _ => hundo) hundo
  refine Keeps.ite ?_ hstored
  exact (keeps_onManager (keeps_getRecord _)).bind fun _ =>
    (keeps_onManager (keeps_onSpecIndex _)).bind fun _ => hstored

theorem keeps_storeRecord (new : CacheRecord H) : Keeps (Fixes id record) (storeRecord new) := by
  refine (keeps_onManager (keeps_onRecords fun _ _ _ h hf => h.insert hf)).bind fun _ => ?_
  refine .checked <| (keeps_note _).bind fun _ => ?_
  refine (keeps_onManager (keeps_getRecord _)).bind fun _ => Keeps.ite ?_ (keeps_pure _)
  exact (keeps_onManager (keeps_onSpecIndex _)).bind fun _ =>
    (keeps_note _).bind fun _ => keeps_pure _

theorem keeps_commit (publication : PreparedPublication H) :
    Keeps (Fixes id record) (commit publication) :=
  (Keeps.forEach keeps_addCacheRef _).bind fun _ =>
    (Keeps.forEach keeps_insertMapping _).bind fun _ => keeps_storeRecord _

end Transaction

theorem keeps_enforceRecordLimit (victim : Option RecordId) (new : RecordId) :
    Keeps (Fixes id record) (enforceRecordLimit victim new) := by
  unfold enforceRecordLimit
  refine (keeps_read _).bind fun maxRecords => ?_
  have hcheck : Keeps (Fixes id record) (do
      let size ← Checked.read fun m : ContextCacheManager H => m.records.size
      Checked.check (size ≤ maxRecords) Check.recordLimitNotEnforced) :=
    (keeps_read _).bind fun _ => keeps_check _ _
  refine Keeps.ite ((keeps_evictRecord new).bind fun _ => hcheck) ?_
  cases victim with
  | none => exact hcheck
  | some victim => exact (keeps_evictRecord victim).bind fun _ => hcheck

theorem keeps_commitPreparedPublication (publication : PreparedPublication H) :
    Keeps (Fixes id record) (commitPreparedPublication publication) := by
  refine Keeps.bind (Keeps.zoom (Transaction.Fixes id record) ?_ (fun _ h => h)
    fun _ _ _ h => h) fun _ => ?_
  · exact (Transaction.keeps_commit _).onThrow (Transaction.keeps_rollback _)
  · exact (keeps_enforceRecordLimit _ _).bind fun _ => (keeps_read _).bind fun _ => keeps_pure _

theorem keeps_publishRecord (new : CacheRecord H) (pages : List PageId) (hasPath : Bool) :
    Keeps (Fixes id record) (publishRecord new pages hasPath) :=
  (keeps_read _).bind fun _ => (keeps_ofExcept _).bind fun _ => (keeps_read _).bind fun _ =>
    (keeps_ofExcept _).bind fun _ => keeps_commitPreparedPublication _

theorem keeps_upgradeRecord (hspec : record.specState.isSome = true) (existing : RecordId)
    (old : CacheRecord H) (state : SpecPagedStateRecord) :
    Keeps (Fixes id record) (upgradeRecord existing old state) := by
  unfold upgradeRecord
  refine Keeps.zoom (Transaction.Fixes id record) (Keeps.onThrow ?_ ?_) (fun _ h => h)
    fun _ _ _ h => h
  · refine (Keeps.forEach Transaction.keeps_addCacheRef _).bind fun _ => ?_
    refine (Transaction.keeps_onManager (keeps_onSpecIndex _)).bind fun _ => ?_
    refine (Transaction.keeps_note _).bind fun _ => ?_
    refine Transaction.keeps_onManager (keeps_onRecords fun store a store' h hf => ?_)
    cases hset : store.setSpecState existing state with
    | error e =>
      rw [hset] at hf
      cases hf
    | ok upgraded =>
      rw [hset] at hf
      cases hf
      exact h.setSpecState hspec hset
  · refine (keeps_read _).bind fun guard => ?_
    have hrefs : Keeps (Transaction.Fixes id record) (forEach
        (fun r => Transaction.onManager (releaseCacheRef r))
        ((state.pagePath.map (ResourceId.mk .draftKvPage)).take
          guard.addedCacheRefCount).reverse) :=
      Keeps.forEach (fun _ => Transaction.keeps_onManager (keeps_releaseCacheRef _)) _
    exact Keeps.ite ((Transaction.keeps_onManager (keeps_onSpecIndex _)).bind fun _ => hrefs) hrefs

end ContextCacheManager

/-! ## Operations on a lease -/

namespace Session

open Checked ContextCacheManager

/-- The session works on such a manager. -/
def Fixes (id : RecordId) (record : CacheRecord H) (s : Session H) : Prop :=
  s.manager.Fixes id record

theorem keeps_onManager {α : Type} {f : Checked Check (ContextCacheManager H) α}
    (hf : Keeps (ContextCacheManager.Fixes id record) f) : Keeps (Fixes id record) (onManager f) :=
  hf.zoom _ (fun _ h => h) fun _ _ _ h => h

theorem keeps_onLease (f : CacheRequestLease H → CacheRequestLease H) :
    Keeps (Fixes id record) (onLease f) := Keeps.modify fun _ h => h

theorem keeps_releaseLease : Keeps (Fixes id record) (releaseLease (H := H)) :=
  (keeps_read _).bind fun _ =>
    (Keeps.forEach (fun _ => keeps_onManager (keeps_onPools _)) _).bind fun _ => keeps_onLease _

theorem keeps_release : Keeps (Fixes id record) (release (H := H)) :=
  (keeps_read _).bind fun _ => keeps_releaseLease.noexcept.ite (keeps_onLease _)

theorem keeps_pin (r : ResourceId) : Keeps (Fixes id record) (pin r) :=
  (keeps_onManager (keeps_onPools _)).bind fun _ => keeps_onLease _

theorem keeps_evictAndAllocate (demand : ResourceDemand) (eviction : EvictionPlan)
    (failure : Check) : Keeps (Fixes id record) (evictAndAllocate demand eviction failure) := by
  refine (keeps_onManager (keeps_applyEviction _)).bind fun _ => Keeps.bind (keeps_onManager ?_) ?_
  · exact Keeps.zoom_frame _ fun _ _ h => h
  · intro allocated
    cases allocated with
    | none => exact keeps_fail _
    | some resources => exact keeps_onLease _

theorem keeps_touchStored (other : Option RecordId) :
    Keeps (ContextCacheManager.Fixes id record) (touchStored other) := by
  refine (keeps_read _).bind fun stored => ?_
  cases stored with
  | none => exact keeps_pure _
  | some stored => exact keeps_touch stored

theorem keeps_acquireBody (plan : ReusePlan H) : Keeps (Fixes id record) (acquireBody plan) := by
  refine (Keeps.forEach keeps_pin _).bind fun _ => (keeps_read _).bind fun _ => ?_
  refine (keeps_ofExcept _).bind fun _ => (keeps_pure _).ite ?_
  refine (keeps_evictAndAllocate _ _ _).bind fun _ => ?_
  refine (keeps_onManager (keeps_touchStored _)).bind fun _ => ?_
  exact (keeps_onManager (keeps_touchStored _)).bind fun _ => keeps_pure _

theorem keeps_acquireLease (plan : ReusePlan H) : Keeps (Fixes id record) (acquireLease plan) := by
  refine ((keeps_acquireBody plan).onThrow keeps_release).bind fun acquired => Keeps.ite ?_ ?_
  · exact (keeps_read _).bind fun _ => keeps_pure _
  · exact keeps_release.bind fun _ => keeps_pure _

theorem keeps_acquireRequest (request : AcquireRequest H) (hashes : List H) (tokenCount : Int)
    (policy : ContextCacheLookupPolicy) (coverage : Option (Int × Int)) :
    Keeps (ContextCacheManager.Fixes id record)
      (acquireRequest request hashes tokenCount policy coverage) := by
  refine (keeps_read _).bind fun _ => (keeps_ofExcept _).bind fun _ => ?_
  refine (keeps_ofExcept _).bind fun plan => ?_
  exact (keeps_acquireLease plan).zoom _ (fun _ h => h) fun _ _ _ h => h

theorem keeps_growPages (demand : ResourceDemand) : Keeps (Fixes id record) (growPages demand) := by
  refine (keeps_pure _).ite ((keeps_read _).bind fun _ => (keeps_ofExcept _).bind fun _ => ?_)
  exact (keeps_pure _).ite ((keeps_evictAndAllocate _ _ _).bind fun _ => keeps_pure _)

theorem keeps_growBasePages (count : Int) : Keeps (Fixes id record) (growBasePages count) :=
  (keeps_read _).bind fun _ => .checked <| .checked <| .checked <| keeps_growPages _

theorem keeps_growSpecPages (baseCount draftCount : Int) :
    Keeps (Fixes id record) (growSpecPages baseCount draftCount) :=
  (keeps_read _).bind fun _ => .checked <| .checked <| .checked <| keeps_growPages _

theorem keeps_reserveHybridSnapshots (needsPartialKvSnapshot : Bool) :
    Keeps (Fixes id record) (reserveHybridSnapshots needsPartialKvSnapshot) := by
  refine (keeps_read _).bind fun _ => .checked <| .checked <| .checked ?_
  refine (keeps_growPages _).bind fun _ => (keeps_pure _).ite ?_
  exact (keeps_read _).bind fun _ => .checked <| keeps_pure _

theorem keeps_releaseLeaseResource (r : ResourceId) :
    Keeps (Fixes id record) (releaseLeaseResource r) :=
  (keeps_read _).bind fun _ => .checked <| (keeps_onLease _).bind fun _ =>
    keeps_onManager (keeps_onPools _)

theorem keeps_releaseSnapshot (t : ResourceType) (slot : Option Int) :
    Keeps (Fixes id record) (releaseSnapshot t slot) := by
  cases slot with
  | none => exact keeps_pure _
  | some slot => exact keeps_releaseLeaseResource _

theorem keeps_releaseRestoredHybridSnapshots :
    Keeps (Fixes id record) (releaseRestoredHybridSnapshots (H := H)) :=
  (keeps_read _).bind fun _ => .checked <|
    (keeps_releaseSnapshot _ _).bind fun _ => (keeps_onLease _).bind fun _ =>
      (keeps_releaseSnapshot _ _).bind fun _ => keeps_onLease _

theorem keeps_retireHybridSnapshotReservation (reservation : HybridSnapshotReservation) :
    Keeps (Fixes id record) (retireHybridSnapshotReservation reservation) :=
  (keeps_read _).bind fun _ => .checked <|
    (keeps_releaseLeaseResource _).bind fun _ => keeps_releaseSnapshot _ _

theorem keeps_publishExisting (hspec : record.specState.isSome = true) (existing : RecordId)
    (count : Nat) (specState : Option SpecPagedStateRecord) :
    Keeps (ContextCacheManager.Fixes id record) (publishExisting existing count specState) := by
  refine (keeps_getRecord _).bind fun old => .checked ?_
  split
  · exact (keeps_upgradeRecord hspec _ _ _).bind fun _ => keeps_pure _
  · exact (keeps_touch _).bind fun _ => keeps_pure _

theorem keeps_publish (hspec : record.specState.isSome = true) (request : PublishRequest H) :
    Keeps (Fixes id record) (publish request) := by
  refine (keeps_read _).bind fun _ => ?_
  iterate 3 apply Keeps.checked
  refine (keeps_read _).bind fun m => ?_
  iterate 6 apply Keeps.checked
  refine (keeps_ofExcept _).bind fun specState => ?_
  split
  · exact keeps_fail _
  · dsimp only
    split
    · exact keeps_onManager (keeps_publishExisting hspec _ _ _)
    · exact keeps_onManager (keeps_publishRecord _ _ _)

theorem keeps_publishCheckpoint (request : HybridPublishRequest H)
    (specState : Option SpecPagedStateRecord) (hasPath : Bool) :
    Keeps (Fixes id record) (publishCheckpoint request specState hasPath) := by
  refine (keeps_read _).bind fun s => ?_
  split
  · exact keeps_onManager ((keeps_getRecord _).bind fun _ => (keeps_touch _).bind fun _ =>
      keeps_pure _)
  · exact keeps_onManager (keeps_publishRecord _ _ _)

theorem keeps_publishHybrid (request : HybridPublishRequest H) :
    Keeps (Fixes id record) (publishHybrid request) := by
  refine (keeps_read _).bind fun _ => (keeps_read _).bind fun _ => ?_
  iterate 9 apply Keeps.checked
  exact keeps_publishCheckpoint _ _ _

theorem keeps_publishHybridMtp (request : HybridPublishRequest H) :
    Keeps (Fixes id record) (publishHybridMtp request) := by
  refine (keeps_read _).bind fun _ => (keeps_read _).bind fun _ => ?_
  iterate 9 apply Keeps.checked
  exact keeps_publishCheckpoint _ _ _

end Session

/-! ## Runs -/

namespace World

open Checked

/-- The world works on such a manager. -/
def Fixes (id : RecordId) (record : CacheRecord H) (w : World H) : Prop :=
  w.manager.Fixes id record

theorem keeps_onHandle {α : Type} {f : Checked Check (Session H) α}
    (hf : Keeps (Session.Fixes id record) f) (handle : Nat) :
    Keeps (Fixes id record) (onHandle handle f) := by
  refine (keeps_read _).bind fun held => ?_
  cases held with
  | none => exact keeps_fail _
  | some held => exact hf.zoom _ (fun _ h => h) fun _ _ _ h => h

theorem keeps_mark (handle : Nat) (f : Held H → Held H) :
    Keeps (Fixes id record) (mark handle f) := by
  refine Keeps.modify fun w h => ?_
  split
  · exact h
  · exact h

theorem keeps_publishOn {f : Checked Check (Session H) PublishResult}
    (hf : Keeps (Session.Fixes id record) f) (handle : Nat) :
    Keeps (Fixes id record) (publishOn handle f) :=
  (keeps_onHandle hf handle).bind fun _ => keeps_mark _ _

theorem keeps_releaseHandle (handle : Nat) : Keeps (Fixes id record) (releaseHandle handle) :=
  (keeps_onHandle Session.keeps_release handle).bind fun _ => keeps_mark _ _

theorem keeps_move (source target : Nat) : Keeps (Fixes id record) (move source target) := by
  refine (keeps_pure _).ite ((keeps_read _).bind fun held => ?_)
  cases held with
  | none => exact keeps_fail _
  | some held => exact (keeps_releaseHandle target).bind fun _ => Keeps.modify fun _ h => h

theorem keeps_call (hspec : record.specState.isSome = true) (op : Op H) :
    Keeps (Fixes id record) (call op) := by
  cases op with
  | declare => exact Keeps.modify fun _ h => h
  | acquire request hashes tokenCount policy coverage =>
    refine Keeps.bind ((Session.keeps_acquireRequest request hashes tokenCount policy
      coverage).zoom _ (fun _ h => h) fun _ _ _ h => h) fun result => ?_
    cases result.lease with
    | none => exact keeps_pure _
    | some lease => exact Keeps.modify fun _ h => h
  | growBasePages handle count =>
    exact (keeps_onHandle (Session.keeps_growBasePages _) _).bind fun _ => keeps_pure _
  | growSpecPages handle baseCount draftCount =>
    exact (keeps_onHandle (Session.keeps_growSpecPages _ _) _).bind fun _ => keeps_pure _
  | reserveHybridSnapshots handle needsPartialKvSnapshot =>
    exact (keeps_onHandle (Session.keeps_reserveHybridSnapshots _) _).bind fun _ => keeps_pure _
  | releaseRestoredHybridSnapshots handle =>
    exact keeps_onHandle Session.keeps_releaseRestoredHybridSnapshots _
  | retireHybridSnapshotReservation handle reservation =>
    exact keeps_onHandle (Session.keeps_retireHybridSnapshotReservation _) _
  | publish handle request => exact keeps_publishOn (Session.keeps_publish hspec _) _
  | publishHybrid handle request => exact keeps_publishOn (Session.keeps_publishHybrid _) _
  | publishHybridMtp handle request => exact keeps_publishOn (Session.keeps_publishHybridMtp _) _
  | move source target => exact keeps_move source target
  | release handle => exact keeps_releaseHandle handle

/-- A stored record with speculative state is the only one its id ever names. -/
theorem run_fixes (hspec : record.specState.isSome = true) :
    ∀ (ops : List (Op H)) (w : World H), w.Fixes id record → (run ops w).Fixes id record := by
  intro ops
  induction ops with
  | nil => exact fun w h => h
  | cons op ops ih => exact fun w h => ih _ ((keeps_call hspec op).state h)

end World

end EdgeLLM.Ports.ContextCache
