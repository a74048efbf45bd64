import EdgeLLM.Ports.ContextCacheWorld

/-!
# What holds in every reachable state

The two global invariants of the manager, over any run of calls that return
or throw.  Accounting: counters and free rings are functions of the live
leases and the stored records.  Index coherence: the five maps describe the
stored records.  Both are read off `World.Sound`, which every effect keeps.
-/

namespace EdgeLLM.Ports.ContextCache

open Verified

set_option linter.unusedSectionVars false

variable {H : Type} [DecidableEq H]

namespace World

variable {w : World H}

/-! ## Reference accounting -/

/-- Counters, ledgers and rings agree. -/
structure Accounted (w : World H) : Prop where
  active : ∀ r, w.manager.pools.activeRefCount r =
    (w.leases.map fun held => held.lease.activeResources.count r).sum
  cache : ∀ r, w.manager.pools.cacheRefCount r =
    tally (fun record => record.resources.count r) w.manager.records.records
  free : ∀ r, (w.manager.pools.slot? r).isSome = true →
    (r.index ∈ (w.manager.pools.pool r.type).freeList.window ↔
      w.manager.pools.activeRefCount r = 0 ∧ w.manager.pools.cacheRefCount r = 0)
  slot : ∀ t, ∀ i ∈ (w.manager.pools.pool t).freeList.window,
    (w.manager.pools.slot? ⟨t, i⟩).isSome = true
  once : ∀ t, (w.manager.pools.pool t).freeList.window.Nodup

theorem count_pins (w : World H) (r : ResourceId) :
    w.pins.count r = (w.leases.map fun held => held.lease.activeResources.count r).sum := by
  rw [pins, pinsOf, count_sum_map]
  simp only [Multiset.coe_count]

theorem count_cacheLedger (store : CacheRecordStore H) (r : ResourceId) :
    store.cacheLedger.count r = tally (fun record => record.resources.count r) store.records := by
  rw [CacheRecordStore.cacheLedger, count_tally]
  simp only [Multiset.coe_count]

theorem Sound.accounted (h : w.Sound) : w.Accounted where
  active r := by rw [h.manager.accounts.activeRefCount_eq, count_pins]
  cache r := by rw [h.manager.accounts.cacheRefCount_eq, count_cacheLedger]
  free := by
    rintro ⟨t, i⟩ hslot
    obtain ⟨slot, hs⟩ := Option.isSome_iff_exists.1 hslot
    have hpool := h.manager.accounts t
    rw [hpool.window, ResourcePools.activeRefCount, ResourcePools.cacheRefCount, hs]
    constructor
    · rintro ⟨slot', hs', hfree⟩
      obtain rfl : slot = slot' := Option.some.inj (hs.symm.trans hs')
      exact (hpool.free i slot hs).1 hfree
    · exact fun hzero => ⟨slot, hs, (hpool.free i slot hs).2 hzero⟩
  slot t i hi := by
    obtain ⟨slot, hs, -⟩ := ((h.manager.accounts t).window i).1 hi
    exact Option.isSome_iff_exists.2 ⟨slot, hs⟩
  once t := (h.manager.accounts t).nodup

/-- Nothing pinned and nothing stored: every pool is full again. -/
theorem Sound.drained (h : w.Sound) (hleases : ∀ held ∈ w.leases, held.lease.valid = false)
    (hrecords : w.manager.records.size = 0) (t : ResourceType) :
    w.manager.pools.freeCount t = w.manager.pools.capacity t := by
  have hpins : ∀ r, r ∉ w.pins := by
    intro r hr
    obtain ⟨held, hheld, hmem⟩ := mem_pins.1 hr
    rw [(h.leases held hheld).idle (hleases held hheld)] at hmem
    cases hmem
  have hcache : ∀ r, r ∉ w.manager.records.cacheLedger := by
    intro r hr
    obtain ⟨id, record, hid, -⟩ := CacheRecordStore.mem_cacheLedger.1 hr
    have hkey : id ∈ w.manager.records.records.keys :=
      Finmap.mem_keys.2 (Finmap.mem_of_lookup_eq_some hid)
    rw [Finset.card_eq_zero.1 hrecords] at hkey
    cases hkey
  exact (h.manager.accounts t).drained fun i =>
    ⟨Multiset.count_eq_zero.2 (hpins _), Multiset.count_eq_zero.2 (hcache _)⟩

/-- Reference accounting over every run: it holds in the state reached, the
next call fires none of the pool checks that guard it, and without leases and
records every pool is back at capacity. -/
theorem run_accounted {pageSize maxRecords : Int} {capacities : ResourceDemand}
    {contract : Option SpecReuseContract} {m : ContextCacheManager H}
    (h : ContextCacheManager.make pageSize capacities maxRecords contract = .ok m)
    (ops : List (Op H)) :
    (run ops (start m)).Accounted ∧
      (∀ op e, (call op (run ops (start m))).1 = .error e →
        e.accounting = false ∧ e ≠ .terminated) ∧
      ((∀ held ∈ (run ops (start m)).leases, held.lease.valid = false) →
        (run ops (start m)).manager.records.size = 0 →
        ∀ t, (run ops (start m)).manager.pools.freeCount t =
          (run ops (start m)).manager.pools.capacity t) := by
  have hs := run_sound ops (start_sound h)
  refine ⟨hs.accounted, ?_, hs.drained⟩
  intro op e he
  have hinternal := call_internal hs he
  unfold Check.internal at hinternal
  simp only [Bool.or_eq_false_iff, decide_eq_false_iff_not] at hinternal
  exact ⟨hinternal.1.1, hinternal.2⟩

/-- A publication, then the end of its lease. -/
theorem run_accounted_publish :
    ∃ m, ContextCacheManager.make (H := Nat) 2 { baseKvPages := 2 } 1 none = .ok m ∧
      (run [.acquire .vanilla [7] 3 .useCache none, .growBasePages 0 1, .publish 0 ⟨[7], 2⟩,
        .release 0] (start m)).Accounted := by
  have hmake : ContextCacheManager.make (H := Nat) 2 { baseKvPages := 2 } 1 none = .ok _ := rfl
  exact ⟨_, hmake, (run_accounted hmake _).1⟩

/-! ## Index coherence -/

/-- The five maps describe the stored records. -/
structure IndexCoherent (m : ContextCacheManager H) : Prop where
  inverse : ∀ hash page, m.baseIndex.forward.lookup hash = some page ↔
    m.baseIndex.reverse.lookup page = some hash
  path : ∀ id record, m.records.records.lookup id = some record → record.basePagePath ≠ [] →
    record.basePagePath.length = record.logicalBlockHashes.length ∧
    ∀ (i : Nat) hash page, record.logicalBlockHashes[i]? = some hash →
      record.basePagePath[i]? = some page → m.baseIndex.lookup hash = some page
  supported : ∀ hash page, m.baseIndex.lookup hash = some page →
    ∃ id record, m.records.records.lookup id = some record ∧ ∃ i : Nat,
      record.logicalBlockHashes[i]? = some hash ∧ record.basePagePath[i]? = some page
  id : ∀ id record, m.records.records.lookup id = some record → record.id = id
  /-- One match for each paired boundary of each record. -/
  spec : ∀ id record state, m.records.records.lookup id = some record →
    record.specState = some state → ∀ k hash, k < state.pagePath.length →
    record.logicalBlockHashes[k]? = some hash →
    (m.specIndex.candidates hash).count ⟨id, (k : Int) + 1⟩ = 1
  /-- Every match is one of them. -/
  specOnly : ∀ hash entry, m.specIndex.forward.lookup hash = some entry →
    entry ≠ [] ∧ ∀ found ∈ entry, ∃ record state,
      m.records.records.lookup found.record = some record ∧ record.specState = some state ∧
      ∃ k, k < state.pagePath.length ∧ record.logicalBlockHashes[k]? = some hash ∧
        found.pathBlockCount = (k : Int) + 1
  lruNodup : m.records.lru.Nodup
  lru : ∀ id, id ∈ m.records.lru ↔ ∃ record, m.records.records.lookup id = some record
  exact : ∀ key id, m.records.exactIndex.lookup key = some id ↔
    ∃ record, m.records.records.lookup id = some record ∧ record.key = key
  hybrid : ∀ key id, m.records.hybridIndex.lookup key = some id ↔
    ∃ record, m.records.records.lookup id = some record ∧ record.hybridKey = some key
  limit : m.records.size ≤ m.records.maxRecords

/-- Each boundary of a stored record is in the ledger once. -/
theorem count_specLedger {store : CacheRecordStore H} (hs : store.Coherent) {id : RecordId}
    {record : CacheRecord H} (hid : store.records.lookup id = some record)
    {b : H × SpecPagedStateMatch} (hb : b ∈ record.specBoundaries) :
    store.specLedger.count b = 1 := by
  have hself : (↑record.specBoundaries : Multiset (H × SpecPagedStateMatch)).count b = 1 :=
    Multiset.count_eq_one_of_mem (nodup_specBoundaries record) hb
  rw [← CacheRecordStore.specLedger_eraseRecord hid, Multiset.count_add, hself,
    Multiset.count_eq_zero.2]
  intro hrest
  obtain ⟨id', record', hid', hb'⟩ := CacheRecordStore.mem_specLedger.1 hrest
  obtain ⟨hne, hid'⟩ := CacheRecordStore.eraseRecord_lookup_iff.1 hid'
  -- a boundary names its record
  have h1 := record_of_mem_specBoundaries hb
  have h2 := record_of_mem_specBoundaries hb'
  rw [hs.id_eq id record hid] at h1
  rw [hs.id_eq id' record' hid'] at h2
  exact hne (h2.symm.trans h1)

theorem indexCoherent {m : ContextCacheManager H} {A : Multiset ResourceId} (h : m.Sound A) :
    IndexCoherent m where
  inverse := h.inverse
  path id record hid hne := by
    have hlen := (validateRecord_ok (h.coherent.valid id record hid)).base.resolve_left
      fun hb => hne hb.2
    refine ⟨hlen, ?_⟩
    intro i hash page hhash hpage
    refine h.paths.covers id record hid (hash, page) ?_
    exact List.mem_of_getElem? (List.getElem?_zip_eq_some.2 ⟨hhash, hpage⟩)
  supported hash page hl := by
    obtain ⟨id, record, hid, hb⟩ := h.paths.supported hash page hl
    obtain ⟨i, hi⟩ := List.mem_iff_getElem?.1 hb
    obtain ⟨hhash, hpage⟩ := List.getElem?_zip_eq_some.1 hi
    exact ⟨id, record, hid, i, hhash, hpage⟩
  id := h.coherent.id_eq
  spec id record state hid hstate k hash hk hhash := by
    rw [h.carries.count]
    refine count_specLedger h.coherent hid (CacheRecord.mem_specBoundaries.2 ?_)
    exact ⟨state, hstate, k, hk, hhash, by rw [h.coherent.id_eq id record hid]⟩
  specOnly hash entry hentry := by
    refine ⟨fun hnil => h.carries.nonempty hash (hnil ▸ hentry), ?_⟩
    intro found hfound
    have hcount := h.carries.count hash found
    rw [SpecPagedStateIndex.candidates, hentry, Option.getD_some] at hcount
    have hmem : (hash, found) ∈ m.records.specLedger := by
      rw [← Multiset.count_pos, ← hcount]
      exact List.count_pos_iff.2 hfound
    obtain ⟨id, record, hid, hb⟩ := CacheRecordStore.mem_specLedger.1 hmem
    obtain ⟨state, hstate, k, hk, hhash, hfoundEq⟩ := CacheRecord.mem_specBoundaries.1 hb
    rw [h.coherent.id_eq id record hid] at hfoundEq
    rw [hfoundEq]
    exact ⟨record, state, hid, hstate, k, hk, hhash, rfl⟩
  lruNodup := h.coherent.lru_nodup
  lru := h.coherent.lru_mem
  exact := h.coherent.exact
  hybrid := h.coherent.hybrid
  limit := h.limit

/-- Index coherence over every run: the five maps describe the stored records
in the state reached, the next call fires none of the coherence checks, and
speculative planning never replays beyond its coherent path. -/
theorem run_indexCoherent {pageSize maxRecords : Int} {capacities : ResourceDemand}
    {contract : Option SpecReuseContract} {m : ContextCacheManager H}
    (h : ContextCacheManager.make pageSize capacities maxRecords contract = .ok m)
    (ops : List (Op H)) :
    IndexCoherent (run ops (start m)).manager ∧
      (∀ op e, (call op (run ops (start m))).1 = .error e → e.coherence = false) ∧
      ∀ registered, (run ops (start m)).manager.specReuseContract = some registered →
        registered.Fits (run ops (start m)).manager.pageSize →
        ∀ hashes tokenCount policy,
          (run ops (start m)).manager.makePlan .spec hashes tokenCount policy ≠
            .error .replayExceedsPath := by
  have hs := run_sound ops (start_sound h)
  refine ⟨indexCoherent hs.manager, ?_, ?_⟩
  · intro op e he
    have hinternal := call_internal hs he
    unfold Check.internal at hinternal
    simp only [Bool.or_eq_false_iff] at hinternal
    exact hinternal.1.2
  · intro registered hregistered hfits hashes tokenCount policy hplan
    have hreplay : Outcome ((run ops (start m)).manager.makePlan .spec hashes tokenCount policy)
        (fun _ => True) fun e => e ≠ .replayExceedsPath := by
      unfold ContextCacheManager.makePlan
      simp only [hregistered]
      exact makeSpecReusePlan_replay hs.manager.coherent hs.manager.carries hfits
    rw [hplan] at hreplay
    exact hreplay rfl

theorem run_indexCoherent_publish :
    ∃ m, ContextCacheManager.make (H := Nat) 2 { baseKvPages := 2 } 1 none = .ok m ∧
      IndexCoherent (run [.acquire .vanilla [7] 3 .useCache none, .growBasePages 0 1,
        .publish 0 ⟨[7], 2⟩, .release 0] (start m)).manager := by
  have hmake : ContextCacheManager.make (H := Nat) 2 { baseKvPages := 2 } 1 none = .ok _ := rfl
  exact ⟨_, hmake, (run_indexCoherent hmake _).1⟩

end World

end EdgeLLM.Ports.ContextCache
