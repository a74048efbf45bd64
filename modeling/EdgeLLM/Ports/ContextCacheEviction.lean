import EdgeLLM.Ports.ContextCacheManager

/-!
# The manager invariant, and eviction

`ContextCacheManager.Consistent m A` is the invariant of a manager whose
leases hold the pins `A`: counters, indexes and store all describe the stored
records.  `Evolves path draft` bounds what an operation may add to the cache:
base blocks of `path`, draft pages of `draft`, nothing else.

Eviction adds nothing.  Its loop drops the base mapping of a page exactly when
the last cache reference to the page goes, so that the index afterwards is the
old one restricted to the pages still owned by a record.
-/

namespace EdgeLLM.Ports.ContextCache

open Verified Checked

set_option linter.unusedSectionVars false

variable {H : Type} [DecidableEq H]

namespace ContextCacheManager

/-- Pools, indexes and store describe the stored records and the pins `A`. -/
structure Consistent (m : ContextCacheManager H) (A : Multiset ResourceId) : Prop where
  accounts : m.pools.Accounts A m.records.cacheLedger
  inverse : m.baseIndex.Inverse
  paths : PathsIndexed m.baseIndex m.records
  carries : m.specIndex.Carries m.records.specLedger
  coherent : m.records.Coherent
  pageSize_pos : 0 < m.pageSize

/-- The invariant between operations: also within the record limit. -/
structure Sound (m : ContextCacheManager H) (A : Multiset ResourceId) : Prop
    extends Consistent m A where
  limit : m.records.size ≤ m.records.maxRecords

/-- From `m` to `m'` the cache gained at most the base blocks `path` and the
draft pages `draft`; the configuration is the same. -/
structure Evolves (path : List (H × PageId)) (draft : List PageId)
    (m m' : ContextCacheManager H) : Prop where
  indexed : ∀ hash page, m'.baseIndex.lookup hash = some page →
    m.baseIndex.lookup hash = some page ∨ (hash, page) ∈ path
  drafts : ∀ page, ResourceId.mk .draftKvPage page ∈ m'.records.cacheLedger →
    ResourceId.mk .draftKvPage page ∈ m.records.cacheLedger ∨ page ∈ draft
  pageSize : m'.pageSize = m.pageSize
  contract : m'.specReuseContract = m.specReuseContract
  maxRecords : m'.records.maxRecords = m.records.maxRecords

variable {m m' m'' : ContextCacheManager H} {A : Multiset ResourceId}
  {path : List (H × PageId)} {draft : List PageId}

theorem Evolves.refl (m : ContextCacheManager H) : Evolves path draft m m where
  indexed _ _ h := Or.inl h
  drafts _ h := Or.inl h
  pageSize := rfl
  contract := rfl
  maxRecords := rfl

/-- A step that adds nothing after one that adds `path` and `draft`. -/
theorem Evolves.trans_nil (h : Evolves path draft m m') (h' : Evolves [] [] m' m'') :
    Evolves path draft m m'' where
  indexed hash page hl := h.indexed hash page ((h'.indexed hash page hl).resolve_right (by simp))
  drafts page hp := h.drafts page ((h'.drafts page hp).resolve_right (by simp))
  pageSize := h'.pageSize.trans h.pageSize
  contract := h'.contract.trans h.contract
  maxRecords := h'.maxRecords.trans h.maxRecords

/-- A base page that enters a record comes from `path`. -/
theorem Evolves.bases (h : Evolves path draft m m') (hm' : m'.Consistent A)
    (hpaths : PathsIndexed m.baseIndex m.records) {page : PageId}
    (hp : ResourceId.mk .baseKvPage page ∈ m'.records.cacheLedger) :
    ResourceId.mk .baseKvPage page ∈ m.records.cacheLedger ∨ ∃ hash, (hash, page) ∈ path := by
  obtain ⟨hash, hl⟩ := hm'.paths.page_indexed hm'.coherent hp
  exact (h.indexed hash page hl).imp hpaths.page_cached fun hmem => ⟨hash, hmem⟩

/-! ## Rules for the component accesses -/

section Rules

variable {bad : Check → ContextCacheManager H → Prop}

theorem ensures_onPools {f : ResourcePools → Except Check ResourcePools}
    {ok : Unit → ContextCacheManager H → Prop} :
    (onPools f).Ensures ok bad m ↔
      Outcome (f m.pools) (fun pools => ok () { m with pools := pools }) fun e => bad e m := by
  rw [onPools, ensures_zoom, ensures_mutate]

theorem ensures_onRecords {α : Type} {f : CacheRecordStore H → Except Check (α × CacheRecordStore H)}
    {ok : α → ContextCacheManager H → Prop} :
    (onRecords f).Ensures ok bad m ↔
      Outcome (f m.records) (fun r => ok r.1 { m with records := r.2 }) fun e => bad e m := by
  rw [onRecords, ensures_zoom, ensures_update]

theorem ensures_onSpecIndex {f : Checked Check (SpecPagedStateIndex H) Unit}
    {ok : Unit → ContextCacheManager H → Prop} :
    (onSpecIndex f).Ensures ok bad m ↔
      f.Ensures (fun _ index => ok () { m with specIndex := index })
        (fun e index => bad e { m with specIndex := index }) m.specIndex := by
  rw [onSpecIndex, ensures_zoom]

theorem ensures_touch {id : RecordId} {record : CacheRecord H}
    {ok : Unit → ContextCacheManager H → Prop} (hid : m.records.records.lookup id = some record) :
    (touch id).Ensures ok bad m ↔ ok () { m with records := m.records.moveToBack id } := by
  rw [touch, ensures_onRecords, CacheRecordStore.touch_spec hid]
  rfl

theorem ensures_getRecord {id : RecordId} {record : CacheRecord H}
    {ok : CacheRecord H → ContextCacheManager H → Prop}
    (hid : m.records.records.lookup id = some record) :
    (getRecord id).Ensures ok bad m ↔ ok record m := by
  rw [getRecord, ensures_onRecords, CacheRecordStore.get_spec hid]
  rfl

end Rules

/-- Only the counters changed, to the ledger of other pins. -/
theorem Sound.withPools (h : m.Sound A) {B : Multiset ResourceId} {pools : ResourcePools}
    (hpools : pools.Accounts B m.records.cacheLedger) :
    ({ m with pools := pools } : ContextCacheManager H).Sound B where
  accounts := hpools
  inverse := h.inverse
  paths := h.paths
  carries := h.carries
  coherent := h.coherent
  pageSize_pos := h.pageSize_pos
  limit := h.limit

theorem evolves_withPools (m : ContextCacheManager H) (pools : ResourcePools) :
    Evolves path draft m { m with pools := pools } where
  indexed _ _ h := Or.inl h
  drafts _ h := Or.inl h
  pageSize := rfl
  contract := rfl
  maxRecords := rfl

variable {id : RecordId} {C : Multiset ResourceId} {record : CacheRecord H}

/-- Moving a record to the most recently used end keeps the invariant. -/
theorem Sound.moveToBack (h : m.Sound A) (hid : id ∈ m.records.lru) :
    ({ m with records := m.records.moveToBack id } : ContextCacheManager H).Sound A where
  accounts := h.accounts
  inverse := h.inverse
  paths := h.paths.congr rfl
  carries := h.carries
  coherent := h.coherent.moveToBack hid
  pageSize_pos := h.pageSize_pos
  limit := h.limit

theorem evolves_moveToBack (m : ContextCacheManager H) (id : RecordId) :
    Evolves path draft m { m with records := m.records.moveToBack id } where
  indexed _ _ h := Or.inl h
  drafts _ h := Or.inl h
  pageSize := rfl
  contract := rfl
  maxRecords := rfl

/-! ## Eviction -/

/-- Releasing references of the ledger, whatever else the manager holds. -/
theorem releaseCacheRefs_spec :
    ∀ (rs : List ResourceId) (m : ContextCacheManager H), m.pools.Accounts A (↑rs + C) →
      (forEach releaseCacheRef rs).Ensures
        (fun _ m' => ∃ pools, m' = { m with pools := pools } ∧ pools.Accounts A C)
        (fun _ _ => False) m := by
  intro rs
  induction rs with
  | nil => intro m h; exact ⟨m.pools, rfl, by simpa using h⟩
  | cons r rs ih =>
    intro m h
    rw [← Multiset.cons_coe, Multiset.cons_add] at h
    obtain ⟨pools, hrel, hpools⟩ := ResourcePools.releaseCacheRef_spec h
    refine ensures_bind.2 (ensures_onPools.2 ?_)
    rw [hrel]
    exact ih { m with pools := pools } hpools

/-- The base-page loop: afterwards the index is the old one restricted to the
pages with references left. -/
theorem releaseBasePages_spec :
    ∀ (pages : List PageId) (m : ContextCacheManager H),
      m.pools.Accounts A (↑(pages.map (ResourceId.mk .baseKvPage)) + C) → m.baseIndex.Inverse →
      (∀ hash page, m.baseIndex.lookup hash = some page → ResourceId.mk .baseKvPage page ∈
          (↑(pages.map (ResourceId.mk .baseKvPage)) + C : Multiset ResourceId)) →
      (forEach releaseBasePage pages).Ensures
        (fun _ m' => ∃ pools index, m' = { m with pools := pools, baseIndex := index } ∧
          pools.Accounts A C ∧ index.Inverse ∧ ∀ hash page, index.lookup hash = some page ↔
            m.baseIndex.lookup hash = some page ∧ ResourceId.mk .baseKvPage page ∈ C)
        (fun _ _ => False) m := by
  intro pages
  induction pages with
  | nil =>
    intro m hacc hinv hown
    refine ⟨m.pools, m.baseIndex, rfl, by simpa using hacc, hinv, fun hash page => ?_⟩
    refine ⟨fun hl => ⟨hl, ?_⟩, fun h => h.1⟩
    simpa using hown hash page hl
  | cons p pages ih =>
    intro m hacc hinv hown
    rw [List.map_cons, ← Multiset.cons_coe, Multiset.cons_add] at hacc hown
    set D : Multiset ResourceId := ↑(pages.map (ResourceId.mk .baseKvPage)) + C with hD
    obtain ⟨pools, hrel, hpools⟩ := ResourcePools.releaseCacheRef_spec hacc
    have hcount := hpools.cacheRefCount_eq ⟨.baseKvPage, p⟩
    refine ensures_bind.2 (ensures_bind.2 (ensures_onPools.2 ?_))
    rw [hrel, outcome_ok, ensures_bind, ensures_read]
    by_cases hzero : pools.cacheRefCount ⟨.baseKvPage, p⟩ = 0
    · -- the last reference: the mapping goes
      have hnot : ResourceId.mk .baseKvPage p ∉ D := by
        rw [← Multiset.count_eq_zero, ← hcount]
        exact hzero
      simp only [hzero, decide_true, if_true]
      refine (ih { m with pools := pools, baseIndex := m.baseIndex.erasePage p } hpools
        (hinv.erasePage p) ?_).mono ?_ fun _ _ hf => hf
      · intro hash page hl
        obtain ⟨hl, hne⟩ := hinv.lookup_erasePage.1 hl
        refine (Multiset.mem_cons.1 (hown hash page hl)).resolve_left ?_
        intro he
        exact hne (congrArg ResourceId.index he)
      · rintro _ m' ⟨pools', index, rfl, hacc', hinv', hlook⟩
        refine ⟨pools', index, rfl, hacc', hinv', fun hash page => ?_⟩
        rw [hlook]
        show (m.baseIndex.erasePage p).lookup hash = some page ∧ _ ↔ _
        rw [hinv.lookup_erasePage]
        refine ⟨fun h => ⟨h.1.1, h.2⟩, fun h => ⟨⟨h.1, ?_⟩, h.2⟩⟩
        rintro rfl
        exact hnot (Multiset.mem_add.2 (Or.inr h.2))
    · have hmem : ResourceId.mk .baseKvPage p ∈ D := by
        rw [← Multiset.count_pos, ← hcount]
        exact Nat.pos_of_ne_zero hzero
      simp only [hzero, decide_false, Bool.false_eq_true, if_false]
      refine (ih { m with pools := pools } hpools hinv ?_).mono ?_ fun _ _ hf => hf
      · intro hash page hl
        rcases Multiset.mem_cons.1 (hown hash page hl) with he | hmem'
        · exact he ▸ hmem
        · exact hmem'
      · rintro _ m' ⟨pools', index, rfl, hacc', hinv', hlook⟩
        exact ⟨pools', index, rfl, hacc', hinv', hlook⟩

/-- Evicting a stored record cannot throw and leaves exactly the state of the
remaining records. -/
theorem evictRecord_spec (h : m.Consistent A) (hid : m.records.records.lookup id = some record) :
    (evictRecord id).Ensures
      (fun _ m' => m'.Consistent A ∧ m'.records = m.records.eraseRecord id record ∧
        Evolves [] [] m m') (fun _ _ => False) m := by
  have hledger := CacheRecordStore.cacheLedger_eraseRecord hid
  have hspec := CacheRecordStore.specLedger_eraseRecord hid
  set records' := m.records.eraseRecord id record with hrecords'
  set others : List ResourceId :=
    (specPages record.specState).map (ResourceId.mk .draftKvPage) ++
      record.recurrentSnapshotSlot.toList.map (ResourceId.mk .recurrentSnapshot) ++
      record.partialKvSnapshotSlot.toList.map (ResourceId.mk .partialKvSnapshot) with hothers
  -- the ledger splits into the base pages, the other resources and the rest
  have hsplit : m.records.cacheLedger = ↑(record.basePagePath.map (ResourceId.mk .baseKvPage)) +
        (↑others + records'.cacheLedger) := by
    rw [← hledger, ← add_assoc, Multiset.coe_add, hothers]
    simp only [CacheRecord.resources, List.append_assoc]
  have hbase : ∀ page, ResourceId.mk .baseKvPage page ∈
      (↑others + records'.cacheLedger : Multiset ResourceId) ↔
      ResourceId.mk .baseKvPage page ∈ records'.cacheLedger := by
    intro page
    rw [Multiset.mem_add, or_iff_right]
    simp [hothers]
  unfold evictRecord
  simp only [ensures_bind, ensures_read, ensures_modify]
  rw [ensures_onRecords, h.coherent.erase_spec hid, outcome_ok, ensures_onSpecIndex]
  have hcarries := h.carries
  rw [← hspec] at hcarries
  refine (SpecPagedStateIndex.erase_spec hcarries).mono ?_ fun _ _ hf => hf
  intro _ specIndex hspecIndex
  have hacc := h.accounts
  rw [hsplit] at hacc
  refine (releaseBasePages_spec record.basePagePath
    { m with records := records', specIndex := specIndex } hacc h.inverse ?_).mono ?_
      fun _ _ hf => hf
  · intro hash page hl
    rw [← hsplit]
    exact h.paths.page_cached hl
  rintro _ m1 ⟨pools1, index, rfl, hacc1, hinv1, hlook⟩
  refine (releaseCacheRefs_spec others _ hacc1).mono ?_ fun _ _ hf => hf
  rintro _ m2 ⟨pools2, rfl, hacc2⟩
  have hlook' : ∀ hash page, index.lookup hash = some page ↔ m.baseIndex.lookup hash = some page ∧
        ResourceId.mk .baseKvPage page ∈ records'.cacheLedger := by
    intro hash page
    rw [hlook, hbase]
  refine ⟨?_, rfl, ?_⟩
  · exact
      { accounts := hacc2
        inverse := hinv1
        paths := h.paths.eraseRecord h.coherent h.inverse hlook'
        carries := hspecIndex
        coherent := h.coherent.eraseRecord hid
        pageSize_pos := h.pageSize_pos }
  · exact
      { indexed := fun hash page hl => Or.inl ((hlook' hash page).1 hl).1
        drafts := fun page hp => Or.inl (by
          rw [← hledger]
          exact Multiset.mem_add.2 (Or.inr hp))
        pageSize := rfl
        contract := rfl
        maxRecords := rfl }

theorem size_eraseRecord (h : m.records.Coherent)
    (hid : m.records.records.lookup id = some record) :
    (m.records.eraseRecord id record).size + 1 = m.records.size := by
  have hmem : id ∈ m.records.lru := (h.lru_mem id).2 ⟨record, hid⟩
  rw [h.size_eq, (h.eraseRecord hid).size_eq]
  show (m.records.lru.erase id).length + 1 = m.records.lru.length
  rw [List.length_erase_of_mem hmem]
  have := List.length_pos_of_mem hmem
  omega

/-- Applying an eviction plan over distinct stored records. -/
theorem applyEviction_spec :
    ∀ (victims : List RecordId) (m : ContextCacheManager H), m.Sound A → victims.Nodup →
      (∀ id ∈ victims, id ∈ m.records.lru) → (forEach evictRecord victims).Ensures
        (fun _ m' => m'.Sound A ∧ Evolves [] [] m m') (fun _ _ => False) m := by
  intro victims
  induction victims with
  | nil => intro m h _ _; exact ⟨h, .refl m⟩
  | cons id rest ih =>
    intro m h hnodup hmem
    obtain ⟨hnot, hnodup⟩ := List.nodup_cons.1 hnodup
    obtain ⟨record, hid⟩ := (h.coherent.lru_mem id).1 (hmem id List.mem_cons_self)
    refine (evictRecord_spec h.toConsistent hid).bind ?_
    rintro _ m1 ⟨hm1, hrecords, hev⟩
    have hsize := size_eraseRecord h.coherent hid
    have hsound : m1.Sound A := by
      refine { toConsistent := hm1, limit := ?_ }
      rw [hev.maxRecords, hrecords]
      have := h.limit
      omega
    refine (ih m1 hsound hnodup ?_).mono ?_ fun _ _ hf => hf
    · intro x hx
      have hne : x ≠ id := fun he => hnot (he ▸ hx)
      rw [hrecords]
      exact (List.mem_erase_of_ne hne).2 (hmem x (List.mem_cons_of_mem _ hx))
    · rintro _ m2 ⟨hm2, hev2⟩
      exact ⟨hm2, hev.trans_nil hev2⟩

end ContextCacheManager

end EdgeLLM.Ports.ContextCache
