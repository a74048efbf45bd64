import EdgeLLM.Ports.ContextCacheEviction

/-!
# Publication

A publication projects the producer's pages onto the canonical ones, then
commits references, mappings, record and speculative entries as one
transaction.  `commitPreparedPublication_spec` is the transaction theorem: it
either commits and keeps the manager sound, or throws and its rollback guard
restores the manager (`RolledBack`); only the LRU position of a duplicate
record may have moved.
-/

namespace EdgeLLM.Ports.ContextCache

open Verified Checked

set_option linter.unusedSectionVars false

variable {H : Type} [DecidableEq H]

namespace ContextCacheManager

variable {m m' : ContextCacheManager H} {A : Multiset ResourceId}

/-! ## The projection -/

/-- The projection of the blocks `done`: every block has a canonical page,
indexed already or about to be, and the missing hashes are new and distinct. -/
structure Projects (index : BaseBlockIndex H) (done : List (H × PageId))
    (projection : BaseProjection H) : Prop where
  length : projection.canonicalPages.length = done.length
  blocks : ∀ b ∈ (done.map Prod.fst).zip projection.canonicalPages,
    index.lookup b.1 = some b.2 ∨ b ∈ projection.missingMappings
  listed : ∀ b ∈ projection.missingMappings,
    b ∈ (done.map Prod.fst).zip projection.canonicalPages
  produced : ∀ b ∈ projection.missingMappings, b ∈ done
  missing : ∀ b ∈ projection.missingMappings, index.lookup b.1 = none
  nodup : (projection.missingMappings.map Prod.fst).Nodup

section Projection

variable {index : BaseBlockIndex H} {done : List (H × PageId)} {projection : BaseProjection H}

theorem Projects.nil (index : BaseBlockIndex H) : Projects index [] {} where
  length := rfl
  blocks := by simp
  listed := by simp
  produced := by simp
  missing := by simp
  nodup := List.nodup_nil

/-- Appending one canonical page, with the missing mappings `missing`. -/
private theorem Projects.push (h : Projects index done projection) (block : H × PageId)
    (page : PageId) {missing : List (H × PageId)}
    (hsub : ∀ b ∈ projection.missingMappings, b ∈ missing)
    (hnew : ∀ b ∈ missing, b ∈ projection.missingMappings ∨
      (b = block ∧ page = block.2 ∧ index.lookup block.1 = none))
    (hpage : index.lookup block.1 = some page ∨ (block.1, page) ∈ missing)
    (hnodup : (missing.map Prod.fst).Nodup) : Projects index (done ++ [block])
      { canonicalPages := projection.canonicalPages ++ [page], missingMappings := missing } := by
  have hzip : ((done ++ [block]).map Prod.fst).zip (projection.canonicalPages ++ [page]) =
      (done.map Prod.fst).zip projection.canonicalPages ++ [(block.1, page)] := by
    rw [List.map_append, List.zip_append (by simp [h.length])]
    rfl
  refine
    { length := by simp [h.length]
      blocks := ?_
      listed := ?_
      produced := ?_
      missing := ?_
      nodup := hnodup }
  · intro b hb
    rw [hzip, List.mem_append, List.mem_singleton] at hb
    rcases hb with hb | rfl
    · exact (h.blocks b hb).imp_right (hsub b)
    · exact hpage
  · intro b hb
    rw [hzip, List.mem_append, List.mem_singleton]
    rcases hnew b hb with hb | ⟨rfl, rfl, -⟩
    · exact Or.inl (h.listed b hb)
    · exact Or.inr rfl
  · intro b hb
    rcases hnew b hb with hb | ⟨rfl, -, -⟩
    · exact List.mem_append_left _ (h.produced b hb)
    · simp
  · intro b hb
    rcases hnew b hb with hb | ⟨rfl, -, hnone⟩
    · exact h.missing b hb
    · exact hnone

theorem projectBlock_spec (h : Projects index done projection) (block : H × PageId) :
    Projects index (done ++ [block]) (projectBlock index projection block) := by
  unfold projectBlock
  cases hl : index.lookup block.1 with
  | some canonical =>
    exact h.push block canonical (fun _ hb => hb) (fun _ hb => Or.inl hb) (Or.inl hl) h.nodup
  | none =>
    cases hfind : projection.missingMappings.find? fun missing => missing.1 = block.1 with
    | some prepared =>
      have hmem := List.mem_of_find?_eq_some hfind
      have hhash : prepared.1 = block.1 := by simpa using List.find?_some hfind
      refine h.push block prepared.2 (fun _ hb => hb) (fun _ hb => Or.inl hb) (Or.inr ?_)
        h.nodup
      rw [← hhash]
      exact hmem
    | none =>
      have hfresh : ∀ b ∈ projection.missingMappings, b.1 ≠ block.1 := by
        simpa using hfind
      refine h.push block block.2 (fun _ hb => List.mem_append_left _ hb) ?_
        (Or.inr (List.mem_append_right _ (List.mem_singleton.2 rfl))) ?_
      · intro b hb
        rw [List.mem_append, List.mem_singleton] at hb
        exact hb.imp_right fun he => ⟨he, rfl, hl⟩
      · rw [List.map_append, List.nodup_append]
        refine ⟨h.nodup, List.nodup_singleton _, ?_⟩
        intro x hx y hy hxy
        obtain ⟨b, hb, rfl⟩ := List.mem_map.1 hx
        rw [List.map_cons, List.map_nil, List.mem_singleton] at hy
        exact hfresh b hb (hxy.trans hy)

/-- The projection of a whole path. -/
theorem prepareBaseProjection_outcome (index : BaseBlockIndex H) (hashes : List H)
    (pages : List PageId) : Outcome (prepareBaseProjection index hashes pages)
      (fun projection => hashes.length ≤ pages.length ∧
        Projects index (hashes.zip pages) projection) fun e => e.internal = false := by
  have hrun : ∀ (rest done : List (H × PageId)) (projection : BaseProjection H),
      Projects index done projection →
        Projects index (done ++ rest) (rest.foldl (projectBlock index) projection) := by
    intro rest
    induction rest with
    | nil => intro done projection h; simpa using h
    | cons block rest ih =>
      intro done projection h
      have := ih _ _ (projectBlock_spec h block)
      simpa using this
  unfold prepareBaseProjection
  rw [outcome_bind, outcome_requireThat]
  refine ⟨fun hlen => ?_, fun _ => rfl⟩
  rw [outcome_ok]
  exact ⟨hlen, by simpa using hrun (hashes.zip pages) [] {} (.nil index)⟩

end Projection

/-! ## The transaction -/

/-- What the three publications prepare. -/
structure Prepared (m : ContextCacheManager H) (A : Multiset ResourceId)
    (publication : PreparedPublication H) : Prop where
  resources : publication.cacheResources = publication.record.resources
  owned : ∀ r ∈ publication.cacheResources, r ∈ A + m.records.cacheLedger
  blocks : ∀ b ∈ publication.record.blocks,
    m.baseIndex.lookup b.1 = some b.2 ∨ b ∈ publication.missingBaseMappings
  listed : ∀ b ∈ publication.missingBaseMappings, b ∈ publication.record.blocks
  missing : ∀ b ∈ publication.missingBaseMappings, m.baseIndex.lookup b.1 = none
  nodup : (publication.missingBaseMappings.map Prod.fst).Nodup
  victim : ∀ id, publication.recordLimitVictim = some id → id ∈ m.records.lru
  room : publication.recordLimitVictim = none →
    m.records.maxRecords = 0 ∨ m.records.size < m.records.maxRecords

/-- A failed publication of `record`: the manager is back where it was, except
that the duplicate of `record` may have become the most recently used one. -/
def RolledBack (record : CacheRecord H) (m m' : ContextCacheManager H) : Prop :=
  m' = m ∨ ∃ id ∈ m.records.lru, m.records.duplicate record = some id ∧
    m' = { m with records := m.records.moveToBack id }

namespace Transaction

variable {t : Transaction H} {publication : PreparedPublication H}

/-- Progress of the reference loop: `done` references are added to `pools`
and releasing them in reverse order gives `pools` back. -/
structure AddedRefs (m : ContextCacheManager H) (A : Multiset ResourceId)
    (done : List ResourceId) (t : Transaction H) : Prop where
  guard : t.guard = { addedCacheRefCount := done.length }
  manager : t.manager = { m with pools := t.manager.pools }
  accounts : t.manager.pools.Accounts A (↑done + m.records.cacheLedger)
  undo : done.reverse.foldlM ResourcePools.releaseCacheRef t.manager.pools = .ok m.pools

theorem addCacheRef_spec {done : List ResourceId} {r : ResourceId} (h : AddedRefs m A done t)
    (hmem : r ∈ A + m.records.cacheLedger) :
    (addCacheRef r).Ensures (fun _ t' => AddedRefs m A (done ++ [r]) t')
      (fun e t' => e.internal = false ∧ AddedRefs m A done t') t := by
  have hmem' : r ∈ A + (↑done + m.records.cacheLedger) := by
    simp only [Multiset.mem_add] at hmem ⊢
    tauto
  unfold addCacheRef onManager note
  simp only [ensures_bind, ensures_zoom, ensures_onPools, ensures_modify]
  rcases ResourcePools.addCacheRef_spec h.accounts hmem' with ⟨pools, hadd, hpools⟩ | hover
  · rw [hadd, outcome_ok]
    have hundo := h.accounts.releaseCacheRef_addCacheRef hmem' hadd
    refine
      { guard := by simp [h.guard]
        manager := by rw [h.manager]
        accounts := ?_
        undo := ?_ }
    · show pools.Accounts A (↑(done ++ [r]) + m.records.cacheLedger)
      rwa [← Multiset.coe_add, add_assoc, add_left_comm, ← Multiset.singleton_add] at *
    · rw [List.reverse_append, List.reverse_singleton, List.singleton_append, List.foldlM_cons]
      show (pools.releaseCacheRef r >>= _) = _
      rw [hundo]
      exact h.undo
  · rw [hover, outcome_error]
    exact ⟨rfl, h⟩

/-- Progress of the mapping loop, on top of all references. -/
structure InsertedMappings (m1 : ContextCacheManager H) (refs : Nat)
    (done : List (H × PageId)) (t : Transaction H) : Prop where
  guard : t.guard = { addedCacheRefCount := refs, insertedMappingCount := done.length }
  manager : t.manager = { m1 with baseIndex := t.manager.baseIndex }
  inverse : t.manager.baseIndex.Inverse
  lookup : ∀ hash page, t.manager.baseIndex.lookup hash = some page ↔
    m1.baseIndex.lookup hash = some page ∨ (hash, page) ∈ done
  undo : done.reverse.foldl (fun index b => index.erasePage b.2) t.manager.baseIndex =
    m1.baseIndex

theorem insertMapping_spec {m1 : ContextCacheManager H} {refs : Nat} {done : List (H × PageId)}
    {b : H × PageId} (h : InsertedMappings m1 refs done t)
    (hmissing : m1.baseIndex.lookup b.1 = none) (hnew : b.1 ∉ done.map Prod.fst) :
    (insertMapping b).Ensures (fun _ t' => InsertedMappings m1 refs (done ++ [b]) t')
      (fun e t' => e.internal = false ∧ InsertedMappings m1 refs done t') t := by
  have hnone : t.manager.baseIndex.lookup b.1 = none := by
    cases hl : t.manager.baseIndex.lookup b.1 with
    | none => rfl
    | some page =>
      rcases (h.lookup b.1 page).1 hl with hold | hdone
      · rw [hmissing] at hold
        cases hold
      · exact absurd (List.mem_map_of_mem (f := Prod.fst) hdone) hnew
  unfold insertMapping onManager note
  simp only [ensures_bind, ensures_zoom, ensures_update, ensures_modify, ensures_check]
  rcases BaseBlockIndex.insert_cases t.manager.baseIndex b.1 b.2 with
    ⟨canonical, hl, -⟩ | ⟨-, hrev, hins⟩ | hneg | hdup
  · rw [hnone] at hl
    cases hl
  · rw [hins, outcome_ok]
    refine ⟨fun _ => ?_, fun hc => absurd ⟨rfl, rfl⟩ hc⟩
    refine
      { guard := by simp [h.guard]
        manager := by rw [h.manager]
        inverse := h.inverse.insertFresh hnone hrev
        lookup := ?_
        undo := ?_ }
    · intro hash page
      show (t.manager.baseIndex.insertFresh b.1 b.2).lookup hash = some page ↔ _
      rw [BaseBlockIndex.lookup_insertFresh hnone, h.lookup, List.mem_append, List.mem_singleton]
      constructor
      · rintro (⟨rfl, rfl⟩ | hold | hdone)
        · exact Or.inr (Or.inr rfl)
        · exact Or.inl hold
        · exact Or.inr (Or.inl hdone)
      · rintro (hold | hdone | rfl)
        · exact Or.inr (Or.inl hold)
        · exact Or.inr (Or.inr hdone)
        · exact Or.inl ⟨rfl, rfl⟩
    · rw [List.reverse_append, List.reverse_singleton, List.singleton_append, List.foldl_cons]
      show List.foldl _ ((t.manager.baseIndex.insertFresh b.1 b.2).erasePage b.2) _ = _
      rw [BaseBlockIndex.erasePage_insertFresh hnone hrev]
      exact h.undo
  · rw [hneg, outcome_error]
    exact ⟨rfl, h⟩
  · rw [hdup, outcome_error]
    exact ⟨rfl, h⟩

theorem releaseAll_spec {pools : ResourcePools} :
    ∀ (rs : List ResourceId) (t : Transaction H),
      rs.foldlM ResourcePools.releaseCacheRef t.manager.pools = .ok pools →
      (forEach (fun r => onManager (releaseCacheRef r)) rs).Ensures
        (fun _ t' => t' = { t with manager := { t.manager with pools := pools } })
        (fun _ _ => False) t := by
  intro rs
  induction rs with
  | nil =>
    intro t h
    rw [List.foldlM_nil] at h
    cases h
    rfl
  | cons r rs ih =>
    intro t h
    rw [List.foldlM_cons, bind_eq_ok] at h
    obtain ⟨pools', hr, hrest⟩ := h
    refine ensures_bind.2 ?_
    simp only [onManager, ensures_zoom, releaseCacheRef, ensures_onPools, hr, outcome_ok]
    exact ih { t with manager := { t.manager with pools := pools' } } hrest

theorem eraseAll_spec :
    ∀ (bs : List (H × PageId)) (t : Transaction H),
      (forEach (fun b : H × PageId => onManager (erasePage b.2)) bs).Ensures
        (fun _ t' => t' = { t with manager := { t.manager with
          baseIndex := bs.foldl (fun index b => index.erasePage b.2) t.manager.baseIndex } })
        (fun _ _ => False) t := by
  intro bs
  induction bs with
  | nil => intro t; rfl
  | cons b bs ih =>
    intro t
    refine ensures_bind.2 ?_
    simp only [onManager, ensures_zoom, erasePage, ensures_modify]
    exact ih _

/-- The guard undoes the counted references and mappings. -/
theorem rollback_spec (index : BaseBlockIndex H) (pools : ResourcePools)
    (hspec : t.guard.specIndexed = false) (hrecord : t.guard.insertedRecord = 0)
    (hindex : (publication.missingBaseMappings.take t.guard.insertedMappingCount).reverse.foldl
      (fun index b => index.erasePage b.2) t.manager.baseIndex = index)
    (hpools : (publication.cacheResources.take t.guard.addedCacheRefCount).reverse.foldlM
      ResourcePools.releaseCacheRef t.manager.pools = .ok pools) :
    (rollback publication).Ensures
      (fun _ t' => t'.manager = { t.manager with baseIndex := index, pools := pools })
      (fun _ _ => False) t := by
  unfold rollback
  simp only [ensures_bind, ensures_read, hspec, hrecord, ne_eq, not_true_eq_false,
    false_and, Bool.false_eq_true, if_false]
  refine (eraseAll_spec _ t).mono ?_ fun _ _ hf => hf
  rintro _ t1 rfl
  rw [hindex]
  refine (releaseAll_spec _ { t with manager := { t.manager with baseIndex := index } }
    hpools).mono ?_ fun _ _ hf => hf
  rintro _ t2 rfl
  rfl

/-- The speculative boundaries of a record with a fresh id are new. -/
theorem boundaries_fresh {store : CacheRecordStore H} (hs : store.Coherent)
    {record : CacheRecord H} (hid : store.records.lookup record.id = none) :
    ∀ b ∈ record.specBoundaries, b ∉ store.specLedger := by
  intro b hb hmem
  obtain ⟨id, old, hold, hb'⟩ := CacheRecordStore.mem_specLedger.1 hmem
  have hsame : record.id = id := by
    rw [← record_of_mem_specBoundaries hb, record_of_mem_specBoundaries hb', hs.id_eq id old hold]
  rw [hsame, hold] at hid
  cases hid

/-- What the committed transaction leaves: the record is in, every component
describes it. -/
structure Committed (m : ContextCacheManager H) (A : Multiset ResourceId)
    (publication : PreparedPublication H) (id : RecordId) (m' : ContextCacheManager H) : Prop where
  consistent : m'.Consistent A
  id_eq : id = m.records.nextId
  fresh : m.records.records.lookup m.records.nextId = none
  records : m'.records = m.records.insertFresh publication.record
  evolves : Evolves publication.missingBaseMappings (specPages publication.record.specState) m m'

theorem rollback_refs {k : Nat} (ht : AddedRefs m A (publication.cacheResources.take k) t) :
    (rollback publication).Ensures (fun _ t' => t'.manager = m) (fun _ _ => False) t := by
  have hk : publication.cacheResources.take t.guard.addedCacheRefCount =
      publication.cacheResources.take k := by
    rw [ht.guard, List.length_take, List.take_eq_take_iff]
    simp
  refine (rollback_spec t.manager.baseIndex m.pools (by simp [ht.guard]) (by simp [ht.guard])
    (by simp [ht.guard]) (by rw [hk]; exact ht.undo)).mono ?_ fun _ _ hf => hf
  intro _ t' ht'
  rw [ht', ht.manager]

/-- Rolling back after all references and a part of the mappings, whatever
happened to the store. -/
theorem rollback_mappings {t1 t : Transaction H} {k : Nat} (records : CacheRecordStore H)
    (ht1 : AddedRefs m A publication.cacheResources t1)
    (ht : InsertedMappings t1.manager publication.cacheResources.length
      (publication.missingBaseMappings.take k) t) :
    (rollback publication).Ensures
      (fun _ t' => t'.manager = { m with records := records }) (fun _ _ => False)
      { t with manager := { t.manager with records := records } } := by
  have hk : publication.missingBaseMappings.take t.guard.insertedMappingCount =
      publication.missingBaseMappings.take k := by
    rw [ht.guard, List.length_take, List.take_eq_take_iff]
    simp
  have hall : publication.cacheResources.take t.guard.addedCacheRefCount =
      publication.cacheResources := by
    rw [ht.guard, List.take_length]
  have hpools : t.manager.pools = t1.manager.pools := by rw [ht.manager]
  refine (rollback_spec (t := { t with manager := { t.manager with records := records } })
    t1.manager.baseIndex m.pools (by simp [ht.guard]) (by simp [ht.guard])
    (by simp only [hk]; exact ht.undo) ?_).mono ?_ fun _ _ hf => hf
  · show (publication.cacheResources.take t.guard.addedCacheRefCount).reverse.foldlM _
      t.manager.pools = _
    rw [hall, hpools]
    exact ht1.undo
  · intro _ t' ht'
    rw [ht', ht.manager, ht1.manager]

/-- The store part of the transaction, once references and mappings are in. -/
theorem insert_record_spec (h : m.Sound A) (hprep : Prepared m A publication)
    {t1 t : Transaction H} (ht1 : AddedRefs m A publication.cacheResources t1)
    (ht : InsertedMappings t1.manager publication.cacheResources.length
      publication.missingBaseMappings t)
    (hfree : m.records.KeysFree publication.record)
    (hvalid : validateRecord publication.record = .ok ()) (specIndex : SpecPagedStateIndex H)
    (hspec : specIndex.Carries
      (↑({ publication.record with id := m.records.nextId } : CacheRecord H).specBoundaries +
        m.records.specLedger)) :
    Committed m A publication m.records.nextId
      { t.manager with records := m.records.insertFresh publication.record
                       specIndex := specIndex } := by
  have hledger : (m.records.insertFresh publication.record).cacheLedger =
      ↑publication.record.resources + m.records.cacheLedger :=
    CacheRecordStore.cacheLedger_insertFresh hfree.id
  have hlook : ∀ hash page, t.manager.baseIndex.lookup hash = some page ↔
      m.baseIndex.lookup hash = some page ∨ (hash, page) ∈ publication.missingBaseMappings := by
    intro hash page
    rw [ht.lookup, ht1.manager]
  have hgrow : ∀ hash page, t.manager.baseIndex.lookup hash = some page ↔
      m.baseIndex.lookup hash = some page ∨ (hash, page) ∈ publication.record.blocks := by
    intro hash page
    rw [hlook]
    constructor
    · exact fun hl => hl.imp_right (hprep.listed _)
    · rintro (hl | hb)
      · exact Or.inl hl
      · exact hprep.blocks _ hb
  have hpools : t.manager.pools.Accounts A
      (m.records.insertFresh publication.record).cacheLedger := by
    rw [hledger, ← hprep.resources, ht.manager]
    exact ht1.accounts
  have hconfig : t.manager.pageSize = m.pageSize ∧
      t.manager.specReuseContract = m.specReuseContract := by
    rw [ht.manager, ht1.manager]
    exact ⟨rfl, rfl⟩
  refine
    { consistent := ?_
      id_eq := rfl
      fresh := hfree.id
      records := rfl
      evolves := ?_ }
  · exact
      { accounts := hpools
        inverse := ht.inverse
        paths := h.paths.insertFresh hfree.id hgrow
        carries := by
          show specIndex.Carries (m.records.insertFresh publication.record).specLedger
          rw [CacheRecordStore.specLedger_insertFresh hfree.id]
          exact hspec
        coherent := h.coherent.insertFresh hfree hvalid
        pageSize_pos := by rw [hconfig.1]; exact h.pageSize_pos }
  · refine
      { indexed := fun hash page hl => (hlook hash page).1 hl
        drafts := ?_
        pageSize := hconfig.1
        contract := hconfig.2
        maxRecords := rfl }
    intro page hp
    change _ ∈ (m.records.insertFresh publication.record).cacheLedger at hp
    rw [hledger, Multiset.mem_add, Multiset.mem_coe, CacheRecord.draft_mem_resources] at hp
    exact hp.symm

theorem ensures_onManager {α : Type} {f : Checked Check (ContextCacheManager H) α}
    {ok : α → Transaction H → Prop} {bad : Check → Transaction H → Prop} :
    (onManager f).Ensures ok bad t ↔
      f.Ensures (fun a m => ok a { t with manager := m }) (fun e m => bad e { t with manager := m })
        t.manager := by
  rw [onManager, ensures_zoom]

theorem storeRecord_inserts (h : m.Sound A) (hprep : Prepared m A publication)
    {t1 : Transaction H} (ht1 : AddedRefs m A publication.cacheResources t1)
    (ht : InsertedMappings t1.manager publication.cacheResources.length
      publication.missingBaseMappings t) (hfree : m.records.KeysFree publication.record)
    (hvalid : validateRecord publication.record = .ok ())
    (hins : m.records.insert publication.record =
      .ok (⟨m.records.nextId, true⟩, m.records.insertFresh publication.record)) :
    (storeRecord publication.record).Ensures
      (fun id t' => Committed m A publication id t'.manager) (fun _ _ => False) t := by
  have hrecords : t.manager.records = m.records := by rw [ht.manager, ht1.manager]
  have hcarries : t.manager.specIndex.Carries m.records.specLedger := by
    rw [ht.manager, ht1.manager]
    exact h.carries
  unfold storeRecord
  rw [ensures_bind, ensures_onManager, ensures_onRecords, hrecords, hins, outcome_ok, ensures_bind]
  refine ensures_check.2 ⟨fun _ => ?_, fun hc => absurd rfl hc⟩
  rw [ensures_bind, note, ensures_modify, ensures_bind,
    ensures_onManager, ensures_getRecord CacheRecordStore.insertFresh_lookup_self]
  have hdone := fun specIndex => insert_record_spec h hprep ht1 ht hfree hvalid specIndex
  by_cases hstate : publication.record.specState.isSome = true
  · rw [if_pos hstate, ensures_bind, ensures_onManager, ensures_onSpecIndex]
    have hindexed : (SpecPagedStateIndex.insert
        { publication.record with id := m.records.nextId }).Ensures
        (fun _ specIndex => specIndex.Carries
          (↑({ publication.record with id := m.records.nextId } :
            CacheRecord H).specBoundaries + m.records.specLedger))
        (fun _ _ => False) t.manager.specIndex :=
      SpecPagedStateIndex.insert_spec hcarries hfree.nextId
        (fun _ hs => (validateRecord_ok hvalid).spec_logical hs)
        (nodup_specBoundaries _) (boundaries_fresh h.coherent hfree.id)
    refine hindexed.mono ?_ fun _ _ hf => hf.elim
    intro _ specIndex hspec
    exact hdone specIndex hspec
  · rw [if_neg hstate]
    refine hdone _ ?_
    rw [Bool.not_eq_true, Option.isSome_eq_false_iff, Option.isNone_iff_eq_none] at hstate
    simpa [CacheRecord.specBoundaries, hstate] using hcarries

/-- The store part of the transaction: a new record goes in, or the step
throws with at most a duplicate touched. -/
theorem storeRecord_spec (h : m.Sound A) (hprep : Prepared m A publication)
    {t1 : Transaction H} (ht1 : AddedRefs m A publication.cacheResources t1)
    (ht : InsertedMappings t1.manager publication.cacheResources.length
      publication.missingBaseMappings t) :
    (storeRecord publication.record).Ensures
      (fun id t' => Committed m A publication id t'.manager)
      (fun e t' => e.internal = false ∧ ∃ records,
        t' = { t with manager := { t.manager with records := records } } ∧
          RolledBack publication.record m { m with records := records }) t := by
  have hrecords : t.manager.records = m.records := by rw [ht.manager, ht1.manager]
  rcases h.coherent.insert_spec publication.record with
    ⟨hfree, hvalid, hins⟩ | ⟨dup, old, hdup, hold, hins⟩ | ⟨e, hins, he⟩
  · exact (storeRecord_inserts h hprep ht1 ht hfree hvalid hins).mono (fun _ _ hid => hid)
      fun _ _ hf => hf.elim
  · -- a duplicate of the exact key: touched, then the check throws
    unfold storeRecord
    rw [ensures_bind, ensures_onManager, ensures_onRecords, hrecords, hins, outcome_ok,
      ensures_bind]
    refine ensures_check.2 ⟨fun hc => by simp at hc, fun _ => ⟨rfl, _, rfl, Or.inr ?_⟩⟩
    exact ⟨dup, (h.coherent.lru_mem dup).2 ⟨old, hold⟩, hdup, rfl⟩
  · unfold storeRecord
    rw [ensures_bind, ensures_onManager, ensures_onRecords, hrecords, hins, outcome_error]
    refine ⟨?_, m.records, ?_, Or.inl rfl⟩
    · rcases he with hv | rfl
      · have := validateRecord_outcome publication.record
        rwa [hv] at this
      · rfl
    · rw [← hrecords]

theorem guarded_commit_spec (h : m.Sound A) (hprep : Prepared m A publication) :
    (onThrow .terminated (commit publication) (rollback publication)).Ensures
      (fun id t' => Committed m A publication id t'.manager)
      (fun e t' => e.internal = false ∧ RolledBack publication.record m t'.manager)
      ({ manager := m } : Transaction H) := by
  rw [ensures_onThrow]
  unfold commit
  rw [ensures_bind]
  -- the reference loop
  have hrefs := Ensures.forEachProgress (AddedRefs m A) publication.cacheResources
    (fun done r rest t hall ht => addCacheRef_spec ht
      (hprep.owned r (by rw [hall]; simp))) ({ manager := m } : Transaction H)
    { guard := rfl, manager := rfl, accounts := by simpa using h.accounts, undo := rfl }
  refine hrefs.mono ?_ ?_
  rotate_left
  · rintro e t ⟨he, k, ht⟩
    exact (rollback_refs ht).mono (fun _ t' ht' => ⟨he, Or.inl ht'⟩) fun _ _ hf => hf.elim
  intro _ t1 ht1
  rw [ensures_bind]
  -- the mapping loop
  have hindex1 : t1.manager.baseIndex = m.baseIndex := by rw [ht1.manager]
  have hmaps := Ensures.forEachProgress
    (InsertedMappings t1.manager publication.cacheResources.length)
    publication.missingBaseMappings
    (fun done b rest t hall ht => insertMapping_spec ht
      (by rw [hindex1]; exact hprep.missing b (by rw [hall]; simp))
      (by
        have hnd := hprep.nodup
        rw [hall, List.map_append, List.map_cons, List.nodup_append] at hnd
        exact fun hmem => hnd.2.2 _ hmem _ List.mem_cons_self rfl)) t1
    { guard := by rw [ht1.guard]; rfl
      manager := rfl
      inverse := by rw [hindex1]; exact h.inverse
      lookup := by simp
      undo := rfl }
  refine hmaps.mono ?_ ?_
  rotate_left
  · rintro e t ⟨he, k, ht⟩
    have hrecords : t.manager.records = m.records := by rw [ht.manager, ht1.manager]
    refine (rollback_mappings t.manager.records ht1 ht).mono (fun _ t' ht' => ⟨he, Or.inl ?_⟩)
      fun _ _ hf => hf.elim
    rw [ht', hrecords]
  intro _ t2 ht2
  refine (storeRecord_spec h hprep ht1 ht2).mono (fun _ _ hid => hid) ?_
  rintro e _ ⟨he, records, rfl, hback⟩
  have ht2' : InsertedMappings t1.manager publication.cacheResources.length
      (publication.missingBaseMappings.take publication.missingBaseMappings.length) t2 := by
    rw [List.take_length]
    exact ht2
  refine (rollback_mappings records ht1 ht2').mono (fun _ t' ht' => ⟨he, ?_⟩)
    fun _ _ hf => hf.elim
  rw [ht']
  exact hback

end Transaction

/-! ## One theorem per publication step -/

/-- The outcome of a publication that returns: `path` and `draft` bound what a
`published` result added; an existing record adds nothing. -/
structure Publishes (m : ContextCacheManager H) (A : Multiset ResourceId)
    (path : List (H × PageId)) (draft : List PageId) (count : Nat) (result : PublishResult)
    (m' : ContextCacheManager H) : Prop where
  sound : m'.Sound A
  evolves : Evolves path draft m m'
  existing : result.status = .existingRecord → Evolves [] [] m m'
  count : result.publishedBaseFullBlockCount = count

variable {publication : PreparedPublication H}

variable {victim : Option RecordId} {id : RecordId} {record : CacheRecord H}

/-- Enforcing the limit removes one record exactly when there is one too many. -/
theorem enforceRecordLimit_spec (h : m.Consistent A)
    (hid : m.records.records.lookup id = some record)
    (hsize : m.records.size ≤ m.records.maxRecords + 1)
    (hvictim : ∀ id, victim = some id → id ∈ m.records.lru)
    (hroom : victim = none → m.records.maxRecords = 0 ∨ m.records.size ≤ m.records.maxRecords) :
    (enforceRecordLimit victim id).Ensures (fun _ m' => m'.Sound A ∧ Evolves [] [] m m')
      (fun _ _ => False) m := by
  have hcheck : ∀ m' : ContextCacheManager H, m'.Consistent A → Evolves [] [] m m' →
      m'.records.size ≤ m.records.maxRecords →
      (Checked.read (fun m => m.records.size) >>= fun size =>
        Checked.check (size ≤ m.records.maxRecords) Check.recordLimitNotEnforced).Ensures
        (fun _ m' => m'.Sound A ∧ Evolves [] [] m m') (fun _ _ => False) m' := by
    intro m' hm' hev hle
    simp only [ensures_bind, ensures_read, ensures_check]
    refine ⟨fun _ => ⟨{ toConsistent := hm', limit := ?_ }, hev⟩, fun hc => hc hle⟩
    rw [hev.maxRecords]
    exact hle
  have hevict : ∀ id record, m.records.records.lookup id = some record → (evictRecord id).Ensures
        (fun _ m' => m'.Consistent A ∧ Evolves [] [] m m' ∧
          m'.records.size ≤ m.records.maxRecords) (fun _ _ => False) m := by
    intro id record hid
    refine (evictRecord_spec h hid).mono ?_ fun _ _ hf => hf
    rintro _ m' ⟨hm', hrecords, hev⟩
    have := size_eraseRecord h.coherent hid
    refine ⟨hm', hev, ?_⟩
    rw [hrecords]
    omega
  unfold enforceRecordLimit
  rw [ensures_bind, ensures_read]
  by_cases hzero : m.records.maxRecords = 0
  · rw [if_pos hzero, ensures_bind]
    refine (hevict id record hid).mono ?_ fun _ _ hf => hf
    rintro _ m' ⟨hm', hev, hle⟩
    exact hcheck m' hm' hev hle
  · rw [if_neg hzero]
    cases hv : victim with
    | some v =>
      obtain ⟨old, hold⟩ := (h.coherent.lru_mem v).1 (hvictim v hv)
      rw [ensures_bind]
      refine (hevict v old hold).mono ?_ fun _ _ hf => hf
      rintro _ m' ⟨hm', hev, hle⟩
      exact hcheck m' hm' hev hle
    | none =>
      exact hcheck m h (.refl m) ((hroom hv).resolve_left hzero)

theorem commitPreparedPublication_spec (h : m.Sound A) (hprep : Prepared m A publication) :
    (commitPreparedPublication publication).Ensures (fun result m' => m'.Sound A ∧
        Evolves publication.missingBaseMappings (specPages publication.record.specState) m m' ∧
        result.status = .published ∧
        result.publishedBaseFullBlockCount = publication.publishedBaseFullBlockCount)
      (fun e m' => e.internal = false ∧ RolledBack publication.record m m') m := by
  unfold commitPreparedPublication
  rw [ensures_bind, ensures_zoom]
  refine (Transaction.guarded_commit_spec h hprep).mono ?_ fun _ _ hbad => hbad
  rintro id ⟨m1, guard⟩ ⟨hm1, rfl, hfresh, hrecords, hev⟩
  simp only at hm1 hrecords hev ⊢
  have hmax : m1.records.maxRecords = m.records.maxRecords := hev.maxRecords
  have hlru : m1.records.lru = m.records.lru ++ [m.records.nextId] := by
    rw [hrecords]
    rfl
  have hsize : m1.records.size = m.records.size + 1 := by
    rw [hm1.coherent.size_eq, h.coherent.size_eq, hlru]
    simp
  have hlimit := h.limit
  rw [ensures_bind]
  refine (enforceRecordLimit_spec hm1
    (by rw [hrecords]; exact CacheRecordStore.insertFresh_lookup_self) (by omega) ?_ ?_).mono ?_
      fun _ _ hf => hf.elim
  · intro v hv
    rw [hlru]
    exact List.mem_append_left _ (hprep.victim v hv)
  · intro hv
    rcases hprep.room hv with hzero | hlt <;> omega
  · rintro _ m2 ⟨hm2, hev2⟩
    simp only [ensures_bind, ensures_read, ensures_pure]
    exact ⟨hm2, hev.trans_nil hev2, trivial, trivial⟩

theorem Evolves.mono {path path' : List (H × PageId)} {draft : List PageId}
    (h : Evolves path draft m m') (hsub : ∀ b ∈ path, b ∈ path') : Evolves path' draft m m' :=
  { h with indexed := fun hash page hl => (h.indexed hash page hl).imp_right (hsub _) }

theorem selectRecordLimitVictim_outcome (store : CacheRecordStore H) :
    Outcome (selectRecordLimitVictim store)
      (fun victim => (∀ id, victim = some id → id ∈ store.lru) ∧
        (victim = none → store.maxRecords = 0 ∨ store.size < store.maxRecords))
      fun e => e.internal = false := by
  unfold selectRecordLimitVictim
  rw [outcome_bind, outcome_requireThat]
  refine ⟨fun _ => ?_, fun _ => rfl⟩
  rw [outcome_ite]
  refine ⟨fun hroom => ⟨by simp, fun _ => hroom⟩, fun _ => ?_⟩
  rw [outcome_bind, outcome_requireThat]
  refine ⟨fun hne => ⟨fun id hid => List.mem_of_mem_head? hid, fun hnone => ?_⟩, fun _ => rfl⟩
  exact absurd (List.head?_eq_none_iff.1 hnone) hne

/-- A projected record, its pages pinned or cached, is ready to be committed. -/
theorem prepared_of_projects (h : m.Sound A) {done : List (H × PageId)}
    {projection : BaseProjection H} (count : Int) (hp : Projects m.baseIndex done projection)
    (hzip : (done.map Prod.fst).zip projection.canonicalPages =
      record.logicalBlockHashes.zip projection.canonicalPages)
    (hpages : ∀ b ∈ done, ResourceId.mk .baseKvPage b.2 ∈ A)
    (hrest : ∀ r ∈ record.resources, r.type ≠ .baseKvPage → r ∈ A)
    (hvictim : ∀ id, victim = some id → id ∈ m.records.lru)
    (hroom : victim = none → m.records.maxRecords = 0 ∨ m.records.size < m.records.maxRecords) :
    Prepared m A
      { record := { record with basePagePath := projection.canonicalPages }
        canonicalBasePages := projection.canonicalPages
        missingBaseMappings := projection.missingMappings
        cacheResources :=
          ({ record with basePagePath := projection.canonicalPages } : CacheRecord H).resources
        recordLimitVictim := victim
        publishedBaseFullBlockCount := count } := by
  have hcanonical : ∀ p ∈ projection.canonicalPages,
      ResourceId.mk .baseKvPage p ∈ A + m.records.cacheLedger := by
    intro p hmem
    obtain ⟨i, hi, rfl⟩ := List.getElem_of_mem hmem
    have hz : i < ((done.map Prod.fst).zip projection.canonicalPages).length := by
      rw [List.length_zip, List.length_map, ← hp.length, min_self]
      exact hi
    have hb := hp.blocks _ (List.getElem_mem hz)
    rw [List.getElem_zip] at hb
    rw [Multiset.mem_add]
    rcases hb with hl | hmiss
    · exact Or.inr (h.paths.page_cached hl)
    · exact Or.inl (hpages _ (hp.produced _ hmiss))
  refine
    { resources := rfl
      owned := ?_
      blocks := fun b hb => hp.blocks b (hzip ▸ hb)
      listed := fun b hb => by
        have := hp.listed b hb
        rwa [hzip] at this
      missing := hp.missing
      nodup := hp.nodup
      victim := hvictim
      room := hroom }
  rintro ⟨t, i⟩ hr
  rcases CacheRecord.mem_resources_withPath.1 hr with ⟨rfl, hi⟩ | ⟨ht, hr⟩
  · exact hcanonical i hi
  · exact Multiset.mem_add.2 (Or.inl (hrest _ hr ht))

/-- Publishing a record over the producer's pages, all of them pinned. -/
theorem publishRecord_spec (h : m.Sound A) {pages : List PageId} (record : CacheRecord H)
    (hasPath : Bool) (hpages : ∀ p ∈ pages, ResourceId.mk .baseKvPage p ∈ A)
    (hrest : ∀ r ∈ record.resources, r.type ≠ .baseKvPage → r ∈ A) :
    (publishRecord record pages hasPath).Ensures
      (Publishes m A (if hasPath then record.logicalBlockHashes.zip pages else [])
        (specPages record.specState) record.logicalBlockHashes.length)
      (fun e m' => e.internal = false ∧ RolledBack record m m') m := by
  unfold publishRecord
  simp only [ensures_bind, ensures_read, ensures_ofExcept]
  -- the projection, with `done` the blocks it covers
  have hproj : Outcome
      (if hasPath then prepareBaseProjection m.baseIndex record.logicalBlockHashes pages
        else .ok {})
      (fun projection => ∃ done, Projects m.baseIndex done projection ∧
        (done.map Prod.fst).zip projection.canonicalPages =
          record.logicalBlockHashes.zip projection.canonicalPages ∧
        done = if hasPath then record.logicalBlockHashes.zip pages else [])
      fun e => e.internal = false := by
    rw [outcome_ite]
    refine ⟨fun hpath => ?_, fun hpath => ?_⟩
    · refine (prepareBaseProjection_outcome _ _ _).mono ?_ fun _ he => he
      rintro projection ⟨hlen, hp⟩
      refine ⟨_, hp, ?_, by simp [hpath]⟩
      rw [List.map_fst_zip hlen]
    · exact ⟨[], .nil _, by simp, by simp [hpath]⟩
  refine hproj.mono ?_ fun e he => ⟨he, Or.inl rfl⟩
  rintro projection ⟨done, hp, hzip, hdone⟩
  refine (selectRecordLimitVictim_outcome m.records).mono ?_ fun e he => ⟨he, Or.inl rfl⟩
  rintro victim ⟨hvictim, hroom⟩
  have hdonePages : ∀ b ∈ done, ResourceId.mk .baseKvPage b.2 ∈ A := by
    intro b hb
    rw [hdone] at hb
    split at hb
    · exact hpages _ (List.of_mem_zip hb).2
    · simp at hb
  have hprep := prepared_of_projects h record.logicalBlockHashes.length hp hzip hdonePages hrest
    hvictim hroom
  refine (commitPreparedPublication_spec h hprep).mono ?_ fun _ _ hbad => hbad
  rintro result m' ⟨hsound, hev, hstatus, hcount⟩
  refine
    { sound := hsound
      evolves := hev.mono fun b hb => hdone ▸ hp.produced b hb
      existing := fun he => by rw [hstatus] at he; cases he
      count := hcount }

/-! ## Upgrading a base-only record -/

/-- The store with speculative state attached to one record. -/
def withSpecState (store : CacheRecordStore H) (id : RecordId) (record : CacheRecord H)
    (state : SpecPagedStateRecord) : CacheRecordStore H :=
  { store with records := store.records.insert id { record with specState := some state } }

section Upgrade

variable {store : CacheRecordStore H} {record : CacheRecord H} {id : RecordId}
  {state : SpecPagedStateRecord}

theorem cacheLedger_withSpecState (hid : store.records.lookup id = some record)
    (hnone : record.specState = none) : (withSpecState store id record state).cacheLedger =
      ↑(state.pagePath.map (ResourceId.mk .draftKvPage)) + store.cacheLedger := by
  have hsum := tally_replace (w := { record with specState := some state })
    (f := fun record : CacheRecord H => (↑record.resources : Multiset ResourceId)) hid
  have hnew : (↑({ record with specState := some state } : CacheRecord H).resources :
      Multiset ResourceId) =
      ↑record.resources + ↑(state.pagePath.map (ResourceId.mk .draftKvPage)) := by
    have hold : specPages record.specState = [] := by rw [hnone]; rfl
    simp only [CacheRecord.resources, hold, List.map_nil, ← Multiset.coe_add]
    rw [show specPages (some state) = state.pagePath from rfl]
    simp only [Multiset.coe_nil, add_zero]
    ac_rfl
  rw [hnew, add_assoc] at hsum
  exact add_left_cancel hsum

theorem specLedger_withSpecState (hid : store.records.lookup id = some record)
    (hnone : record.specState = none) :
    (withSpecState store id record state).specLedger =
      ↑({ record with specState := some state } : CacheRecord H).specBoundaries +
        store.specLedger := by
  have hsum := tally_replace (w := { record with specState := some state })
    (f := fun record : CacheRecord H =>
      (↑record.specBoundaries : Multiset (H × SpecPagedStateMatch))) hid
  have hold : record.specBoundaries = [] := by simp [CacheRecord.specBoundaries, hnone]
  simp only [hold, Multiset.coe_nil, zero_add] at hsum
  exact hsum

/-- The boundaries an upgrade adds are new: the record had none. -/
theorem upgrade_boundaries_fresh (hs : store.Coherent)
    (hid : store.records.lookup id = some record) (hnone : record.specState = none) :
    ∀ b ∈ ({ record with specState := some state } : CacheRecord H).specBoundaries,
      b ∉ store.specLedger := by
  intro b hb hmem
  obtain ⟨id', old, hold, hb'⟩ := CacheRecordStore.mem_specLedger.1 hmem
  have hrec : b.2.record = ({ record with specState := some state } : CacheRecord H).id :=
    record_of_mem_specBoundaries hb
  have hsame : id' = id := by
    rw [← hs.id_eq id' old hold, ← hs.id_eq id record hid, ← hrec, record_of_mem_specBoundaries hb']
  subst hsame
  rw [hid, Option.some.injEq] at hold
  subst hold
  simp [CacheRecord.specBoundaries, hnone] at hb'

end Upgrade

theorem withSpecState_sound (h : m.Sound A) {state : SpecPagedStateRecord}
    (hid : m.records.records.lookup id = some record) (hnone : record.specState = none)
    (hvalid : validateRecord { record with specState := some state } = .ok ())
    {pools : ResourcePools} {specIndex : SpecPagedStateIndex H}
    (hpools : pools.Accounts A
      (↑(state.pagePath.map (ResourceId.mk .draftKvPage)) + m.records.cacheLedger))
    (hspec : specIndex.Carries
      (↑({ record with specState := some state } : CacheRecord H).specBoundaries +
        m.records.specLedger)) :
    let m' : ContextCacheManager H :=
      { m with
        pools := pools
        specIndex := specIndex
        records := (withSpecState m.records id record state).moveToBack id }
    m'.Sound A ∧ Evolves [] state.pagePath m m' := by
  intro m'
  set store := withSpecState m.records id record state
  have hcoherent : store.Coherent := h.coherent.replace hid rfl rfl rfl hvalid
  have hledger : store.cacheLedger = _ := cacheLedger_withSpecState hid hnone
  have hpaths : PathsIndexed m.baseIndex store := h.paths.replace hid rfl
  have hsize : store.size = m.records.size := by
    rw [hcoherent.size_eq, h.coherent.size_eq]
    rfl
  refine ⟨?_, ?_⟩
  · refine
      { accounts := ?_
        inverse := h.inverse
        paths := hpaths.congr rfl
        carries := ?_
        coherent := hcoherent.moveToBack ((h.coherent.lru_mem id).2 ⟨record, hid⟩)
        pageSize_pos := h.pageSize_pos
        limit := ?_ }
    · show pools.Accounts A store.cacheLedger
      rw [hledger]
      exact hpools
    · show specIndex.Carries store.specLedger
      rw [specLedger_withSpecState hid hnone]
      exact hspec
    · show store.size ≤ m.records.maxRecords
      rw [hsize]
      exact h.limit
  · refine
      { indexed := fun hash page hl => Or.inl hl
        drafts := ?_
        pageSize := rfl
        contract := rfl
        maxRecords := rfl }
    intro page hp
    change _ ∈ store.cacheLedger at hp
    rw [hledger, Multiset.mem_add, Multiset.mem_coe] at hp
    rcases hp with hp | hp
    · obtain ⟨p, hp, he⟩ := List.mem_map.1 hp
      cases he
      exact Or.inr hp
    · exact Or.inl hp

theorem upgradeRecord_spec (h : m.Sound A) {state : SpecPagedStateRecord}
    (hid : m.records.records.lookup id = some record) (hnone : record.specState = none)
    (hpages : ∀ p ∈ state.pagePath, ResourceId.mk .draftKvPage p ∈ A)
    (hvalid : validateRecord { record with specState := some state } = .ok ()) :
    (upgradeRecord id record state).Ensures
      (fun _ m' => m'.Sound A ∧ Evolves [] state.pagePath m m')
      (fun e m' => e.internal = false ∧ m' = m) m := by
  set resources := state.pagePath.map (ResourceId.mk .draftKvPage) with hresources
  have howned : ∀ r ∈ resources, r ∈ A + m.records.cacheLedger := by
    intro r hr
    obtain ⟨p, hp, rfl⟩ := List.mem_map.1 hr
    exact Multiset.mem_add.2 (Or.inl (hpages p hp))
  unfold upgradeRecord
  rw [ensures_zoom, ensures_onThrow, ensures_bind]
  have hrefs := Ensures.forEachProgress (Transaction.AddedRefs m A) resources
    (fun done r rest t hall ht => Transaction.addCacheRef_spec ht
      (howned r (by rw [hall]; simp))) ({ manager := m } : Transaction H)
    { guard := rfl, manager := rfl, accounts := by simpa using h.accounts, undo := rfl }
  refine hrefs.mono ?_ ?_
  rotate_left
  · rintro e t ⟨he, k, ht⟩
    have hk : resources.take t.guard.addedCacheRefCount = resources.take k := by
      rw [ht.guard, List.length_take, List.take_eq_take_iff]
      simp
    simp only [ensures_bind, ensures_read]
    rw [if_neg (by simp [ht.guard]), ← hresources, hk]
    refine (Transaction.releaseAll_spec _ _ ht.undo).mono ?_ fun _ _ hf => hf.elim
    rintro _ t' rfl
    refine ⟨he, ?_⟩
    show { t.manager with pools := m.pools } = m
    rw [ht.manager]
  intro _ t ht
  obtain ⟨pools, hm, hpools⟩ : ∃ pools, t.manager = { m with pools := pools } ∧
      pools.Accounts A (↑resources + m.records.cacheLedger) := ⟨_, ht.manager, ht.accounts⟩
  have hindexed : (SpecPagedStateIndex.insert { record with specState := some state }).Ensures
      (fun _ specIndex => specIndex.Carries
        (↑({ record with specState := some state } : CacheRecord H).specBoundaries +
          m.records.specLedger))
      (fun _ _ => False) m.specIndex := by
    refine SpecPagedStateIndex.insert_spec h.carries ?_
      (fun _ hs => (validateRecord_ok hvalid).spec_logical hs) (nodup_specBoundaries _)
      (upgrade_boundaries_fresh h.coherent hid hnone)
    show record.id ≠ 0
    rw [h.coherent.id_eq id record hid]
    exact h.coherent.id_pos id record hid
  rw [ensures_bind, Transaction.ensures_onManager, ensures_onSpecIndex, hm]
  refine hindexed.mono ?_ fun _ _ hf => hf.elim
  intro _ specIndex hspec
  rw [ensures_bind, Transaction.note, ensures_modify,
    Transaction.ensures_onManager, ensures_onRecords]
  rw [CacheRecordStore.setSpecState_spec hid hnone hvalid]
  show Outcome (.ok _) _ _
  rw [outcome_ok]
  exact withSpecState_sound h hid hnone hvalid hpools hspec

end ContextCacheManager

end EdgeLLM.Ports.ContextCache
