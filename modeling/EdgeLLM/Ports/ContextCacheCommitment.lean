import EdgeLLM.Ports.ContextCachePersistence

/-!
# Exactly when a publication commits

`ContextCachePublication` says that a publication either commits or is rolled
back.  This module says which: `Commits` lists what the three loops of the
transaction need (room in the counters, unindexed pages, a valid record under
free keys), and a publication returns if and only if it holds.
-/

namespace EdgeLLM.Ports.ContextCache

open Verified Checked

set_option linter.unusedSectionVars false

variable {H : Type} [DecidableEq H]

namespace ContextCacheManager

variable {m m' : ContextCacheManager H} {A : Multiset ResourceId}
  {publication : PreparedPublication H}

/-- Every counter has room for the references of `rs`. -/
def RefsFit (pools : ResourcePools) (rs : List ResourceId) : Prop :=
  ∀ r ∈ rs, pools.cacheRefCount r + rs.count r ≤ int32Max

/-- No missing mapping names an indexed page or the page of another one. -/
def MappingsFit (index : BaseBlockIndex H) (missing : List (H × PageId)) : Prop :=
  (∀ b ∈ missing, index.reverse.lookup b.2 = none) ∧ (missing.map Prod.snd).Nodup

/-- What the transaction needs of the state it starts in. -/
structure Commits (m : ContextCacheManager H) (publication : PreparedPublication H) : Prop where
  refs : RefsFit m.pools publication.cacheResources
  mappings : MappingsFit m.baseIndex publication.missingBaseMappings
  valid : validateRecord publication.record = .ok ()
  hybrid : publication.record.hybridKey.bind m.records.findHybrid = none
  key : m.records.find publication.record.key = none
  id : m.records.nextId ≠ 0

namespace Transaction

variable {t : Transaction H}

/-- Progress of the reference loop, with the counters it has filled. -/
theorem addCacheRef_fits {rs done rest : List ResourceId} {r : ResourceId}
    (hall : rs = done ++ r :: rest) (h : AddedRefs m A done t) (hm : m.Sound A)
    (hmem : r ∈ A + m.records.cacheLedger)
    (hfit : ∀ q ∈ done, m.pools.cacheRefCount q + done.count q ≤ int32Max) : (addCacheRef r).Ensures
      (fun _ _ => ∀ q ∈ done ++ [r], m.pools.cacheRefCount q + (done ++ [r]).count q ≤ int32Max)
      (fun _ _ => ¬RefsFit m.pools rs) t := by
  have hmem' : r ∈ A + (↑done + m.records.cacheLedger) := by
    simp only [Multiset.mem_add] at hmem ⊢
    tauto
  have hcount : t.manager.pools.cacheRefCount r = m.pools.cacheRefCount r + done.count r := by
    rw [h.accounts.cacheRefCount_eq, hm.accounts.cacheRefCount_eq, Multiset.count_add,
      Multiset.coe_count, Nat.add_comm]
  unfold addCacheRef onManager note
  simp only [ensures_bind, ensures_zoom, ensures_onPools, ensures_modify]
  have hover := ResourcePools.addCacheRef_overflow_iff h.accounts hmem'
  rw [hcount] at hover
  rcases ResourcePools.addCacheRef_spec h.accounts hmem' with ⟨pools, hadd, -⟩ | hfull
  · rw [hadd, outcome_ok]
    rw [hadd] at hover
    simp only [reduceCtorEq, false_iff, Nat.not_le] at hover
    intro q hq
    by_cases hqr : q = r
    · subst hqr
      rw [List.count_append, List.count_singleton_self]
      omega
    · have hin : q ∈ done := by simpa [hqr] using hq
      rw [List.count_append, List.count_singleton, if_neg (by simpa using Ne.symm hqr)]
      exact hfit q hin
  · rw [hfull, outcome_error]
    intro hall'
    have hr := hall' r (by rw [hall]; simp)
    rw [hall, List.count_append, List.count_cons_self] at hr
    have hmax := hover.1 hfull
    omega

/-- A missing page, given that its index entry is read through the loop. -/
theorem insertMapping_fits {m1 : ContextCacheManager H} (refs : Nat)
    {missing done rest : List (H × PageId)} {b : H × PageId} (hall : missing = done ++ b :: rest)
    (h : InsertedMappings m1 refs done t) (hinv : m1.baseIndex.Inverse)
    (hmissing : m1.baseIndex.lookup b.1 = none) (hnew : b.1 ∉ done.map Prod.fst)
    (hpage : 0 ≤ b.2) (hfit : MappingsFit m1.baseIndex done) :
    (insertMapping b).Ensures (fun _ _ => MappingsFit m1.baseIndex (done ++ [b]))
      (fun _ _ => ¬MappingsFit m1.baseIndex missing) t := by
  have hnone : t.manager.baseIndex.lookup b.1 = none := by
    cases hl : t.manager.baseIndex.lookup b.1 with
    | none => rfl
    | some page =>
      rcases (h.lookup b.1 page).1 hl with hold | hdone
      · rw [hmissing] at hold
        cases hold
      · exact absurd (List.mem_map_of_mem (f := Prod.fst) hdone) hnew
  -- the page is taken now exactly when it was, or an earlier mapping took it
  have htaken : t.manager.baseIndex.reverse.lookup b.2 = none ↔
      m1.baseIndex.reverse.lookup b.2 = none ∧ b.2 ∉ done.map Prod.snd := by
    constructor
    · intro hfree
      have hno : ∀ hash, t.manager.baseIndex.lookup hash ≠ some b.2 := by
        intro hash hl
        rw [(h.inverse hash b.2).1 hl] at hfree
        cases hfree
      refine ⟨?_, fun hmem => ?_⟩
      · cases hrev : m1.baseIndex.reverse.lookup b.2 with
        | none => rfl
        | some hash =>
          exact absurd ((h.lookup hash b.2).2 (Or.inl ((hinv hash b.2).2 hrev))) (hno hash)
      · obtain ⟨⟨hash, page⟩, hin, rfl⟩ := List.mem_map.1 hmem
        exact hno hash ((h.lookup hash _).2 (Or.inr hin))
    · rintro ⟨hfree, hnot⟩
      cases hrev : t.manager.baseIndex.reverse.lookup b.2 with
      | none => rfl
      | some hash =>
        rcases (h.lookup hash b.2).1 ((h.inverse hash b.2).2 hrev) with hold | hdone
        · rw [(hinv hash b.2).1 hold] at hfree
          cases hfree
        · exact absurd (List.mem_map_of_mem (f := Prod.snd) hdone) hnot
  unfold insertMapping onManager note
  simp only [ensures_bind, ensures_zoom, ensures_update, ensures_modify, ensures_check]
  by_cases hfree : t.manager.baseIndex.reverse.lookup b.2 = none
  · have hins : t.manager.baseIndex.insert b.1 b.2 =
        .ok (⟨b.2, true⟩, t.manager.baseIndex.insertFresh b.1 b.2) := by
      rw [BaseBlockIndex.insert, hnone]
      simp [requireThat, hpage, hfree, bind, Except.bind, BaseBlockIndex.insertFresh]
    rw [hins, outcome_ok]
    refine ⟨fun _ => ?_, fun hc => absurd ⟨rfl, rfl⟩ hc⟩
    obtain ⟨hpages, hnd⟩ := hfit
    refine ⟨?_, ?_⟩
    · intro x hx
      rcases List.mem_append.1 hx with hx | hx
      · exact hpages x hx
      · rw [List.mem_singleton.1 hx]
        exact (htaken.1 hfree).1
    · rw [List.map_append, List.nodup_append]
      refine ⟨hnd, List.nodup_singleton _, ?_⟩
      intro x hx y hy hxy
      rw [List.map_cons, List.map_nil, List.mem_singleton] at hy
      exact (htaken.1 hfree).2 (hy ▸ hxy ▸ hx)
  · have hins : t.manager.baseIndex.insert b.1 b.2 = .error .pageAlreadyIndexed := by
      rw [BaseBlockIndex.insert, hnone]
      simp [requireThat, hpage, hfree, bind, Except.bind]
    rw [hins, outcome_error]
    rintro ⟨hpages, hnd⟩
    refine hfree (htaken.2 ⟨hpages b (by rw [hall]; simp), ?_⟩)
    rw [hall, List.map_append, List.map_cons, List.nodup_append] at hnd
    exact fun hmem => hnd.2.2 _ hmem _ List.mem_cons_self rfl

/-- The store takes the record exactly when it is valid under free keys. -/
theorem storeRecord_fits (h : m.Sound A) (hprep : Prepared m A publication)
    {t1 : Transaction H} (ht1 : AddedRefs m A publication.cacheResources t1)
    (ht : InsertedMappings t1.manager publication.cacheResources.length
      publication.missingBaseMappings t) : (storeRecord publication.record).Ensures
      (fun _ _ => validateRecord publication.record = .ok () ∧
        publication.record.hybridKey.bind m.records.findHybrid = none ∧
        m.records.find publication.record.key = none ∧ m.records.nextId ≠ 0)
      (fun _ _ => ¬(validateRecord publication.record = .ok () ∧
        publication.record.hybridKey.bind m.records.findHybrid = none ∧
        m.records.find publication.record.key = none ∧ m.records.nextId ≠ 0)) t := by
  have hrecords : t.manager.records = m.records := by rw [ht.manager, ht1.manager]
  by_cases hc : validateRecord publication.record = .ok () ∧
      publication.record.hybridKey.bind m.records.findHybrid = none ∧
      m.records.find publication.record.key = none ∧ m.records.nextId ≠ 0
  · obtain ⟨hvalid, hhybrid, hkey, hid⟩ := hc
    obtain ⟨hfree, hins⟩ := h.coherent.insert_fresh hvalid hhybrid hkey hid
    exact (storeRecord_inserts h hprep ht1 ht hfree hvalid hins).mono
      (fun _ _ _ => ⟨hvalid, hhybrid, hkey, hid⟩) fun _ _ hf => hf.elim
  · -- the record is refused or a duplicate is touched
    unfold storeRecord
    rw [ensures_bind, ensures_onManager, ensures_onRecords, hrecords]
    rcases h.coherent.insert_spec publication.record with
      ⟨hfree, hvalid, -⟩ | ⟨dup, old, -, -, hins⟩ | ⟨e, hins, he⟩
    · exact absurd ⟨hvalid, hfree.hybrid, hfree.exact, hfree.nextId⟩ hc
    · rw [hins, outcome_ok, ensures_bind]
      exact ensures_check.2 ⟨fun hf => by simp at hf, fun _ => hc⟩
    · rw [hins, outcome_error]
      exact hc

/-- The guarded transaction returns exactly when `Commits` holds. -/
theorem commit_iff (h : m.Sound A) (hprep : Prepared m A publication) :
    (onThrow .terminated (commit publication) (rollback publication)).Ensures
      (fun _ _ => Commits m publication) (fun _ _ => ¬Commits m publication)
      ({ manager := m } : Transaction H) := by
  rw [ensures_onThrow]
  have hcommit : (commit publication).Ensures
      (fun _ _ => Commits m publication) (fun _ _ => ¬Commits m publication)
      ({ manager := m } : Transaction H) := by
    unfold commit
    rw [ensures_bind]
    have hrefs := @Ensures.forEachProgress _ _ _ addCacheRef
      (fun _ => ¬RefsFit m.pools publication.cacheResources)
      (fun done (t : Transaction H) => AddedRefs m A done t ∧
        ∀ q ∈ done, m.pools.cacheRefCount q + done.count q ≤ int32Max)
      publication.cacheResources
      (fun done r rest t hall ht => by
        have hmem := hprep.owned r (by rw [hall]; simp)
        refine ((addCacheRef_spec ht.1 hmem).and
          (addCacheRef_fits hall ht.1 h hmem ht.2)).mono (fun _ _ hok => hok) ?_
        exact fun _ _ hbad => ⟨hbad.2, hbad.1.2, ht.2⟩)
      ({ manager := m } : Transaction H)
      ⟨{ guard := rfl, manager := rfl, accounts := by simpa using h.accounts, undo := rfl },
        by simp⟩
    refine hrefs.mono ?_ fun _ _ hbad hc => hbad.1 hc.refs
    rintro _ t1 ⟨ht1, hfits⟩
    rw [ensures_bind]
    have hindex1 : t1.manager.baseIndex = m.baseIndex := by rw [ht1.manager]
    have hmaps := @Ensures.forEachProgress _ _ _ insertMapping
      (fun _ => ¬MappingsFit m.baseIndex publication.missingBaseMappings)
      (fun done (t : Transaction H) => InsertedMappings t1.manager publication.cacheResources.length done t ∧
        MappingsFit m.baseIndex done)
      publication.missingBaseMappings
      (fun done b rest t hall ht => by
        have hin : b ∈ publication.missingBaseMappings := by rw [hall]; simp
        have hmissing := hprep.missing b hin
        have hnd := hprep.nodup
        rw [hall, List.map_append, List.map_cons, List.nodup_append] at hnd
        have hnew : b.1 ∉ done.map Prod.fst := fun hmem => hnd.2.2 _ hmem _ List.mem_cons_self rfl
        have hpage : 0 ≤ b.2 := by
          have hblock := hprep.listed b hin
          have hres : ResourceId.mk .baseKvPage b.2 ∈ publication.cacheResources := by
            rw [hprep.resources]
            exact CacheRecord.base_mem_resources.2 (List.of_mem_zip hblock).2
          exact h.accounts.index_nonneg (hprep.owned _ hres)
        have hfit := insertMapping_fits publication.cacheResources.length hall ht.1
          (by rw [hindex1]; exact h.inverse) (by rw [hindex1]; exact hmissing) hnew hpage
          (by rw [hindex1]; exact ht.2)
        rw [hindex1] at hfit
        refine ((insertMapping_spec ht.1 (by rw [hindex1]; exact hmissing) hnew).and hfit).mono
          (fun _ _ hok => hok) ?_
        exact fun _ _ hbad => ⟨hbad.2, hbad.1.2, ht.2⟩)
      t1
      ⟨{ guard := by rw [ht1.guard]; rfl
         manager := rfl
         inverse := by rw [hindex1]; exact h.inverse
         lookup := by simp
         undo := rfl }, by simp, by simp⟩
    refine hmaps.mono ?_ fun _ _ hbad hc => hbad.1 hc.mappings
    rintro _ t2 ⟨ht2, hmapped⟩
    refine (storeRecord_fits h hprep ht1 ht2).mono ?_ ?_
    · rintro _ _ ⟨hvalid, hhybrid, hkey, hid⟩
      exact
        { refs := hfits
          mappings := hmapped
          valid := hvalid
          hybrid := hhybrid
          key := hkey
          id := hid }
    · exact fun _ _ hbad hc => hbad ⟨hc.valid, hc.hybrid, hc.key, hc.id⟩
  refine hcommit.mono (fun _ _ hc => hc) fun _ t hbad => ?_
  exact (ensures_true _ t).mono (fun _ _ _ => hbad) fun _ _ _ => hbad

end Transaction

/-- A store that retains records keeps the new one: the victim is an older
one. -/
theorem enforceRecordLimit_retains {victim : Option RecordId} {id : RecordId}
    {record : CacheRecord H} (h : m.Consistent A) (hid : m.records.records.lookup id = some record)
    (hmax : m.records.maxRecords ≠ 0)
    (hvictim : ∀ old, victim = some old → old ∈ m.records.lru ∧ old ≠ id) :
    (enforceRecordLimit victim id).Ensures
      (fun _ m' => m'.records.records.lookup id = some record) (fun _ _ => True) m := by
  unfold enforceRecordLimit
  rw [ensures_bind, ensures_read, if_neg hmax]
  cases victim with
  | none =>
    simp only [ensures_bind, ensures_read, ensures_check]
    exact ⟨fun _ => hid, fun _ => trivial⟩
  | some old =>
    obtain ⟨hold, hne⟩ := hvictim old rfl
    obtain ⟨oldRecord, hlook⟩ := (h.coherent.lru_mem old).1 hold
    rw [ensures_bind]
    refine (evictRecord_spec h hlook).mono ?_ fun _ _ _ => trivial
    rintro _ m' ⟨-, hrecords, -⟩
    simp only [ensures_bind, ensures_read, ensures_check]
    refine ⟨fun _ => ?_, fun _ => trivial⟩
    rw [hrecords]
    exact CacheRecordStore.eraseRecord_lookup_iff.2 ⟨hne.symm, hid⟩

/-! ## One record -/

/-- A publication returns exactly when `Commits` holds, and then a store that
retains records has the new one. -/
theorem commitPreparedPublication_iff (h : m.Sound A) (hprep : Prepared m A publication) :
    (commitPreparedPublication publication).Ensures
      (fun result m' => Commits m publication ∧ (m.records.maxRecords ≠ 0 →
        result.record = some m.records.nextId ∧ m'.records.records.lookup m.records.nextId =
          some { publication.record with id := m.records.nextId }))
      (fun _ _ => ¬Commits m publication) m := by
  unfold commitPreparedPublication
  rw [ensures_bind, ensures_zoom]
  refine ((Transaction.guarded_commit_spec h hprep).and
    (Transaction.commit_iff h hprep)).mono ?_ fun _ _ hbad => hbad.2
  rintro id ⟨m1, guard⟩ ⟨⟨hm1, rfl, hfresh, hrecords, hev⟩, hcommits⟩
  simp only at hm1 hrecords hev ⊢
  have hmax : m1.records.maxRecords = m.records.maxRecords := hev.maxRecords
  have hlru : m1.records.lru = m.records.lru ++ [m.records.nextId] := by
    rw [hrecords]
    rfl
  have hnew : m1.records.records.lookup m.records.nextId =
      some { publication.record with id := m.records.nextId } := by
    rw [hrecords]
    exact CacheRecordStore.insertFresh_lookup_self
  have hsize : m1.records.size = m.records.size + 1 := by
    rw [hm1.coherent.size_eq, h.coherent.size_eq, hlru]
    simp
  have hlimit := h.limit
  rw [ensures_bind]
  have hvictim : ∀ old, publication.recordLimitVictim = some old → old ∈ m1.records.lru := by
    intro old hold
    rw [hlru]
    exact List.mem_append_left _ (hprep.victim old hold)
  have hdone := enforceRecordLimit_spec hm1 hnew (by omega) hvictim (by
    intro hv
    rcases hprep.room hv with hzero | hlt <;> omega)
  by_cases hzero : m.records.maxRecords = 0
  · refine hdone.mono ?_ fun _ _ hf => hf.elim
    intro _ m2 _
    simp only [ensures_bind, ensures_read, ensures_pure]
    exact ⟨hcommits, fun hne => absurd hzero hne⟩
  · have hretains := enforceRecordLimit_retains hm1 hnew (by rw [hmax]; exact hzero)
      fun old hold => ⟨hvictim old hold, by
        rintro rfl
        obtain ⟨record, hl⟩ := (h.coherent.lru_mem _).1 (hprep.victim _ hold)
        rw [hfresh] at hl
        cases hl⟩
    refine (hdone.and hretains).mono ?_ fun _ _ hf => hf.1.elim
    rintro _ m2 ⟨-, hkept⟩
    simp only [ensures_bind, ensures_read, ensures_pure]
    refine ⟨hcommits, fun _ => ⟨?_, hkept⟩⟩
    rw [if_pos (CacheRecordStore.contains_iff.2 ⟨_, hkept⟩)]

/-- A coherent store within its limit always has a victim when it is full. -/
theorem selectRecordLimitVictim_total {store : CacheRecordStore H} (h : store.Coherent)
    (hlimit : store.size ≤ store.maxRecords) :
    ∃ victim, selectRecordLimitVictim store = .ok victim := by
  unfold selectRecordLimitVictim
  rw [requireThat_of hlimit]
  by_cases hroom : store.maxRecords = 0 ∨ store.size < store.maxRecords
  · exact ⟨none, by simp [hroom, bind, Except.bind]⟩
  · have hne : store.lru ≠ [] := by
      intro hnil
      rw [h.size_eq, hnil, List.length_nil] at hroom hlimit
      omega
    exact ⟨store.lru.head?, by simp [hroom, hne, requireThat, bind, Except.bind]⟩

/-- The projection of the path of a record. -/
def project (index : BaseBlockIndex H) (hashes : List H) (pages : List PageId) : BaseProjection H :=
  (hashes.zip pages).foldl (projectBlock index) {}

/-- What a publication of `record` over `pages` commits, whatever the limit
evicts. -/
def publicationOf (m : ContextCacheManager H) (record : CacheRecord H) (pages : List PageId) :
    PreparedPublication H :=
  let projection := project m.baseIndex record.logicalBlockHashes pages
  let record := { record with basePagePath := projection.canonicalPages }
  { record := record
    canonicalBasePages := projection.canonicalPages
    missingBaseMappings := projection.missingMappings
    cacheResources := record.resources
    recordLimitVictim := none
    publishedBaseFullBlockCount := record.logicalBlockHashes.length }

theorem publishRecord_iff (h : m.Sound A) {record : CacheRecord H} {pages : List PageId}
    (hlen : record.logicalBlockHashes.length ≤ pages.length)
    (hpages : ∀ p ∈ pages, ResourceId.mk .baseKvPage p ∈ A)
    (hrest : ∀ r ∈ record.resources, r.type ≠ .baseKvPage → r ∈ A) :
    (publishRecord record pages true).Ensures
      (fun result m' => Commits m (publicationOf m record pages) ∧ (m.records.maxRecords ≠ 0 →
        result.record = some m.records.nextId ∧ m'.records.records.lookup m.records.nextId =
          some { (publicationOf m record pages).record with id := m.records.nextId }))
      (fun _ _ => ¬Commits m (publicationOf m record pages)) m := by
  have hprojection : prepareBaseProjection m.baseIndex record.logicalBlockHashes pages =
      .ok (project m.baseIndex record.logicalBlockHashes pages) := by
    rw [prepareBaseProjection, requireThat_of hlen]
    rfl
  have hprojects := prepareBaseProjection_outcome m.baseIndex record.logicalBlockHashes pages
  rw [hprojection, outcome_ok] at hprojects
  unfold publishRecord
  simp only [ensures_bind, ensures_read, ensures_ofExcept, if_true, hprojection, outcome_ok]
  have hselect := selectRecordLimitVictim_outcome m.records
  obtain ⟨victim, hvictim⟩ := selectRecordLimitVictim_total h.coherent h.limit
  rw [hvictim, outcome_ok] at hselect ⊢
  obtain ⟨hvictim, hroom⟩ := hselect
  have hprep := prepared_of_projects h record.logicalBlockHashes.length hprojects.2
    (by rw [List.map_fst_zip hlen]) (fun b hb => hpages _ (List.of_mem_zip hb).2) hrest hvictim
    hroom
  refine (commitPreparedPublication_iff h hprep).mono ?_ ?_
  · rintro result m' ⟨hcommits, hkept⟩
    exact ⟨{ hcommits with }, hkept⟩
  · exact fun _ _ hbad hc => hbad { hc with }

end ContextCacheManager

end EdgeLLM.Ports.ContextCache
