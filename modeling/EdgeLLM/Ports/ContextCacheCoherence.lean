import EdgeLLM.Ports.ContextCacheBlockIndex
import EdgeLLM.Ports.ContextCacheResourcePools

/-!
# Coherence of the indexes with the stored records

The record store is the only owner of cached state.  Everything else the
cache keeps is a function of the stored records: the cache-reference ledger
is the sum of their resources, the speculative index carries the sum of their
boundaries, and the base index holds the blocks of their paths, no more and
no less.

The module states these relations and moves them across the three ways the
store changes: a record is inserted, erased, or given speculative state.
-/

namespace EdgeLLM.Ports.ContextCache

open Verified

set_option linter.unusedSectionVars false

variable {H : Type} [DecidableEq H]

/-- The `(hash, page)` pairs of the base path of a record. -/
def CacheRecord.blocks (record : CacheRecord H) : List (H × PageId) :=
  record.logicalBlockHashes.zip record.basePagePath

namespace CacheRecordStore

/-- One cache reference for each occurrence in a stored record. -/
def cacheLedger (store : CacheRecordStore H) : Multiset ResourceId :=
  tally (fun record => (↑record.resources : Multiset ResourceId)) store.records

/-- One speculative match for each boundary of a stored record. -/
def specLedger (store : CacheRecordStore H) : Multiset (H × SpecPagedStateMatch) :=
  tally (fun record => (↑record.specBoundaries : Multiset (H × SpecPagedStateMatch)))
    store.records

variable {store : CacheRecordStore H} {record : CacheRecord H} {id : RecordId}

theorem mem_cacheLedger {r : ResourceId} : r ∈ store.cacheLedger ↔
      ∃ id record, store.records.lookup id = some record ∧ r ∈ record.resources :=
  mem_tally

theorem mem_specLedger {b : H × SpecPagedStateMatch} : b ∈ store.specLedger ↔
      ∃ id record, store.records.lookup id = some record ∧ b ∈ record.specBoundaries :=
  mem_tally

theorem cacheLedger_insertFresh (hfree : store.records.lookup store.nextId = none) :
    (store.insertFresh record).cacheLedger = ↑record.resources + store.cacheLedger :=
  tally_insert hfree

theorem specLedger_insertFresh (hfree : store.records.lookup store.nextId = none) :
    (store.insertFresh record).specLedger =
      ↑({ record with id := store.nextId } : CacheRecord H).specBoundaries + store.specLedger :=
  tally_insert hfree

theorem cacheLedger_eraseRecord (hid : store.records.lookup id = some record) :
    ↑record.resources + (store.eraseRecord id record).cacheLedger = store.cacheLedger :=
  tally_erase (f := fun record : CacheRecord H => (↑record.resources : Multiset ResourceId)) hid

theorem specLedger_eraseRecord (hid : store.records.lookup id = some record) :
    ↑record.specBoundaries + (store.eraseRecord id record).specLedger = store.specLedger :=
  tally_erase (f := fun record : CacheRecord H =>
    (↑record.specBoundaries : Multiset (H × SpecPagedStateMatch))) hid

end CacheRecordStore

/-! ## Resources and blocks of a record -/

section Blocks

variable {record : CacheRecord H}

theorem CacheRecord.base_mem_resources {p : PageId} :
    ResourceId.mk .baseKvPage p ∈ record.resources ↔ p ∈ record.basePagePath := by
  simp [CacheRecord.resources]

theorem CacheRecord.draft_mem_resources {p : PageId} :
    ResourceId.mk .draftKvPage p ∈ record.resources ↔ p ∈ specPages record.specState := by
  simp [CacheRecord.resources]

theorem CacheRecord.recurrent_mem_resources {p : Int} :
    ResourceId.mk .recurrentSnapshot p ∈ record.resources ↔
      record.recurrentSnapshotSlot = some p := by
  simp [CacheRecord.resources]

theorem CacheRecord.partial_mem_resources {p : Int} :
    ResourceId.mk .partialKvSnapshot p ∈ record.resources ↔
      record.partialKvSnapshotSlot = some p := by
  simp [CacheRecord.resources]

theorem CacheRecord.mem_resources_withPath {pages : List PageId} {r : ResourceId} :
    r ∈ ({ record with basePagePath := pages } : CacheRecord H).resources ↔
      (r.type = .baseKvPage ∧ r.index ∈ pages) ∨ (r.type ≠ .baseKvPage ∧ r ∈ record.resources) := by
  obtain ⟨t, i⟩ := r
  cases t <;> simp [CacheRecord.resources]

theorem CacheRecord.page_of_mem_blocks {b : H × PageId} (h : b ∈ record.blocks) :
    b.2 ∈ record.basePagePath :=
  (List.of_mem_zip h).2

/-- Every base page of a valid record belongs to one of its blocks. -/
theorem CacheRecord.Valid.block_of_page (h : record.Valid) {p : PageId}
    (hp : p ∈ record.basePagePath) : ∃ hash, (hash, p) ∈ record.blocks := by
  rcases h.base with ⟨-, hnil⟩ | hlen
  · rw [hnil] at hp
    cases hp
  · obtain ⟨i, hi, rfl⟩ := List.getElem_of_mem hp
    have hi' : i < record.logicalBlockHashes.length := hlen ▸ hi
    have hz : i < record.blocks.length := by simp [CacheRecord.blocks, hi, hi']
    exact ⟨record.logicalBlockHashes[i], by
      rw [← List.getElem_zip (h := hz)]
      exact List.getElem_mem hz⟩

end Blocks

/-! ## The base index -/

/-- The base index holds the blocks of the stored records and nothing else. -/
structure PathsIndexed (index : BaseBlockIndex H) (store : CacheRecordStore H) : Prop where
  covers : ∀ id record, store.records.lookup id = some record →
    ∀ b ∈ record.blocks, index.lookup b.1 = some b.2
  supported : ∀ hash page, index.lookup hash = some page →
    ∃ id record, store.records.lookup id = some record ∧ (hash, page) ∈ record.blocks

namespace PathsIndexed

variable {index index' : BaseBlockIndex H} {store : CacheRecordStore H}
  {record : CacheRecord H} {id : RecordId}

theorem empty (n : Nat) :
    PathsIndexed ({} : BaseBlockIndex H) ({ maxRecords := n } : CacheRecordStore H) where
  covers id record h := by simp at h
  supported hash page h := by simp [BaseBlockIndex.lookup] at h

theorem page_cached (h : PathsIndexed index store) {hash : H} {page : PageId}
    (hl : index.lookup hash = some page) : ResourceId.mk .baseKvPage page ∈ store.cacheLedger := by
  obtain ⟨id, record, hr, hb⟩ := h.supported hash page hl
  exact CacheRecordStore.mem_cacheLedger.2
    ⟨id, record, hr, CacheRecord.base_mem_resources.2 (CacheRecord.page_of_mem_blocks hb)⟩

theorem page_indexed (h : PathsIndexed index store) (hs : store.Coherent) {page : PageId}
    (hp : ResourceId.mk .baseKvPage page ∈ store.cacheLedger) :
    ∃ hash, index.lookup hash = some page := by
  obtain ⟨id, record, hr, hmem⟩ := CacheRecordStore.mem_cacheLedger.1 hp
  obtain ⟨hash, hb⟩ := (validateRecord_ok (hs.valid id record hr)).block_of_page
    (CacheRecord.base_mem_resources.1 hmem)
  exact ⟨hash, h.covers id record hr _ hb⟩

theorem congr (h : PathsIndexed index store) {store' : CacheRecordStore H}
    (hrec : store'.records = store.records) : PathsIndexed index store' where
  covers id record hr := h.covers id record (hrec ▸ hr)
  supported hash page hl := by
    rw [hrec]
    exact h.supported hash page hl

/-- A new record whose blocks are all in the grown index, which grew by blocks
of that record only. -/
theorem insertFresh (h : PathsIndexed index store)
    (hfree : store.records.lookup store.nextId = none)
    (hgrow : ∀ hash page, index'.lookup hash = some page ↔
      index.lookup hash = some page ∨ (hash, page) ∈ record.blocks) :
    PathsIndexed index' (store.insertFresh record) where
  covers id record' hr b hb := by
    rw [hgrow]
    rcases (CacheRecordStore.insertFresh_lookup_iff hfree).1 hr with ⟨-, rfl⟩ | hr
    · exact Or.inr hb
    · exact Or.inl (h.covers id record' hr b hb)
  supported hash page hl := by
    rcases (hgrow hash page).1 hl with hl | hb
    · obtain ⟨id, record', hr, hb⟩ := h.supported hash page hl
      exact ⟨id, record', (CacheRecordStore.insertFresh_lookup_iff hfree).2 (Or.inr hr), hb⟩
    · exact ⟨_, _, (CacheRecordStore.insertFresh_lookup_iff hfree).2 (Or.inl ⟨rfl, rfl⟩), hb⟩

/-- Removing a record together with the mappings to the pages no other record
owns. -/
theorem eraseRecord (h : PathsIndexed index store) (hs : store.Coherent) (hinv : index.Inverse)
    (hshrink : ∀ hash page, index'.lookup hash = some page ↔ index.lookup hash = some page ∧
        ResourceId.mk .baseKvPage page ∈ (store.eraseRecord id record).cacheLedger) :
    PathsIndexed index' (store.eraseRecord id record) where
  covers x record' hr b hb := by
    refine (hshrink _ _).2 ⟨?_, ?_⟩
    · exact h.covers x record' (CacheRecordStore.eraseRecord_lookup_iff.1 hr).2 b hb
    · exact CacheRecordStore.mem_cacheLedger.2
        ⟨x, record', hr, CacheRecord.base_mem_resources.2 (CacheRecord.page_of_mem_blocks hb)⟩
  supported hash page hl := by
    obtain ⟨hl, hmem⟩ := (hshrink hash page).1 hl
    obtain ⟨x, record', hr, hp⟩ := CacheRecordStore.mem_cacheLedger.1 hmem
    have hr' := (CacheRecordStore.eraseRecord_lookup_iff.1 hr).2
    obtain ⟨hash', hb⟩ := (validateRecord_ok (hs.valid x record' hr')).block_of_page
      (CacheRecord.base_mem_resources.1 hp)
    -- the surviving owner holds the page under the same hash
    have hsame := hinv.unique hl (h.covers x record' hr' _ hb)
    subst hsame
    exact ⟨x, record', hr, hb⟩

/-- Overwriting a record without touching its path. -/
theorem replace (h : PathsIndexed index store) (hid : store.records.lookup id = some record)
    {new : CacheRecord H} (hblocks : new.blocks = record.blocks) :
    PathsIndexed index
      ({ store with records := store.records.insert id new } : CacheRecordStore H) where
  covers x record' hr b hb := by
    change (store.records.insert id new).lookup x = some record' at hr
    by_cases hx : x = id
    · subst hx
      rw [Finmap.lookup_insert, Option.some.injEq] at hr
      subst hr
      exact h.covers x record hid b (hblocks ▸ hb)
    · rw [Finmap.lookup_insert_of_ne _ hx] at hr
      exact h.covers x record' hr b hb
  supported hash page hl := by
    obtain ⟨x, record', hr, hb⟩ := h.supported hash page hl
    by_cases hx : x = id
    · subst hx
      rw [hid, Option.some.injEq] at hr
      subst hr
      exact ⟨x, new, Finmap.lookup_insert _, hblocks ▸ hb⟩
    · exact ⟨x, record', by simpa [Finmap.lookup_insert_of_ne _ hx] using hr, hb⟩

end PathsIndexed

end EdgeLLM.Ports.ContextCache
