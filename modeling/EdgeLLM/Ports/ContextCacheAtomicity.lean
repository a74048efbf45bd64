import EdgeLLM.Ports.ContextCacheRefusal

/-!
# Publications that throw

The rollback guard undoes references, mappings, record and speculative
entries, but not the touch of a duplicate: a checkpoint publication whose
record key is taken by another record throws with that record moved to the
most recently used end.
-/

namespace EdgeLLM.Ports.ContextCache

open Verified Checked

variable {H : Type} [DecidableEq H]

/-- No record but the most recently used one has the key of the checkpoint,
unless the checkpoint itself is stored. -/
def CacheRecordStore.KeyOpen (store : CacheRecordStore H) (request : HybridPublishRequest H) :
    Prop :=
  store.findHybrid request.checkpoint = none →
    ∀ id, store.find ⟨request.checkpoint.exactPrefixDigest, request.fullBlockHashes.length⟩ =
      some id → store.lru.getLast? = some id

omit [DecidableEq H] in
/-- Touching the most recently used record changes nothing. -/
theorem CacheRecordStore.moveToBack_last {store : CacheRecordStore H} {id : RecordId}
    (hnodup : store.lru.Nodup) (hlast : store.lru.getLast? = some id) :
    store.moveToBack id = store := by
  obtain ⟨front, hfront⟩ := List.getLast?_eq_some_iff.1 hlast
  have hnot : id ∉ front := by
    rw [hfront, List.nodup_append] at hnodup
    exact fun hmem => hnodup.2.2 id hmem id (List.mem_singleton_self id) rfl
  have hlru : store.lru.erase id ++ [id] = store.lru := by
    rw [hfront, List.erase_append_right _ hnot, List.erase_cons_head, List.append_nil]
  rw [moveToBack, hlru]

namespace Session

variable {s s' : Session H} {A : Multiset ResourceId} {request : HybridPublishRequest H} {e : Check}

theorem Undone.unchanged (h : Undone request s e s') (hs : s.Sound A)
    (hopen : s.manager.records.KeyOpen request) : e.internal = false ∧ s' = s := by
  obtain ⟨he, rfl | ⟨id, -, hhybrid, hfind, rfl⟩⟩ := h
  · exact ⟨he, rfl⟩
  · rw [CacheRecordStore.moveToBack_last hs.manager.coherent.lru_nodup (hopen hhybrid id hfind)]
    exact ⟨he, rfl⟩

end Session

namespace World

variable {w : World H} {handle : Nat} {held : Held H}

/-- In the state any run leaves, a publication that throws leaves manager and
lease as they were, a checkpoint publication as long as its key is open. -/
theorem run_publication_unchanged {pageSize maxRecords : Int} {capacities : ResourceDemand}
    {contract : Option SpecReuseContract} {m : ContextCacheManager H}
    (h : ContextCacheManager.make pageSize capacities maxRecords contract = .ok m)
    (ops : List (Op H)) (hw : w = run ops (start m)) (hheld : w.leases[handle]? = some held) :
    (∀ request e s', Session.publish request ⟨w.manager, held.lease⟩ = (.error e, s') →
      e.internal = false ∧ s' = ⟨w.manager, held.lease⟩) ∧
    ∀ request, w.manager.records.KeyOpen request →
      (∀ e s', Session.publishHybrid request ⟨w.manager, held.lease⟩ = (.error e, s') →
        e.internal = false ∧ s' = ⟨w.manager, held.lease⟩) ∧
      ∀ e s', Session.publishHybridMtp request ⟨w.manager, held.lease⟩ = (.error e, s') →
        e.internal = false ∧ s' = ⟨w.manager, held.lease⟩ := by
  have hs : w.Sound := hw ▸ run_sound ops (start_sound h)
  have hsession := hs.session hheld
  refine ⟨?_, fun request hopen => ⟨?_, ?_⟩⟩
  · intro request e s' hthrows
    exact (Session.publish_spec hsession request).of_error hthrows
  · intro e s' hthrows
    exact ((Session.publishHybrid_spec hsession request).of_error hthrows).unchanged hsession hopen
  · intro e s' hthrows
    exact ((Session.publishHybridMtp_spec hsession request).of_error hthrows).unchanged hsession
      hopen

/-- The page of a stored checkpoint cannot carry a second one under another
block hash; the refused publication leaves no trace. -/
theorem run_publication_unchanged_conflict :
    ∃ (m : ContextCacheManager Nat) (held : Held Nat),
      ContextCacheManager.make 2 { baseKvPages := 1, recurrentSnapshotSlots := 1 } 2 none = .ok m ∧
      ∀ w, w = run [.acquire (.hybrid [] true) [] 2 .useCache none,
          .reserveHybridSnapshots 0 false, .publishHybrid 0 ⟨[9], ⟨9, 2⟩, ⟨0, none⟩⟩] (start m) →
        w.leases[0]? = some held ∧
        Session.publishHybrid ⟨[8], ⟨8, 2⟩, ⟨0, none⟩⟩ ⟨w.manager, held.lease⟩ =
          (.error .pageAlreadyIndexed, ⟨w.manager, held.lease⟩) := by
  let m : ContextCacheManager Nat :=
    { pageSize := 2
      pools := ⟨fun t => Pool.make
        (({ baseKvPages := 1, recurrentSnapshotSlots := 1 } : ResourceDemand).get t).toNat⟩
      records := { maxRecords := 2 } }
  let held : Held Nat :=
    { lease :=
        { valid := true, mode := .hybrid, hybridHasAttention := true
          activeResources := [⟨.baseKvPage, 0⟩, ⟨.recurrentSnapshot, 0⟩]
          basePages := [0] }
      published := 1 }
  have hmake : ContextCacheManager.make 2 { baseKvPages := 1, recurrentSnapshotSlots := 1 } 2
      none = .ok m := rfl
  refine ⟨m, held, hmake, fun w hw => ?_⟩
  have hheld : w.leases[0]? = some held := by
    rw [hw]
    decide +kernel
  have hthrows : (Session.publishHybrid ⟨[8], ⟨8, 2⟩, ⟨0, none⟩⟩ ⟨w.manager, held.lease⟩).1 =
      .error .pageAlreadyIndexed := by
    rw [hw]
    decide +kernel
  have hfind : w.manager.records.find ⟨8, 1⟩ = none := by
    rw [hw]
    decide +kernel
  have hopen : w.manager.records.KeyOpen ⟨[8], ⟨8, 2⟩, ⟨0, none⟩⟩ := by
    intro _ id hid
    exact absurd (hfind.symm.trans hid) nofun
  have hkept := (run_publication_unchanged hmake _ hw hheld).2 _ hopen
  exact ⟨hheld, Prod.ext hthrows (hkept.1 _ _ (Prod.ext hthrows rfl)).2⟩

/-- A record of block 7 stands under the key of the checkpoint with digest 7:
the publication throws and leaves that record at the other end of the order. -/
theorem publishHybrid_reorders :
    ∃ (m : ContextCacheManager Nat) (held : Held Nat),
      ContextCacheManager.make 2 { baseKvPages := 4, recurrentSnapshotSlots := 1 } 3 none = .ok m ∧
      ∀ w, w = run [.acquire .vanilla [7] 3 .useCache none, .publish 0 ⟨[7], 2⟩, .release 0,
          .acquire .vanilla [8] 3 .useCache none, .publish 1 ⟨[8], 2⟩, .release 1,
          .acquire (.hybrid [] true) [] 2 .useCache none, .reserveHybridSnapshots 2 false]
          (start m) →
        w.leases[2]? = some held ∧ held.lease.valid = true ∧ w.manager.records.lru = [1, 2] ∧
        (Session.publishHybrid ⟨[7], ⟨7, 2⟩, ⟨0, none⟩⟩ ⟨w.manager, held.lease⟩).1 =
          .error .recordAppeared ∧
        (Session.publishHybrid ⟨[7], ⟨7, 2⟩, ⟨0, none⟩⟩
          ⟨w.manager, held.lease⟩).2.manager.records.lru = [2, 1] := by
  refine
    ⟨{ pageSize := 2
       pools := ⟨fun t => Pool.make
         (({ baseKvPages := 4, recurrentSnapshotSlots := 1 } : ResourceDemand).get t).toNat⟩
       records := { maxRecords := 3 } },
     { lease :=
         { valid := true, mode := .hybrid, hybridHasAttention := true
           activeResources := [⟨.baseKvPage, 1⟩, ⟨.recurrentSnapshot, 0⟩]
           basePages := [1] } }, rfl, fun w hw => ⟨?_, rfl, ?_, ?_, ?_⟩⟩
  · rw [hw]
    decide +kernel
  · rw [hw]
    decide +kernel
  · rw [hw]
    decide +kernel
  · rw [hw]
    decide +kernel

end World

end EdgeLLM.Ports.ContextCache
