import EdgeLLM.Ports.ContextCachePublication
import EdgeLLM.Ports.ContextCacheSession

/-!
# What one call can do to a lease and the cache

Each public operation gets one theorem, relative to the pins `A` of all other
leases.  Growth, snapshots and throws are a `Session.Step`: the lease keeps
its pages in order and gains only fresh ones, and the cache gains nothing.  A
publication leaves the lease alone and adds at most the blocks it was given.
No operation fires an internal check.
-/

namespace EdgeLLM.Ports.ContextCache

open Verified Checked

set_option linter.unusedSectionVars false

variable {H : Type} [DecidableEq H]

/-! ## Pages of a resource list -/

/-- Base and draft K/V pages are bound by position; snapshots are not. -/
def ResourceType.isPage : ResourceType → Bool
  | .baseKvPage | .draftKvPage => true
  | .recurrentSnapshot | .partialKvSnapshot => false

/-- The ids of one type, in the order they were taken. -/
def pagesOf (t : ResourceType) (rs : List ResourceId) : List Int :=
  (rs.filter fun r => r.type = t).map ResourceId.index

section PagesOf

variable {t : ResourceType} {rs : List ResourceId} {r : ResourceId}

@[simp] theorem pagesOf_append (t : ResourceType) (as bs : List ResourceId) :
    pagesOf t (as ++ bs) = pagesOf t as ++ pagesOf t bs := by
  simp [pagesOf]

theorem pagesOf_map_same (t : ResourceType) (is : List Int) :
    pagesOf t (is.map (ResourceId.mk t)) = is := by
  simp [pagesOf, List.filter_map, Function.comp_def]

theorem pagesOf_map_other {t u : ResourceType} (h : u ≠ t) (is : List Int) :
    pagesOf t (is.map (ResourceId.mk u)) = [] := by
  simp [pagesOf, List.filter_map, Function.comp_def, h]

theorem mem_pagesOf {i : Int} : i ∈ pagesOf t rs ↔ ResourceId.mk t i ∈ rs := by
  simp only [pagesOf, List.mem_map, List.mem_filter, decide_eq_true_eq]
  constructor
  · rintro ⟨r, ⟨hr, rfl⟩, rfl⟩
    exact hr
  · intro h
    exact ⟨_, ⟨h, rfl⟩, rfl⟩

theorem nodup_pagesOf (h : rs.Nodup) : (pagesOf t rs).Nodup := by
  refine (h.filter _).map_on ?_
  intro a ha b hb hab
  simp only [List.mem_filter, decide_eq_true_eq] at ha hb
  obtain ⟨ta, ia⟩ := a
  obtain ⟨tb, ib⟩ := b
  simp only at ha hb hab
  rw [hab, ha.2, hb.2]

/-- Giving up a resource of another type leaves the pages alone. -/
theorem pagesOf_erase (h : r.type ≠ t) : pagesOf t (rs.erase r) = pagesOf t rs := by
  induction rs with
  | nil => rfl
  | cons x rs ih =>
    by_cases hx : x = r
    · subst hx
      simp [pagesOf, h]
    · rw [List.erase_cons_tail (by simpa using hx)]
      unfold pagesOf at ih ⊢
      by_cases hxt : x.type = t
      · simp [hxt, ih]
      · simp [hxt, ih]

omit [DecidableEq H] in
theorem pagesOf_bindings (plan : ReusePlan H) :
    pagesOf .baseKvPage plan.bindings = plan.basePageBindings ∧
      pagesOf .draftKvPage plan.bindings = plan.specPageBindings := by
  constructor <;>
    simp [ReusePlan.bindings, pagesOf_map_same, pagesOf_map_other]

end PagesOf

/-! ## Leases -/

/-- The page bindings are the owned pages in order; a released handle owns
nothing. -/
structure CacheRequestLease.WellFormed (lease : CacheRequestLease H) : Prop where
  base : lease.basePages = pagesOf .baseKvPage lease.activeResources
  spec : lease.specPages = pagesOf .draftKvPage lease.activeResources
  idle : lease.valid = false → lease.activeResources = []

namespace CacheRequestLease

variable {lease : CacheRequestLease H}

theorem wellFormed_default : ({} : CacheRequestLease H).WellFormed where
  base := rfl
  spec := rfl
  idle _ := rfl

@[simp] theorem own_activeResources (r : ResourceId) :
    (lease.own r).activeResources = lease.activeResources ++ [r] := rfl

@[simp] theorem own_valid (r : ResourceId) : (lease.own r).valid = lease.valid := rfl

theorem WellFormed.own (h : lease.WellFormed) (hv : lease.valid = true) (r : ResourceId) :
    (lease.own r).WellFormed where
  base := by
    rw [own_activeResources, pagesOf_append, ← h.base]
    by_cases ht : r.type = .baseKvPage <;> simp [CacheRequestLease.own, pagesOf, ht]
  spec := by
    rw [own_activeResources, pagesOf_append, ← h.spec]
    by_cases ht : r.type = .draftKvPage <;> simp [CacheRequestLease.own, pagesOf, ht]
  idle hidle := by
    rw [own_valid, hv] at hidle
    cases hidle

theorem ownAll (h : lease.WellFormed) (hv : lease.valid = true) :
    ∀ rs : List ResourceId, (rs.foldl CacheRequestLease.own lease).WellFormed ∧
      (rs.foldl CacheRequestLease.own lease).valid = true ∧
      (rs.foldl CacheRequestLease.own lease).activeResources = lease.activeResources ++ rs := by
  intro rs
  induction rs generalizing lease with
  | nil => exact ⟨h, hv, by simp⟩
  | cons r rs ih =>
    obtain ⟨hwf, hvalid, hres⟩ := ih (h.own hv r) hv
    exact ⟨hwf, hvalid, by simp [hres]⟩

end CacheRequestLease

namespace Session

open ContextCacheManager

variable {s s' s'' : Session H} {A : Multiset ResourceId}

/-- The invariant of one lease against the pins `A` of the others. -/
structure Sound (s : Session H) (A : Multiset ResourceId) : Prop where
  manager : s.manager.Sound (↑s.lease.activeResources + A)
  lease : s.lease.WellFormed

/-- `ps` are pages of type `t` that nobody held before the step and no record
owns after it. -/
structure FreshPages (t : ResourceType) (ps : List Int) (pinned cached : Multiset ResourceId) :
    Prop where
  nodup : ps.Nodup
  unpinned : ∀ p ∈ ps, ResourceId.mk t p ∉ pinned
  uncached : ∀ p ∈ ps, ResourceId.mk t p ∉ cached

/-- A step that adds nothing to the cache and only fresh pages to the lease. -/
structure Step (A : Multiset ResourceId) (s s' : Session H) : Prop where
  sound : s'.Sound A
  evolves : Evolves [] [] s.manager s'.manager
  pages : ∀ t, t.isPage = true → ∃ fresh,
    pagesOf t s'.lease.activeResources = pagesOf t s.lease.activeResources ++ fresh ∧
      FreshPages t fresh (↑s.lease.activeResources + A) s'.manager.records.cacheLedger

theorem FreshPages.nil (t : ResourceType) (pinned cached : Multiset ResourceId) :
    FreshPages t [] pinned cached where
  nodup := List.nodup_nil
  unpinned := by simp
  uncached := by simp

theorem Step.of_pages (hs : s'.Sound A) (hev : Evolves [] [] s.manager s'.manager)
    (hpages : ∀ t, t.isPage = true →
      pagesOf t s'.lease.activeResources = pagesOf t s.lease.activeResources) : Step A s s' where
  sound := hs
  evolves := hev
  pages t ht := ⟨[], by rw [hpages t ht, List.append_nil], .nil _ _ _⟩

theorem Step.refl (h : s.Sound A) : Step A s s :=
  .of_pages h (.refl _) fun _ _ => rfl

variable {m : ContextCacheManager H} {t : ResourceType} {p : PageId} {e : Check} {r : ResourceId}
variable {lease : CacheRequestLease H} {done : List ResourceId} {id : RecordId}
variable {record : CacheRecord H} {draft : List PageId} {specState : Option SpecPagedStateRecord}

/-- A cached page was cached before, when the cache gained nothing. -/
theorem page_of_evolves {m' : ContextCacheManager H} {B B' : Multiset ResourceId}
    (hev : Evolves [] [] m m') (hm : m.Consistent B) (hm' : m'.Consistent B') (ht : t.isPage = true)
    {p : Int} (hp : ResourceId.mk t p ∈ m'.records.cacheLedger) :
    ResourceId.mk t p ∈ m.records.cacheLedger := by
  cases t with
  | baseKvPage =>
    refine (hev.bases hm' hm.paths hp).resolve_right ?_
    rintro ⟨hash, hmem⟩
    simp at hmem
  | draftKvPage => exact (hev.drafts p hp).resolve_right (by simp)
  | recurrentSnapshot => cases ht
  | partialKvSnapshot => cases ht

/-- Steps compose: pages gained later are fresh also against those gained
before. -/
theorem Step.trans (h : Step A s s') (h' : Step A s' s'') : Step A s s'' where
  sound := h'.sound
  evolves := h.evolves.trans_nil h'.evolves
  pages t ht := by
    obtain ⟨ps, hps, hnew⟩ := h.pages t ht
    obtain ⟨qs, hqs, hnew'⟩ := h'.pages t ht
    -- pages owned at first are still owned in between
    have hstill : ∀ p, ResourceId.mk t p ∈ (↑s.lease.activeResources + A : Multiset ResourceId) →
        ResourceId.mk t p ∈ (↑s'.lease.activeResources + A : Multiset ResourceId) := by
      intro p hp
      rw [Multiset.mem_add, Multiset.mem_coe, ← mem_pagesOf] at hp ⊢
      rw [hps, List.mem_append]
      exact hp.imp_left Or.inl
    refine ⟨ps ++ qs, by rw [hqs, hps, List.append_assoc], ?_⟩
    refine { nodup := ?_, unpinned := ?_, uncached := ?_ }
    · refine List.nodup_append.2 ⟨hnew.nodup, hnew'.nodup, ?_⟩
      rintro p hp _ hq rfl
      refine hnew'.unpinned p hq ?_
      rw [Multiset.mem_add, Multiset.mem_coe, ← mem_pagesOf, hps, List.mem_append]
      exact Or.inl (Or.inr hp)
    · intro p hp
      rcases List.mem_append.1 hp with hp | hp
      · exact hnew.unpinned p hp
      · exact fun hmem => hnew'.unpinned p hp (hstill p hmem)
    · intro p hp hmem
      rcases List.mem_append.1 hp with hp | hp
      · exact hnew.uncached p hp (page_of_evolves h'.evolves h.sound.manager.toConsistent
          h'.sound.manager.toConsistent ht hmem)
      · exact hnew'.uncached p hp hmem

/-- What every operation guarantees when it throws. -/
def Fails (A : Multiset ResourceId) (s : Session H) (e : Check) (s' : Session H) : Prop :=
  e.internal = false ∧ Step A s s'

theorem Fails.here (h : s.Sound A) (he : e.internal = false) : Fails A s e s :=
  ⟨he, .refl h⟩

theorem ensures_onManager {α : Type} {f : Checked Check (ContextCacheManager H) α}
    {ok : α → Session H → Prop} {bad : Check → Session H → Prop} :
    (onManager f).Ensures ok bad s ↔
      f.Ensures (fun a m => ok a { s with manager := m }) (fun e m => bad e { s with manager := m })
        s.manager := by
  rw [onManager, ensures_zoom]

/-- Eviction, allocation and handover for a valid lease. -/
theorem evictAndAllocate_spec (h : s.Sound A) (hv : s.lease.valid = true) {demand : ResourceDemand}
    {eviction : EvictionPlan} {failure : Check} (hfail : failure.internal = false)
    (hnodup : eviction.victims.Nodup) (hmem : ∀ id ∈ eviction.victims, id ∈ s.manager.records.lru) :
    (evictAndAllocate demand eviction failure).Ensures
      (fun _ s' => Step A s s' ∧ s'.lease.valid = true) (Fails A s) s := by
  unfold evictAndAllocate
  rw [ensures_bind, ensures_onManager]
  refine (applyEviction_spec _ _ h.manager hnodup hmem).mono ?_ fun _ _ hf => hf.elim
  rintro _ m1 ⟨hm1, hev⟩
  have hstep : Step A s { s with manager := m1 } :=
    .of_pages { manager := hm1, lease := h.lease } hev fun _ _ => rfl
  rw [ensures_bind, ensures_onManager, ensures_zoom, ensures_update]
  by_cases hnn : demand.isNonNegative = true
  · rcases ResourcePools.allocateInto_spec hm1.accounts hnn with
      ⟨-, halloc⟩ | ⟨hcan, pools, halloc, hpools⟩
    · rw [halloc, outcome_ok]
      exact ⟨hfail, hstep⟩
    · rw [halloc, outcome_ok]
      have hfresh := hm1.accounts.peekDemand_fresh hcan
      set rs := m1.pools.peekDemand demand with hrs
      obtain ⟨hwf, hvalid, hres⟩ := CacheRequestLease.ownAll h.lease hv rs
      refine ⟨?_, hvalid⟩
      refine
        { sound := { manager := ?_, lease := hwf }
          evolves := ?_
          pages := ?_ }
      · rw [← add_assoc, Multiset.coe_add] at hpools
        refine hm1.withPools ?_
        show pools.Accounts (↑(rs.foldl CacheRequestLease.own s.lease).activeResources + A) _
        rw [hres, ← Multiset.coe_add, add_comm (↑s.lease.activeResources : Multiset ResourceId),
          Multiset.coe_add]
        exact hpools
      · exact hev.trans_nil (evolves_withPools m1 pools)
      · intro t _
        refine ⟨pagesOf t rs, ?_, ?_⟩
        · show pagesOf t (rs.foldl CacheRequestLease.own s.lease).activeResources = _
          rw [hres, pagesOf_append]
        · refine { nodup := nodup_pagesOf hfresh.nodup, unpinned := ?_, uncached := ?_ }
          · intro p hp
            exact Multiset.count_eq_zero.1 (hfresh.unpinned _ (mem_pagesOf.1 hp))
          · intro p hp
            exact Multiset.count_eq_zero.1 (hfresh.uncached _ (mem_pagesOf.1 hp))
  · have hneg : m1.pools.allocateInto demand demand.count = .error .demandNegative := by
      rw [ResourcePools.allocateInto, if_pos (by simpa using hnn)]
    rw [hneg, outcome_error]
    exact ⟨rfl, hstep⟩

theorem growPages_spec (h : s.Sound A) (hv : s.lease.valid = true) (demand : ResourceDemand) :
    (growPages demand).Ensures (fun _ s' => Step A s s' ∧ s'.lease.valid = true) (Fails A s) s := by
  unfold growPages
  rw [ensures_ite]
  refine ⟨fun _ => ⟨.refl h, hv⟩, fun _ => ?_⟩
  simp only [ensures_bind, ensures_read, ensures_ofExcept]
  refine (EvictionPlanner.plan_outcome h.manager.coherent none).mono ?_ fun e he => .here h he
  intro eviction hplan
  rw [ensures_ite]
  refine ⟨fun _ => ⟨.refl h, hv⟩, fun hf => ?_⟩
  obtain ⟨hnodup, hmem⟩ := hplan (by simpa using hf)
  rw [ensures_bind]
  exact evictAndAllocate_spec h hv rfl hnodup hmem

theorem growBasePages_spec (h : s.Sound A) (count : Int) :
    (growBasePages count).Ensures (fun _ s' => Step A s s') (Fails A s) s := by
  unfold growBasePages
  rw [ensures_bind, ensures_read]
  refine .checked (.here h rfl) fun hv => ?_
  iterate 2 refine .checked (.here h rfl) fun _ => ?_
  exact (growPages_spec h hv _).mono (fun _ _ hs => hs.1) fun _ _ hf => hf

theorem growSpecPages_spec (h : s.Sound A) (baseCount draftCount : Int) :
    (growSpecPages baseCount draftCount).Ensures (fun _ s' => Step A s s') (Fails A s) s := by
  unfold growSpecPages
  rw [ensures_bind, ensures_read]
  refine .checked (.here h rfl) fun hv => ?_
  iterate 2 refine .checked (.here h rfl) fun _ => ?_
  exact (growPages_spec h hv _).mono (fun _ _ hs => hs.1) fun _ _ hf => hf

/-! ## Snapshots -/

theorem reserveHybridSnapshots_spec (h : s.Sound A) (needsPartialKvSnapshot : Bool) :
    (reserveHybridSnapshots needsPartialKvSnapshot).Ensures (fun _ s' => Step A s s')
      (Fails A s) s := by
  unfold reserveHybridSnapshots
  rw [ensures_bind, ensures_read]
  refine .checked (.here h rfl) fun hv => ?_
  iterate 2 refine .checked (.here h rfl) fun _ => ?_
  rw [ensures_bind]
  refine (growPages_spec h hv _).mono ?_ fun _ _ hf => hf
  rintro grown s' ⟨hstep, -⟩
  rw [ensures_ite]
  refine ⟨fun _ => hstep, fun _ => ?_⟩
  simp only [ensures_bind, ensures_read, ensures_check]
  exact ⟨fun _ => hstep, fun _ => ⟨rfl, hstep⟩⟩

theorem releaseLeaseResource_spec (h : s.Sound A) (hr : r.type.isPage = false) :
    (releaseLeaseResource r).Ensures
      (fun _ s' => Step A s s' ∧ s'.lease.valid = s.lease.valid) (Fails A s) s := by
  unfold releaseLeaseResource
  simp only [ensures_bind, ensures_read, ensures_check]
  refine ⟨fun hmem => ?_, fun _ => .here h rfl⟩
  have hcons : (↑s.lease.activeResources : Multiset ResourceId) =
      r ::ₘ ↑(s.lease.activeResources.erase r) := by
    rw [Multiset.cons_coe, Multiset.coe_eq_coe]
    exact List.perm_cons_erase hmem
  have hacc := h.manager.accounts
  rw [hcons, Multiset.cons_add] at hacc
  obtain ⟨pools, hrel, hpools⟩ := ResourcePools.releaseActiveRef_spec hacc
  rw [onLease, ensures_modify, ensures_onManager, ensures_onPools, hrel, outcome_ok]
  have hkeep : ∀ t : ResourceType, t.isPage = true →
      pagesOf t (s.lease.activeResources.erase r) = pagesOf t s.lease.activeResources := by
    intro t ht
    refine pagesOf_erase ?_
    rintro rfl
    rw [hr] at ht
    cases ht
  refine ⟨.of_pages { manager := h.manager.withPools hpools, lease := ?_ }
    (evolves_withPools _ pools) hkeep, rfl⟩
  exact
    { base := h.lease.base.trans (hkeep _ rfl).symm
      spec := h.lease.spec.trans (hkeep _ rfl).symm
      idle := fun hidle => by
        show s.lease.activeResources.erase r = []
        rw [h.lease.idle hidle, List.erase_nil] }

theorem releaseSnapshot_spec (h : s.Sound A) (ht : t.isPage = false) (slot : Option Int) :
    (releaseSnapshot t slot).Ensures (fun _ s' => Step A s s') (Fails A s) s := by
  cases slot with
  | none => exact .refl h
  | some slot =>
    exact (releaseLeaseResource_spec h (r := ⟨t, slot⟩) ht).mono (fun _ _ hs => hs.1)
      fun _ _ hf => hf

/-- Changing what a lease remembers besides its resources. -/
theorem Step.relabel (h : Step A s s') (hres : lease.activeResources = s'.lease.activeResources)
    (hbase : lease.basePages = s'.lease.basePages) (hspec : lease.specPages = s'.lease.specPages)
    (hvalid : lease.valid = s'.lease.valid) : Step A s { s' with lease := lease } := by
  refine h.trans (.of_pages { manager := ?_, lease := ?_ } (.refl _) fun t _ => by rw [hres])
  · show s'.manager.Sound (↑lease.activeResources + A)
    rw [hres]
    exact h.sound.manager
  · exact
      { base := by rw [hbase, hres]; exact h.sound.lease.base
        spec := by rw [hspec, hres]; exact h.sound.lease.spec
        idle := fun hidle => by rw [hres]; exact h.sound.lease.idle (hvalid ▸ hidle) }

theorem Fails.after (h : Step A s s') (hf : Fails A s' e s'') : Fails A s e s'' :=
  ⟨hf.1, h.trans hf.2⟩

theorem releaseRestoredHybridSnapshots_spec (h : s.Sound A) :
    releaseRestoredHybridSnapshots.Ensures (fun _ s' => Step A s s') (Fails A s) s := by
  unfold releaseRestoredHybridSnapshots
  simp only [ensures_bind, ensures_read, ensures_check]
  refine ⟨fun _ => ?_, fun _ => .here h rfl⟩
  refine (releaseSnapshot_spec h rfl _).mono ?_ fun _ _ hf => hf
  intro _ s1 h1
  rw [onLease, ensures_modify]
  have h2 : Step A s { s1 with lease := { s1.lease with recurrentSnapshotBinding := none } } :=
    h1.relabel rfl rfl rfl rfl
  refine (releaseSnapshot_spec h2.sound rfl _).mono ?_ fun _ _ hf => .after h2 hf
  intro _ s3 h3
  rw [onLease, ensures_modify]
  exact (h2.trans h3).relabel rfl rfl rfl rfl

theorem retireHybridSnapshotReservation_spec (h : s.Sound A)
    (reservation : HybridSnapshotReservation) :
    (retireHybridSnapshotReservation reservation).Ensures (fun _ s' => Step A s s')
      (Fails A s) s := by
  unfold retireHybridSnapshotReservation
  simp only [ensures_bind, ensures_read, ensures_check]
  refine ⟨fun _ => ?_, fun _ => .here h rfl⟩
  refine (releaseLeaseResource_spec h
    (r := ⟨.recurrentSnapshot, reservation.recurrentSnapshotSlot⟩) rfl).mono ?_ fun _ _ hf => hf
  rintro _ s1 ⟨h1, -⟩
  exact (releaseSnapshot_spec h1.sound rfl _).mono (fun _ _ h2 => h1.trans h2)
    fun _ _ hf => .after h1 hf

theorem releaseAll_spec :
    ∀ (rs : List ResourceId) (s : Session H), s.manager.Sound (↑rs + A) → (forEach
        (fun r => onManager (onPools fun pools => pools.releaseActiveRef r)) rs).Ensures
        (fun _ s' => ∃ pools, s' = { s with manager := { s.manager with pools := pools } } ∧
          s'.manager.Sound A) (fun _ _ => False) s := by
  intro rs
  induction rs with
  | nil => intro s h; exact ⟨s.manager.pools, rfl, by simpa using h⟩
  | cons r rs ih =>
    intro s h
    have hacc := h.accounts
    rw [← Multiset.cons_coe, Multiset.cons_add] at hacc
    obtain ⟨pools, hrel, hpools⟩ := ResourcePools.releaseActiveRef_spec hacc
    refine ensures_bind.2 ?_
    rw [ensures_onManager, ensures_onPools, hrel, outcome_ok]
    exact ih _ (h.withPools hpools)

/-- `release` cannot throw: it returns the pins and resets the handle. -/
theorem release_spec (h : s.Sound A) :
    release.Ensures
      (fun _ s' => s'.lease = {} ∧ ∃ pools, s'.manager = { s.manager with pools := pools } ∧
        s'.manager.Sound A) (fun _ _ => False) s := by
  unfold release
  rw [ensures_bind, ensures_read, ensures_ite]
  refine ⟨fun _ => ?_, fun hv => ?_⟩
  · rw [ensures_noexcept]
    unfold releaseLease
    simp only [ensures_bind, ensures_read]
    refine (releaseAll_spec _ s h.manager).mono ?_ fun _ _ hf => hf
    rintro _ s' ⟨pools, rfl, hs⟩
    rw [onLease, ensures_modify]
    exact ⟨rfl, pools, rfl, hs⟩
  · rw [onLease, ensures_modify]
    have hm := h.manager
    rw [h.lease.idle (by simpa using hv), Multiset.coe_nil, zero_add] at hm
    exact ⟨rfl, s.manager.pools, rfl, hm⟩

/-! ## Acquisition -/

/-- A lease just acquired: the bound pages, all cached before, then fresh
private ones. -/
structure Acquired (m : ContextCacheManager H) (A : Multiset ResourceId) (plan : ReusePlan H)
    (lease : CacheRequestLease H) (m' : ContextCacheManager H) : Prop where
  sound : Sound ⟨m', lease⟩ A
  evolves : Evolves [] [] m m'
  pages : ∀ t, t.isPage = true → ∃ fresh,
    pagesOf t lease.activeResources = pagesOf t plan.bindings ++ fresh ∧
      FreshPages t fresh (↑plan.bindings + A) m'.records.cacheLedger

/-- Progress of the pinning loop: the lease owns `done`, the pools count it. -/
structure Pinned (m : ContextCacheManager H) (A : Multiset ResourceId)
    (lease : CacheRequestLease H) (done : List ResourceId) (s' : Session H) : Prop where
  lease : s'.lease = done.foldl CacheRequestLease.own lease
  manager : ∃ pools, s'.manager = { m with pools := pools } ∧
    pools.Accounts (↑done + A) m.records.cacheLedger

theorem pin_spec (h : Pinned m A lease done s) (hr : r ∈ m.records.cacheLedger) :
    (pin r).Ensures (fun _ s' => Pinned m A lease (done ++ [r]) s')
      (fun e s' => e.internal = false ∧ Pinned m A lease done s') s := by
  obtain ⟨pools, hm, hpools⟩ := h.manager
  have hmem : r ∈ (↑done + A : Multiset ResourceId) + m.records.cacheLedger :=
    Multiset.mem_add.2 (Or.inr hr)
  unfold pin
  rw [ensures_bind, ensures_onManager, ensures_onPools, hm]
  rcases ResourcePools.addActiveRef_spec hpools hmem with ⟨pools', hadd, hpools'⟩ | hover
  · rw [hadd, outcome_ok, onLease, ensures_modify]
    refine { lease := by simp [h.lease], manager := ⟨pools', rfl, ?_⟩ }
    rw [← Multiset.coe_add, add_right_comm, add_comm, Multiset.coe_singleton,
      Multiset.singleton_add]
    exact hpools'
  · rw [hover, outcome_error]
    refine ⟨rfl, { lease := h.lease, manager := ⟨pools, rfl, hpools⟩ }⟩

theorem Pinned.sound (h : Pinned m A lease done s) (hm : m.Sound A) (hwf : lease.WellFormed)
    (hv : lease.valid = true) (hnil : lease.activeResources = []) :
    s.Sound A ∧ s.lease.valid = true ∧ s.lease.activeResources = done ∧
      ∃ pools, s.manager = { m with pools := pools } := by
  obtain ⟨m', lease'⟩ := s
  obtain ⟨hlease, pools, hmanager, hpools⟩ := h
  simp only at hlease hmanager
  subst hlease hmanager
  obtain ⟨hwf', hv', hres⟩ := CacheRequestLease.ownAll hwf hv done
  rw [hnil, List.nil_append] at hres
  refine ⟨{ manager := ?_, lease := hwf' }, hv', hres, pools, rfl⟩
  rw [hres]
  exact hm.withPools hpools

/-- Touching a record, stored or not, changes the LRU order only. -/
theorem touchStored_spec (h : m.Sound A) (id : Option RecordId) :
    (touchStored id).Ensures (fun _ m' => m'.Sound A ∧ Evolves [] [] m m') (fun _ _ => False)
      m := by
  unfold touchStored
  rw [ensures_bind, ensures_read]
  cases hid : id.filter fun id => m.records.contains id with
  | none => exact ⟨h, .refl m⟩
  | some id =>
    obtain ⟨-, hc⟩ := Option.filter_eq_some_iff.1 hid
    obtain ⟨record, hr⟩ := CacheRecordStore.contains_iff.1 hc
    rw [ensures_touch hr]
    exact ⟨h.moveToBack ((h.coherent.lru_mem id).2 ⟨record, hr⟩), evolves_moveToBack m id⟩

theorem acquireBody_spec {plan : ReusePlan H} (hm : m.Sound A)
    (hcached : ∀ r ∈ plan.bindings, r ∈ m.records.cacheLedger) : (acquireBody plan).Ensures
      (fun acquired s' => s'.Sound A ∧ Evolves [] [] m s'.manager ∧
        (acquired = true → Acquired m A plan s'.lease s'.manager))
      (fun e s' => e.internal = false ∧ s'.Sound A ∧ Evolves [] [] m s'.manager)
      ⟨m, leaseOfPlan plan⟩ := by
  have hwf : (leaseOfPlan plan).WellFormed := { base := rfl, spec := rfl, idle := fun _ => rfl }
  unfold acquireBody
  rw [ensures_bind]
  have hpins := Ensures.forEachProgress (Pinned m A (leaseOfPlan plan)) plan.bindings
    (fun done r rest s hall hs => pin_spec hs (hcached r (by rw [hall]; simp)))
    ⟨m, leaseOfPlan plan⟩
    { lease := rfl, manager := ⟨m.pools, rfl, by simpa using hm.accounts⟩ }
  refine hpins.mono ?_ ?_
  rotate_left
  · rintro e s' ⟨he, k, hp⟩
    obtain ⟨hs, -, -, pools, hmanager⟩ := hp.sound hm hwf rfl rfl
    exact ⟨he, hs, hmanager ▸ evolves_withPools m pools⟩
  intro _ s1 hp
  obtain ⟨hs1, hv1, hres1, pools, hmanager⟩ := hp.sound hm hwf rfl rfl
  have hev1 : Evolves [] [] m s1.manager := hmanager ▸ evolves_withPools m pools
  simp only [ensures_bind, ensures_read, ensures_ofExcept]
  refine (EvictionPlanner.plan_outcome hs1.manager.coherent _).mono ?_
    fun e he => ⟨he, hs1, hev1⟩
  intro eviction hplan
  rw [ensures_ite]
  refine ⟨fun _ => ⟨hs1, hev1, fun hc => by cases hc⟩, fun hf => ?_⟩
  obtain ⟨hnodup, hmem⟩ := hplan (by simpa using hf)
  simp only [ensures_bind]
  refine (evictAndAllocate_spec hs1 hv1 rfl hnodup hmem).mono ?_ ?_
  rotate_left
  · rintro e s' ⟨he, hstep⟩
    exact ⟨he, hstep.sound, hev1.trans_nil hstep.evolves⟩
  rintro _ s2 ⟨hstep, -⟩
  rw [ensures_onManager]
  refine (touchStored_spec hstep.sound.manager _).mono ?_ fun _ _ hf => hf.elim
  rintro _ m3 ⟨hm3, hev3⟩
  rw [ensures_onManager]
  refine (touchStored_spec hm3 _).mono ?_ fun _ _ hf => hf.elim
  rintro _ m4 ⟨hm4, hev4⟩
  have hall : Step A s1 { s2 with manager := m4 } :=
    hstep.trans (.of_pages { manager := hm4, lease := hstep.sound.lease }
      (hev3.trans_nil hev4) fun _ _ => rfl)
  refine ⟨hall.sound, hev1.trans_nil hall.evolves, fun _ => ?_⟩
  refine { sound := hall.sound, evolves := hev1.trans_nil hall.evolves, pages := ?_ }
  intro t ht
  obtain ⟨fresh, hfresh, hnew⟩ := hall.pages t ht
  rw [hres1] at hfresh hnew
  exact ⟨fresh, hfresh, hnew⟩

/-- `acquire`: a lease, or a refusal or throw that leaves no pin behind. -/
theorem acquire_spec {plan : ReusePlan H} (hm : m.Sound A)
    (hcached : ∀ r ∈ plan.bindings, r ∈ m.records.cacheLedger) :
    (acquire plan).Ensures
      (fun result m' => result.plan = plan ∧ match result.lease with
        | some lease => Acquired m A plan lease m'
        | none => m'.Sound A ∧ Evolves [] [] m m')
      (fun e m' => e.internal = false ∧ m'.Sound A ∧ Evolves [] [] m m') m := by
  -- releasing the local lease drops exactly its pins
  have hrelease : ∀ s' : Session H, s'.Sound A → Evolves [] [] m s'.manager →
      release.Ensures (fun _ s'' => s''.manager.Sound A ∧ Evolves [] [] m s''.manager)
        (fun _ _ => False) s' := by
    intro s' hs hev
    refine (release_spec hs).mono ?_ fun _ _ hf => hf
    rintro _ s'' ⟨-, pools, hmanager, hsound⟩
    refine ⟨hsound, ?_⟩
    rw [hmanager]
    exact hev.trans_nil (evolves_withPools _ pools)
  unfold acquire acquireLease
  rw [ensures_zoom, ensures_bind, ensures_onThrow]
  refine (acquireBody_spec hm hcached).mono ?_ ?_
  · rintro acquired s' ⟨hs, hev, hacq⟩
    cases acquired with
    | true =>
      simp only [if_true, ensures_bind, ensures_read, ensures_pure]
      exact ⟨trivial, hacq rfl⟩
    | false =>
      simp only [Bool.false_eq_true, if_false, ensures_bind]
      refine (hrelease s' hs hev).mono ?_ fun _ _ hf => hf.elim
      intro _ s'' hs''
      exact ⟨rfl, hs''⟩
  · rintro e s' ⟨he, hs, hev⟩
    refine (hrelease s' hs hev).mono ?_ fun _ _ hf => hf.elim
    intro _ s'' hs''
    exact ⟨he, hs''⟩

/-- Planning binds cached pages, whichever of the four planners runs. -/
theorem makePlan_bound (hm : m.Sound A) (request : AcquireRequest H) (hashes : List H)
    (tokenCount : Int) (policy : ContextCacheLookupPolicy) :
    Outcome (m.makePlan request hashes tokenCount policy)
      (fun plan => plan.Bound m.baseIndex m.records.cacheLedger hashes m.pageSize)
      fun e => e.internal = false := by
  cases request with
  | vanilla => exact makeVanillaReusePlan_bound hm.paths
  | spec =>
    unfold makePlan
    cases m.specReuseContract with
    | none => rfl
    | some contract => exact makeSpecReusePlan_bound hm.paths hm.coherent hm.carries
  | hybrid candidates hasAttention =>
    exact makeHybridReusePlan_bound hm.paths hm.coherent hm.pageSize_pos
  | hybridMtp candidates =>
    exact makeHybridMtpReusePlan_bound hm.paths hm.coherent hm.pageSize_pos

theorem acquireRequest_spec (hm : m.Sound A) (request : AcquireRequest H) (hashes : List H)
    (tokenCount : Int) (policy : ContextCacheLookupPolicy) (coverage : Option (Int × Int)) :
    (acquireRequest request hashes tokenCount policy coverage).Ensures
      (fun result m' =>
        result.plan.Bound m.baseIndex m.records.cacheLedger hashes m.pageSize ∧
        match result.lease with
        | some lease => Acquired m A result.plan lease m'
        | none => m'.Sound A ∧ Evolves [] [] m m')
      (fun e m' => e.internal = false ∧ m'.Sound A ∧ Evolves [] [] m m') m := by
  unfold acquireRequest
  simp only [ensures_bind, ensures_read, ensures_ofExcept]
  refine (makePlan_bound hm request hashes tokenCount policy).mono ?_
    fun e he => ⟨he, hm, .refl m⟩
  intro plan hplan
  refine Outcome.mono (?_ : Outcome _
    (fun plan => plan.Bound m.baseIndex m.records.cacheLedger hashes m.pageSize)
    fun e => e.internal = false) ?_ fun e he => ⟨he, hm, .refl m⟩
  · cases coverage with
    | none => exact hplan
    | some pages => exact requireKvPageCoverage_bound hplan
  intro plan hplan
  refine (acquire_spec hm hplan.cached).mono ?_ fun _ _ hbad => hbad
  rintro result m' ⟨rfl, hresult⟩
  exact ⟨hplan, hresult⟩

/-! ## Publication -/

/-- A publication that returned: the lease is as before, the cache gained at
most the first `count` blocks of the lease. -/
structure Published (A : Multiset ResourceId) (hashes : List H) (count : Nat) (s : Session H)
    (result : PublishResult) (s' : Session H) : Prop where
  lease : s'.lease = s.lease
  sound : s'.Sound A
  evolves : Evolves ((hashes.take count).zip s.lease.basePages) (s.lease.specPages.take count)
    s.manager s'.manager
  existing : result.status = .existingRecord → Evolves [] [] s.manager s'.manager
  count : result.publishedBaseFullBlockCount = count

/-- A checkpoint publication that throws: nothing changes, unless another
record stands under its key, which becomes the most recently used one. -/
def Undone (request : HybridPublishRequest H) (s : Session H) (e : Check) (s' : Session H) : Prop :=
  e.internal = false ∧ (s' = s ∨ ∃ id ∈ s.manager.records.lru,
    s.manager.records.findHybrid request.checkpoint = none ∧
    s.manager.records.find
      ⟨request.checkpoint.exactPrefixDigest, request.fullBlockHashes.length⟩ = some id ∧
    s' = { s with manager :=
      { s.manager with records := s.manager.records.moveToBack id } })

theorem Undone.here {request : HybridPublishRequest H} (he : e.internal = false) :
    Undone request s e s :=
  ⟨he, Or.inl rfl⟩

theorem Undone.fails {request : HybridPublishRequest H} (h : s.Sound A)
    (hundone : Undone request s e s') : Fails A s e s' := by
  rcases hundone with ⟨he, rfl | ⟨id, hid, -, -, rfl⟩⟩
  · exact .here h he
  · exact ⟨he, .of_pages { manager := h.manager.moveToBack hid, lease := h.lease }
      (evolves_moveToBack s.manager id) fun _ _ => rfl⟩

variable {count : Nat} {path : List (H × PageId)}

theorem touch_publishes (h : m.Sound A) (hid : m.records.records.lookup id = some record) {pages : List PageId}
    {bad : Check → ContextCacheManager H → Prop} :
    (do
      ContextCacheManager.touch id
      pure ⟨.existingRecord, some id, pages, count⟩ :
        Checked Check (ContextCacheManager H) PublishResult).Ensures
      (Publishes m A path draft count) bad m := by
  rw [ensures_bind, ensures_touch hid, ensures_pure]
  exact
    { sound := h.moveToBack ((h.coherent.lru_mem id).2 ⟨record, hid⟩)
      evolves := evolves_moveToBack m id
      existing := fun _ => evolves_moveToBack m id
      count := rfl }

theorem publishExisting_spec (h : m.Sound A) (hid : m.records.records.lookup id = some record) (hpos : 0 < count) (hkey : record.key.fullBlockCount = count)
    (hspec : ∀ state, specState = some state → state.pagePath.length = count ∧
      ∀ p ∈ state.pagePath, ResourceId.mk .draftKvPage p ∈ A) :
    (publishExisting id count specState).Ensures (Publishes m A path (specPages specState) count)
      (fun e m' => e.internal = false ∧ m' = m) m := by
  unfold publishExisting
  simp only [ensures_bind, ensures_getRecord hid, ensures_check]
  refine ⟨fun hlong => ?_, fun _ => ⟨rfl, trivial⟩⟩
  cases hstate : specState with
  | none => exact touch_publishes h hid
  | some state =>
    cases hold : record.specState with
    | some old => exact touch_publishes h hid
    | none =>
      obtain ⟨hlen, hpages⟩ := hspec state hstate
      have hvalid := h.coherent.valid id record hid
      have hbase : record.basePagePath.length = count := by
        have hv := validateRecord_ok hvalid
        have hlogical := hv.logical
        rw [hkey, Int.toNat_natCast] at hlogical
        rcases hv.base with ⟨-, hnil⟩ | hb
        · rw [hnil, List.length_nil] at hlong
          omega
        · rw [hb, hlogical]
      have hnonneg : hasNegativePage state.pagePath = false := by
        rw [hasNegativePage, List.any_eq_false]
        intro p hp
        have := h.accounts.index_nonneg (Multiset.mem_add.2 (Or.inl (hpages p hp)))
        simpa using this
      have hupgrade := validateRecord_upgrade hvalid (validateSpecState_eq_ok.2
        ⟨List.ne_nil_of_length_pos (by omega), by rw [hlen, hbase], hnonneg⟩)
      rw [ensures_bind]
      refine (upgradeRecord_spec h hid hold hpages hupgrade).mono ?_ fun _ _ hbad => hbad
      rintro _ m' ⟨hsound, hev⟩
      rw [ensures_pure]
      exact
        { sound := hsound
          evolves := { hev with
            indexed := fun hash page hl => Or.inl
              ((hev.indexed hash page hl).resolve_right (by simp)) }
          existing := fun he => by cases he
          count := rfl }

theorem publishedSpecState_outcome (lease : CacheRequestLease H)
    (contract : Option SpecReuseContract) (hashes : List H) (residentStateLength : Int) :
    Outcome (publishedSpecState lease contract hashes residentStateLength)
      (fun state => ∀ paged, state = some paged → paged.pagePath.length = hashes.length ∧
        paged.pagePath = lease.specPages.take hashes.length) fun e => e.internal = false := by
  unfold publishedSpecState
  split
  · rename_i contract hmode
    unfold makeSpecPublishedState
    rw [outcome_bind, outcome_requireThat]
    refine ⟨fun _ => ?_, fun _ => rfl⟩
    cases howns : contract.ownsPagedSpecState with
    | false => simp
    | true =>
      simp only [Bool.true_eq_false, if_false, if_true, outcome_bind, outcome_requireThat]
      refine ⟨fun hlen => ?_, fun _ => rfl⟩
      by_cases hnil : hashes = []
      · simp [hnil]
      · simp only [hnil, if_false, outcome_ok]
        rintro paged ⟨⟩
        exact ⟨hlen, rfl⟩
  · simp

/-- A manager publication run on behalf of a lease. -/
theorem published_of_publishes (h : s.Sound A) {hashes : List H} (hpath : ∀ b ∈ path, b ∈ (hashes.take count).zip s.lease.basePages)
    (hdraft : ∀ p ∈ draft, p ∈ s.lease.specPages.take count)
    {f : Checked Check (ContextCacheManager H) PublishResult} {bad : Check → Session H → Prop}
    (hf : f.Ensures (Publishes s.manager (↑s.lease.activeResources + A) path draft count)
      (fun e m' => bad e { s with manager := m' }) s.manager) :
    (onManager f).Ensures (Published A hashes count s) bad s := by
  rw [ensures_onManager]
  refine hf.mono ?_ fun _ _ hbad => hbad
  intro result m' hp
  exact
    { lease := rfl
      sound := { manager := hp.sound, lease := h.lease }
      evolves := { hp.evolves with
        indexed := fun hash page hl => (hp.evolves.indexed hash page hl).imp_right (hpath _)
        drafts := fun page hd => (hp.evolves.drafts page hd).imp_right (hdraft _) }
      existing := hp.existing
      count := hp.count }

theorem Sound.draft_pinned (h : s.Sound A) (hp : p ∈ s.lease.specPages) :
    ResourceId.mk .draftKvPage p ∈ (↑s.lease.activeResources + A : Multiset ResourceId) := by
  rw [h.lease.spec] at hp
  exact Multiset.mem_add.2 (Or.inl (mem_pagesOf.1 hp))

theorem Sound.base_pinned (h : s.Sound A) (hp : p ∈ s.lease.basePages) :
    ResourceId.mk .baseKvPage p ∈ (↑s.lease.activeResources + A : Multiset ResourceId) := by
  rw [h.lease.base] at hp
  exact Multiset.mem_add.2 (Or.inl (mem_pagesOf.1 hp))

theorem publish_spec (h : s.Sound A) (request : PublishRequest H) : (publish request).Ensures
      (Published A request.fullBlockHashes (publishCount request s.manager.pageSize) s)
      (fun e s' => e.internal = false ∧ s' = s) s := by
  set count := publishCount request s.manager.pageSize with hcount
  unfold publish
  rw [ensures_bind, ensures_read]
  iterate 3 refine .checked ⟨rfl, rfl⟩ fun _ => ?_
  rw [ensures_bind, ensures_read]
  refine .checked ⟨rfl, rfl⟩ fun _ => .checked ⟨rfl, rfl⟩ fun hpos => ?_
  iterate 4 refine .checked ⟨rfl, rfl⟩ fun _ => ?_
  simp only [ensures_bind, ensures_ofExcept, ← hcount]
  have hlen : (request.fullBlockHashes.take count).length = count := by
    rw [List.length_take, hcount, publishCount]
    omega
  refine (publishedSpecState_outcome _ _ _ _).mono ?_ fun e he => ⟨he, trivial⟩
  rw [hlen]
  intro specState hspec
  have hdraft : ∀ p ∈ specPages specState, p ∈ s.lease.specPages.take count := by
    intro p hp
    cases specState with
    | none => simp [specPages] at hp
    | some paged =>
      rw [← (hspec paged rfl).2]
      exact hp
  have hpinned : ∀ p ∈ specPages specState,
      ResourceId.mk .draftKvPage p ∈ (↑s.lease.activeResources + A : Multiset ResourceId) :=
    fun p hp => h.draft_pinned (List.mem_of_mem_take (hdraft p hp))
  cases hlast : (request.fullBlockHashes.take count).getLast? with
  | none => exact ⟨rfl, rfl⟩
  | some terminalHash =>
    simp only
    cases hfind : s.manager.records.find ⟨terminalHash, count⟩ with
    | some existing =>
      obtain ⟨record, hid, hkey⟩ := (h.manager.coherent.exact _ existing).1 hfind
      have hpub : (publishExisting existing count specState).Ensures
          (Publishes s.manager (↑s.lease.activeResources + A) [] (specPages specState) count)
          (fun e m' => e.internal = false ∧ m' = s.manager) s.manager := by
        refine publishExisting_spec h.manager hid hpos (by rw [hkey]) ?_
        intro state hstate
        subst hstate
        exact ⟨(hspec state rfl).1, hpinned⟩
      refine published_of_publishes h (by simp) hdraft (hpub.mono (fun _ _ hp => hp) ?_)
      rintro e m' ⟨he, rfl⟩
      exact ⟨he, rfl⟩
    | none =>
      have hpub := publishRecord_spec h.manager
        { key := ⟨terminalHash, count⟩
          logicalBlockHashes := request.fullBlockHashes.take count
          basePagePath := []
          specState := specState }
        true (fun p hp => h.base_pinned hp) (by
          rintro ⟨t, i⟩ hr ht
          simp only [CacheRecord.resources, List.map_nil, Option.toList_none, List.nil_append,
            List.append_nil, List.mem_map, ResourceId.mk.injEq] at hr
          obtain ⟨p, hp, rfl, rfl⟩ := hr
          exact hpinned p hp)
      simp only [if_true, hlen] at hpub
      refine published_of_publishes h (fun _ hb => hb) hdraft (hpub.mono (fun _ _ hp => hp) ?_)
      rintro e m' ⟨he, rfl | ⟨id, -, hdup, rfl⟩⟩
      · exact ⟨he, rfl⟩
      · rw [CacheRecordStore.duplicate, hfind] at hdup
        cases hdup

theorem reportCheckpoint_spec (h : m.Sound A) (hid : m.records.records.lookup id = some record)
    (count : Nat) {bad : Check → ContextCacheManager H → Prop} :
    (reportCheckpoint id count).Ensures (Publishes m A [] [] count) bad m := by
  unfold reportCheckpoint
  rw [ensures_bind, ensures_getRecord hid]
  exact touch_publishes h hid

/-- Both checkpoint publications, after their own checks. -/
theorem publishCheckpoint_spec (h : s.Sound A) (request : HybridPublishRequest H) {hasPath : Bool}
    (hspec : ∀ p ∈ specPages specState, p ∈ s.lease.specPages.take request.fullBlockHashes.length)
    (hrecurrent : ⟨.recurrentSnapshot, request.snapshots.recurrentSnapshotSlot⟩ ∈
      s.lease.activeResources) (hpartialKv : ∀ slot ∈ request.snapshots.partialKvSnapshotSlot,
      ⟨.partialKvSnapshot, slot⟩ ∈ s.lease.activeResources) :
    (publishCheckpoint request specState hasPath).Ensures
      (Published A request.fullBlockHashes request.fullBlockHashes.length s) (Undone request s) s := by
  unfold publishCheckpoint
  rw [ensures_bind, ensures_read]
  simp only [id_eq]
  cases hfind : s.manager.records.findHybrid request.checkpoint with
  | some existing =>
    obtain ⟨record, hid, -⟩ := (h.manager.coherent.hybrid _ existing).1 hfind
    exact published_of_publishes h (by simp) (by simp)
      (reportCheckpoint_spec h.manager hid _)
  | none =>
    have hpub := publishRecord_spec h.manager (checkpointRecord request specState) hasPath
      (fun p hp => h.base_pinned hp) (by
        rintro ⟨t, i⟩ hr ht
        cases t with
        | baseKvPage => exact absurd rfl ht
        | draftKvPage =>
          exact h.draft_pinned
            (List.mem_of_mem_take (hspec i (CacheRecord.draft_mem_resources.1 hr)))
        | recurrentSnapshot =>
          have hi := CacheRecord.recurrent_mem_resources.1 hr
          cases hi
          exact Multiset.mem_add.2 (Or.inl hrecurrent)
        | partialKvSnapshot =>
          exact Multiset.mem_add.2
            (Or.inl (hpartialKv i (CacheRecord.partial_mem_resources.1 hr))))
    refine published_of_publishes h ?_ hspec (hpub.mono (fun _ _ hp => hp) ?_)
    · intro b hb
      rw [List.take_length]
      split at hb
      · exact hb
      · simp at hb
    · rintro e m' ⟨he, rfl | ⟨id, hid, hdup, rfl⟩⟩
      · exact .here he
      · refine ⟨he, Or.inr ⟨id, hid, hfind, ?_, rfl⟩⟩
        rwa [CacheRecordStore.duplicate, CacheRecord.hybridKey, checkpointRecord,
          Option.map_some, Option.bind_some, hfind, Option.none_or] at hdup

theorem publishHybrid_spec (h : s.Sound A) (request : HybridPublishRequest H) :
    (publishHybrid request).Ensures
      (Published A request.fullBlockHashes request.fullBlockHashes.length s) (Undone request s) s := by
  unfold publishHybrid
  rw [ensures_bind, ensures_read, ensures_bind, ensures_read]
  iterate 6 refine .checked (.here rfl) fun _ => ?_
  refine .checked (.here rfl) fun hrecurrent => ?_
  refine .checked (.here rfl) fun hpartialKv => .checked (.here rfl) fun _ => ?_
  exact publishCheckpoint_spec h request (by simp [specPages]) hrecurrent hpartialKv

theorem publishHybridMtp_spec (h : s.Sound A) (request : HybridPublishRequest H) :
    (publishHybridMtp request).Ensures
      (Published A request.fullBlockHashes request.fullBlockHashes.length s) (Undone request s) s := by
  unfold publishHybridMtp
  rw [ensures_bind, ensures_read, ensures_bind, ensures_read]
  iterate 6 refine .checked (.here rfl) fun _ => ?_
  refine .checked (.here rfl) fun hrecurrent => ?_
  refine .checked (.here rfl) fun hpartialKv => .checked (.here rfl) fun _ => ?_
  exact publishCheckpoint_spec h request (fun _ hp => hp) hrecurrent hpartialKv

end Session

end EdgeLLM.Ports.ContextCache
