import EdgeLLM.Ports.ContextCacheReachable

/-!
# Refused capacity requests

An acquisition pins its whole hit before it plans the eviction, so a refusal
has something to undo: the local lease drops the pins again.  The bound
resources are all cached, hence no slot reaches zero on the way back and no
free ring turns.  Growth and snapshot reservation plan first and touch nothing
when the plan is infeasible.
-/

namespace EdgeLLM.Ports.ContextCache

open Verified Checked

set_option linter.unusedSectionVars false

variable {H : Type} [DecidableEq H]

/-! ## Pools with extra pins -/

namespace ResourcePools

variable {base pools pools' : ResourcePools} {extra : Multiset ResourceId} {r : ResourceId}
  {slot : Slot}

/-- `pools` is `base` with the pins `extra` on top: same rings, same cache
references. -/
structure PinnedOver (base pools : ResourcePools) (extra : Multiset ResourceId) : Prop where
  freeList : ∀ t, (pools.pool t).freeList = (base.pool t).freeList
  size : ∀ t, (pools.pool t).slots.length = (base.pool t).slots.length
  slot : ∀ q, pools.slot? q = (base.slot? q).map fun slot =>
    { slot with activeRefCount := slot.activeRefCount + extra.count q }

theorem PinnedOver.refl (base : ResourcePools) : PinnedOver base base 0 where
  freeList _ := rfl
  size _ := rfl
  slot q := by cases base.slot? q <;> simp

theorem PinnedOver.eq (h : PinnedOver base pools 0) : pools = base := by
  obtain ⟨pool⟩ := pools
  obtain ⟨pool'⟩ := base
  congr 1
  funext t
  have hslots : (pool t).slots = (pool' t).slots := by
    apply List.ext_getElem?
    intro n
    have hs := h.slot ⟨t, (n : Int)⟩
    simpa [slot?, Pool.slot?] using hs
  have hfree := h.freeList t
  simp only at hfree
  cases hp : pool t with
  | mk slots ring =>
    cases hq : pool' t with
    | mk slots' ring' =>
      rw [hp, hq] at hslots hfree
      simp only at hslots hfree
      rw [hslots, hfree]

theorem slot?_setSlot_ne (hs : pools.slot? r = some slot) (new : Slot) {q : ResourceId}
    (hq : q ≠ r) : (pools.setSlot r new).slot? q = pools.slot? q := by
  unfold slot? setSlot
  by_cases ht : q.type = r.type
  · have hi : q.index ≠ r.index := by
      intro hi
      apply hq
      cases q
      cases r
      simp_all
    rw [ht, setPool_pool_self, Pool.slot?_setSlot_ne (Pool.slot?_nonneg hs) hi]
  · rw [setPool_pool_ne ht]

/-- Rewriting the pin count of one slot moves the extra pins there. -/
theorem PinnedOver.setSlot (extra' : Multiset ResourceId) (h : PinnedOver base pools extra)
    (hs : base.slot? r = some slot) (hother : ∀ q, q ≠ r → extra'.count q = extra.count q) :
    PinnedOver base
      (pools.setSlot r { slot with activeRefCount := slot.activeRefCount + extra'.count r })
      extra' where
  freeList t := by
    rw [← h.freeList t, ResourcePools.setSlot]
    by_cases ht : t = r.type
    · subst ht
      rw [setPool_pool_self, Pool.setSlot_freeList]
    · rw [setPool_pool_ne ht]
  size t := by
    rw [← h.size t, ResourcePools.setSlot]
    by_cases ht : t = r.type
    · subst ht
      rw [setPool_pool_self, Pool.setSlot_slots_length]
    · rw [setPool_pool_ne ht]
  slot q := by
    have hsr := h.slot r
    rw [hs, Option.map_some] at hsr
    by_cases hq : q = r
    · subst hq
      rw [slot?_setSlot_self hsr, hs, Option.map_some]
    · rw [slot?_setSlot_ne hsr _ hq, h.slot q, hother q hq]

theorem PinnedOver.addActiveRef (h : PinnedOver base pools extra)
    (hadd : pools.addActiveRef r = .ok pools') : PinnedOver base pools' (r ::ₘ extra) := by
  cases hs : base.slot? r with
  | none =>
    have hsr := h.slot r
    rw [hs, Option.map_none] at hsr
    rw [ResourcePools.addActiveRef, withSlot, hsr] at hadd
    cases hadd
  | some slot =>
    have hsr := h.slot r
    rw [hs, Option.map_some] at hsr
    rw [ResourcePools.addActiveRef, withSlot_eq hsr] at hadd
    split at hadd
    · cases hadd
    · split at hadd
      · cases hadd
        have hstep := h.setSlot (r ::ₘ extra) hs fun q hq =>
          Multiset.count_cons_of_ne hq extra
        rw [Multiset.count_cons_self, ← Nat.add_assoc] at hstep
        exact hstep
      · cases hadd

/-- Dropping an extra pin of a cached resource frees nothing. -/
theorem PinnedOver.releaseActiveRef (h : PinnedOver base pools (r ::ₘ extra))
    (hcached : 0 < base.cacheRefCount r) :
    ∃ pools', pools.releaseActiveRef r = .ok pools' ∧ PinnedOver base pools' extra := by
  cases hs : base.slot? r with
  | none =>
    rw [cacheRefCount, hs] at hcached
    cases hcached
  | some slot =>
    rw [cacheRefCount, hs, Option.map_some, Option.getD_some] at hcached
    have hsr := h.slot r
    rw [hs, Option.map_some, Multiset.count_cons_self] at hsr
    rw [ResourcePools.releaseActiveRef, withSlot_eq hsr, if_neg (by simp),
      if_neg (by simp only; omega)]
    refine ⟨_, rfl, ?_⟩
    rw [releaseIfUnused, if_neg (by simp only; omega)]
    exact h.setSlot extra hs fun q hq => (Multiset.count_cons_of_ne hq extra).symm

end ResourcePools

namespace Session

open ContextCacheManager

variable {s s' : Session H} {m m' : ContextCacheManager H}

/-! ## Acquisition -/

/-- The manager is `m` with the pins of a valid lease on top. -/
def PinnedOver (m : ContextCacheManager H) (s : Session H) : Prop :=
  s.lease.valid = true ∧ ∃ pools, s.manager = { m with pools := pools } ∧
    ResourcePools.PinnedOver m.pools pools ↑s.lease.activeResources

theorem pin_pinnedOver (h : PinnedOver m s) (r : ResourceId) :
    (pin r).Ensures (fun _ s' => PinnedOver m s' ∧
      s'.lease.activeResources = s.lease.activeResources ++ [r]) (fun _ _ => True) s := by
  obtain ⟨hv, pools, hm, hpools⟩ := h
  unfold pin
  rw [ensures_bind, ensures_onManager, ensures_onPools, hm]
  cases hadd : pools.addActiveRef r with
  | error e => trivial
  | ok pools' =>
    rw [outcome_ok, onLease, ensures_modify]
    refine ⟨⟨hv, pools', rfl, ?_⟩, rfl⟩
    have hms : (↑(s.lease.activeResources ++ [r]) : Multiset ResourceId) =
        r ::ₘ ↑s.lease.activeResources := by
      rw [Multiset.cons_coe, Multiset.coe_eq_coe]
      exact List.perm_append_singleton r _
    show ResourcePools.PinnedOver m.pools pools' ↑(s.lease.activeResources ++ [r])
    rw [hms]
    exact hpools.addActiveRef hadd

/-- A body that reports insufficient capacity has pinned the bound resources
and done nothing else. -/
theorem acquireBody_pinnedOver (m : ContextCacheManager H) (plan : ReusePlan H) :
    (acquireBody plan).Ensures (fun acquired s' => acquired = false →
        PinnedOver m s' ∧ s'.lease.activeResources = plan.bindings)
      (fun _ _ => True) ⟨m, leaseOfPlan plan⟩ := by
  unfold acquireBody
  rw [ensures_bind]
  have hpins := @Ensures.forEach _ _ _ pin (fun _ _ => True)
    (fun rest (s : Session H) => PinnedOver m s ∧ s.lease.activeResources ++ rest = plan.bindings)
    (fun r rest s hs => (pin_pinnedOver hs.1 r).mono
      (fun _ s' hs' => ⟨hs'.1, by rw [hs'.2, List.append_assoc]; exact hs.2⟩) fun _ _ _ => trivial)
    plan.bindings ⟨m, leaseOfPlan plan⟩ ⟨⟨rfl, m.pools, rfl, .refl _⟩, rfl⟩
  refine hpins.mono ?_ fun _ _ _ => trivial
  intro _ s1 hs1
  rw [List.append_nil] at hs1
  simp only [ensures_bind, ensures_read, ensures_ofExcept]
  cases EvictionPlanner.plan plan.demand s1.manager.pools s1.manager.records
      (plan.specRecord <|> plan.hybridRecord) with
  | error e => trivial
  | ok eviction =>
    rw [outcome_ok, ensures_ite]
    refine ⟨fun _ _ => hs1, fun _ => ?_⟩
    -- from here on the body throws or returns true
    refine Ensures.bind (ensures_true _ _) fun _ _ _ => ?_
    refine Ensures.bind (ensures_true _ _) fun _ _ _ => ?_
    refine Ensures.bind (ensures_true _ _) fun _ _ _ => ?_
    intro hfalse
    cases hfalse

/-- Dropping pins that lie over cached resources. -/
theorem releaseAll_pinnedOver :
    ∀ (rs : List ResourceId) (s : Session H) (pools : ResourcePools),
      (∀ r ∈ rs, 0 < m.pools.cacheRefCount r) → s.manager = { m with pools := pools } →
      ResourcePools.PinnedOver m.pools pools ↑rs → (forEach
        (fun r => onManager (onPools fun pools => pools.releaseActiveRef r)) rs).Ensures
        (fun _ s' => s'.manager = m) (fun _ _ => False) s := by
  intro rs
  induction rs with
  | nil =>
    intro s pools _ hm hpools
    rw [Multiset.coe_nil] at hpools
    rw [hpools.eq] at hm
    exact hm
  | cons r rs ih =>
    intro s pools hcached hm hpools
    rw [← Multiset.cons_coe] at hpools
    obtain ⟨pools', hrel, hpools'⟩ := hpools.releaseActiveRef (hcached r (by simp))
    apply ensures_bind.2
    rw [ensures_onManager, ensures_onPools, hm, hrel, outcome_ok]
    exact ih _ pools' (fun q hq => hcached q (by simp [hq])) rfl hpools'

theorem release_pinnedOver (h : PinnedOver m s)
    (hcached : ∀ r ∈ s.lease.activeResources, 0 < m.pools.cacheRefCount r) :
    release.Ensures (fun _ s' => s'.manager = m) (fun _ _ => False) s := by
  obtain ⟨hv, pools, hm, hpools⟩ := h
  unfold release releaseLease
  rw [ensures_bind, ensures_read, if_pos hv, ensures_noexcept]
  simp only [ensures_bind, ensures_read]
  exact releaseAll_pinnedOver _ s pools hcached hm hpools

/-- A refused acquisition of cached resources leaves the manager as it was. -/
theorem acquire_refused {A : Multiset ResourceId} (hm : m.Sound A) {plan : ReusePlan H}
    (hcached : ∀ r ∈ plan.bindings, r ∈ m.records.cacheLedger) : (acquire plan).Ensures
      (fun result m' => result.status = .insufficientCapacity → m' = m) (fun _ _ => True) m := by
  unfold acquire acquireLease
  rw [ensures_zoom, ensures_bind, ensures_onThrow]
  refine (acquireBody_pinnedOver m plan).mono ?_ fun _ _ _ => ensures_true _ _
  intro acquired s1 hs1
  cases acquired with
  | true =>
    simp only [if_true, ensures_bind, ensures_read, ensures_pure]
    intro hstatus
    cases hstatus
  | false =>
    obtain ⟨hpinned, hres⟩ := hs1 rfl
    have hpos : ∀ r ∈ s1.lease.activeResources, 0 < m.pools.cacheRefCount r := by
      intro r hr
      rw [hm.accounts.cacheRefCount_eq, Multiset.count_pos]
      exact hcached r (hres ▸ hr)
    rw [if_neg Bool.false_ne_true, ensures_bind]
    refine (release_pinnedOver hpinned hpos).mono ?_ fun _ _ hf => hf.elim
    intro _ s2 hs2 _
    exact hs2

/-! ## Growth and snapshots -/

theorem growPages_refused (s : Session H) (demand : ResourceDemand) :
    (growPages demand).Ensures (fun grown s' => grown = false → s' = s) (fun _ _ => True) s := by
  unfold growPages
  rw [ensures_ite]
  refine ⟨fun _ => (fun hf => by cases hf), fun _ => ?_⟩
  simp only [ensures_bind, ensures_read, ensures_ofExcept]
  cases EvictionPlanner.plan demand s.manager.pools s.manager.records none with
  | error e => trivial
  | ok eviction =>
    rw [outcome_ok, ensures_ite]
    refine ⟨fun _ _ => rfl, fun _ => ?_⟩
    refine Ensures.bind (ensures_true _ _) fun _ _ _ => ?_
    intro hf
    cases hf

theorem growBasePages_refused (s : Session H) (count : Int) :
    (growBasePages count).Ensures (fun grown s' => grown = false → s' = s) (fun _ _ => True) s := by
  unfold growBasePages
  simp only [ensures_bind, ensures_read, ensures_check]
  exact ⟨fun _ => ⟨fun _ => ⟨fun _ => growPages_refused s _, fun _ => trivial⟩, fun _ => trivial⟩,
    fun _ => trivial⟩

theorem growSpecPages_refused (s : Session H) (baseCount draftCount : Int) :
    (growSpecPages baseCount draftCount).Ensures (fun grown s' => grown = false → s' = s)
      (fun _ _ => True) s := by
  unfold growSpecPages
  simp only [ensures_bind, ensures_read, ensures_check]
  exact ⟨fun _ => ⟨fun _ => ⟨fun _ => growPages_refused s _, fun _ => trivial⟩, fun _ => trivial⟩,
    fun _ => trivial⟩

theorem reserveHybridSnapshots_refused (s : Session H) (needsPartialKvSnapshot : Bool) :
    (reserveHybridSnapshots needsPartialKvSnapshot).Ensures
      (fun reservation s' => reservation = none → s' = s) (fun _ _ => True) s := by
  unfold reserveHybridSnapshots
  simp only [ensures_bind, ensures_read, ensures_check]
  refine ⟨fun _ => ⟨fun _ => ⟨fun _ => ?_, fun _ => trivial⟩, fun _ => trivial⟩, fun _ => trivial⟩
  refine (growPages_refused s _).mono ?_ fun _ _ _ => trivial
  intro grown s' hgrown
  rw [ensures_ite]
  refine ⟨fun hf _ => hgrown hf, fun _ => ?_⟩
  simp only [ensures_bind, ensures_read, ensures_check]
  refine ⟨fun _ => ?_, fun _ => trivial⟩
  intro hnone
  cases hnone

end Session

namespace World

/-- The manager with each lease of its clients. -/
def sessions (w : World H) : List (Session H) :=
  w.leases.map fun held => ⟨w.manager, held.lease⟩

/-- `plan` was made from the state `m`, with or without page coverage. -/
def Plans (m : ContextCacheManager H) (plan : ReusePlan H) : Prop :=
  ∃ request hashes tokenCount policy made,
    m.makePlan request hashes tokenCount policy = .ok made ∧
      (plan = made ∨ ∃ basePages draftPages,
        requireKvPageCoverage made basePages draftPages = .ok plan)

/-- A plan made from a state binds resources cached in it. -/
theorem Plans.cached {m : ContextCacheManager H} {A : Multiset ResourceId} (hm : m.Sound A)
    {plan : ReusePlan H} (h : Plans m plan) : ∀ r ∈ plan.bindings, r ∈ m.records.cacheLedger := by
  obtain ⟨request, hashes, tokenCount, policy, made, hmade, hplan⟩ := h
  have hbound := Session.makePlan_bound hm request hashes tokenCount policy
  rw [hmade, outcome_ok] at hbound
  rcases hplan with rfl | ⟨basePages, draftPages, hcover⟩
  · exact hbound.cached
  · have hcovered := @requireKvPageCoverage_bound _ _ _ _ _ _ _ basePages draftPages hbound
    rw [hcover, outcome_ok] at hcovered
    exact hcovered.cached

/-- Refused capacity requests are no-ops, in the state any run leaves: an
acquisition without capacity gives back the manager, a growth or a snapshot
reservation without capacity the manager and the lease. -/
theorem run_refused_unchanged {pageSize maxRecords : Int} {capacities : ResourceDemand}
    {contract : Option SpecReuseContract} {m : ContextCacheManager H}
    (h : ContextCacheManager.make pageSize capacities maxRecords contract = .ok m)
    (ops : List (Op H)) :
    (∀ plan result m', Plans (run ops (start m)).manager plan →
      ContextCacheManager.acquire plan (run ops (start m)).manager = (.ok result, m') →
      result.status = .insufficientCapacity → m' = (run ops (start m)).manager) ∧
    ∀ s ∈ (run ops (start m)).sessions,
      (∀ count s', Session.growBasePages count s = (.ok false, s') → s' = s) ∧
      (∀ baseCount draftCount s',
        Session.growSpecPages baseCount draftCount s = (.ok false, s') → s' = s) ∧
      ∀ needsPartialKvSnapshot s',
        Session.reserveHybridSnapshots needsPartialKvSnapshot s = (.ok none, s') → s' = s := by
  have hs := run_sound ops (start_sound h)
  refine ⟨?_, ?_⟩
  · intro plan result m' hplan hacquire hstatus
    exact (Session.acquire_refused hs.manager (hplan.cached hs.manager)).of_ok hacquire hstatus
  · intro s _
    refine ⟨?_, ?_, ?_⟩
    · intro count s' hgrow
      exact (Session.growBasePages_refused s count).of_ok hgrow rfl
    · intro baseCount draftCount s' hgrow
      exact (Session.growSpecPages_refused s baseCount draftCount).of_ok hgrow rfl
    · intro needsPartialKvSnapshot s' hreserve
      exact (Session.reserveHybridSnapshots_refused s needsPartialKvSnapshot).of_ok hreserve rfl

/-- Two pages, one cached by a finished request: a longer prompt reuses it and
is refused the two pages it still needs. -/
theorem run_refused_unchanged_hit :
    ∃ (m : ContextCacheManager Nat) (plan : ReusePlan Nat),
      ContextCacheManager.make 2 { baseKvPages := 2 } 1 none = .ok m ∧
      plan.basePageBindings = [0] ∧
      ∀ w, w = run [.acquire .vanilla [7] 3 .useCache none, .publish 0 ⟨[7], 2⟩, .release 0]
        (start m) → (ContextCacheManager.acquire plan w.manager).2 = w.manager := by
  let m : ContextCacheManager Nat :=
    { pageSize := 2
      pools := ⟨fun t => Pool.make (({ baseKvPages := 2 } : ResourceDemand).get t).toNat⟩
      records := { maxRecords := 1 } }
  let plan : ReusePlan Nat :=
    { matchedTokenLength := 2, reuseTokenLength := 2, matchedBlockHashes := [7],
      basePageBindings := [0], demand := { baseKvPages := 2 } }
  have hmake : ContextCacheManager.make 2 { baseKvPages := 2 } 1 none = .ok m := rfl
  refine ⟨m, plan, hmake, rfl, fun w hw => ?_⟩
  have hplan : w.manager.makePlan .vanilla [7] 5 .useCache = .ok plan := by
    rw [hw]
    decide +kernel
  have hacquire : (ContextCacheManager.acquire plan w.manager).1 =
      .ok ⟨none, .insufficientCapacity, plan⟩ := by
    rw [hw]
    decide +kernel
  have hkept := (run_refused_unchanged hmake
    [.acquire .vanilla [7] 3 .useCache none, .publish 0 ⟨[7], 2⟩, .release 0]).1
  rw [← hw] at hkept
  exact hkept plan _ _ ⟨.vanilla, [7], 5, .useCache, plan, hplan, Or.inl rfl⟩
    (Prod.ext hacquire rfl) rfl

end World

end EdgeLLM.Ports.ContextCache
