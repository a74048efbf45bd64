import EdgeLLM.Ports.ContextCacheTypes
import EdgeLLM.Verified.CircularList
import Mathlib.Algebra.Order.Group.Multiset
import Mathlib.Data.List.NodupEquivFin

/-!
# Resource pools

Host-side allocation and reference accounting: four pools, each with two
counters per slot (active pins of in-flight requests, cache references of
published records) and a circular free list.

The abstract model is a *ledger*: two multisets of resource ids, the pins `A`
and the cache references `C`.  A resource is free exactly when it occurs in
neither.  `ResourcePools.Accounts` is the refinement relation between the
counters with their ring and such a ledger, and every operation below has one
theorem that moves the ledger and keeps the relation. -/ 
namespace EdgeLLM.Ports.ContextCache

open Verified

structure Slot where
  activeRefCount : Nat := 0
  cacheRefCount : Nat := 0
  onFreeList : Bool := true

/-- One typed pool; `freeList` carries `freeListHead` and `freeListCount`. -/
structure Pool where
  slots : List Slot
  freeList : CircularList Int

structure ResourcePools where
  pool : ResourceType → Pool

/-- The pool built by the constructor for one capacity. -/
def Pool.make (capacity : Nat) : Pool where
  slots := List.replicate capacity {}
  freeList := CircularList.full ((List.range capacity).map Int.ofNat)

/-- The slot a resource id names, if it is in range. -/
def Pool.slot? (pool : Pool) (index : Int) : Option Slot :=
  if 0 ≤ index then pool.slots[index.toNat]? else none

def Pool.setSlot (pool : Pool) (index : Int) (slot : Slot) : Pool :=
  { pool with slots := pool.slots.set index.toNat slot }

namespace ResourcePools

/-- The constructor. -/
def make (capacities : ResourceDemand) : Except Check ResourcePools :=
  if capacities.isNonNegative then .ok ⟨fun t => Pool.make (capacities.get t).toNat⟩
  else .error .capacitiesNegative

def setPool (pools : ResourcePools) (t : ResourceType) (p : Pool) : ResourcePools :=
  ⟨Function.update pools.pool t p⟩

def slot? (pools : ResourcePools) (r : ResourceId) : Option Slot := (pools.pool r.type).slot? r.index

def setSlot (pools : ResourcePools) (r : ResourceId) (slot : Slot) : ResourcePools :=
  pools.setPool r.type ((pools.pool r.type).setSlot r.index slot)

/-- `slot(resource)`: range check, then the slot. -/
def withSlot {α : Type} (pools : ResourcePools) (r : ResourceId) (k : Slot → Except Check α) :
    Except Check α :=
  match pools.slot? r with
  | none => .error .invalidResourceId
  | some slot => k slot

def activeRefCount (pools : ResourcePools) (r : ResourceId) : Nat :=
  ((pools.slot? r).map Slot.activeRefCount).getD 0

def cacheRefCount (pools : ResourcePools) (r : ResourceId) : Nat :=
  ((pools.slot? r).map Slot.cacheRefCount).getD 0

def freeCount (pools : ResourcePools) (t : ResourceType) : Nat := (pools.pool t).freeList.count

def capacity (pools : ResourcePools) (t : ResourceType) : Nat := (pools.pool t).slots.length

def canAllocate (pools : ResourcePools) (demand : ResourceDemand) : Bool :=
  demand.isNonNegative &&
    resourceTypes.all fun t => decide ((demand.get t).toNat ≤ pools.freeCount t)

/-- The ids read ahead of each free-list head by the first loop of
`allocateInto`. -/
def peekDemand (pools : ResourcePools) (demand : ResourceDemand) : List ResourceId :=
  resourceTypes.flatMap fun t =>
    (List.range (demand.get t).toNat).filterMap fun k =>
      ((pools.pool t).freeList.peek k).map (ResourceId.mk t)

/-- One iteration of the second loop of `allocateInto`. -/
def takeFree (pools : ResourcePools) (r : ResourceId) : ResourcePools :=
  let popped := { pools.pool r.type with freeList := (pools.pool r.type).freeList.pop }
  pools.setPool r.type (popped.setSlot r.index ⟨1, 0, false⟩)

/-- `allocateInto(demand, resources)` with an output vector of `outputSize`
entries: `none` for insufficient capacity. -/
def allocateInto (pools : ResourcePools) (demand : ResourceDemand) (outputSize : Nat) :
    Except Check (Option (List ResourceId) × ResourcePools) :=
  if demand.isNonNegative = false then .error .demandNegative
  else if outputSize ≠ demand.count then .error .allocationOutputSize
  else if pools.canAllocate demand = false then .ok (none, pools)
  else
    let resources := pools.peekDemand demand
    .ok (some resources, resources.foldl takeFree pools)

/-- `releaseIfUnused`: an unreferenced slot goes back behind the free window. -/
def releaseIfUnused (pools : ResourcePools) (r : ResourceId) (slot : Slot) : ResourcePools :=
  if slot.activeRefCount = 0 ∧ slot.cacheRefCount = 0 ∧ slot.onFreeList = false then
    let p := pools.pool r.type
    let pushed := { p with freeList := p.freeList.push r.index }
    pools.setPool r.type (pushed.setSlot r.index { slot with onFreeList := true })
  else pools

/-- The "free list is full" guard of both release functions. -/
def hasRoomFor (pools : ResourcePools) (r : ResourceId) : Bool :=
  decide ((pools.pool r.type).freeList.count < (pools.pool r.type).freeList.cells.length)

def addActiveRef (pools : ResourcePools) (r : ResourceId) : Except Check ResourcePools :=
  pools.withSlot r fun slot =>
    if slot.onFreeList then .error .activeRefToFree
    else if slot.activeRefCount < int32Max then
      .ok (pools.setSlot r { slot with activeRefCount := slot.activeRefCount + 1 })
    else .error .activeRefOverflow

def releaseActiveRef (pools : ResourcePools) (r : ResourceId) : Except Check ResourcePools :=
  pools.withSlot r fun slot =>
    if slot.activeRefCount = 0 then .error .activeRefUnderflow
    else if slot.activeRefCount = 1 ∧ slot.cacheRefCount = 0 ∧ slot.onFreeList = false ∧
        pools.hasRoomFor r = false then .error .freeListFull
    else
      let slot := { slot with activeRefCount := slot.activeRefCount - 1 }
      .ok ((pools.setSlot r slot).releaseIfUnused r slot)

def addCacheRef (pools : ResourcePools) (r : ResourceId) : Except Check ResourcePools :=
  pools.withSlot r fun slot =>
    if slot.onFreeList then .error .cacheRefToFree
    else if slot.cacheRefCount < int32Max then
      .ok (pools.setSlot r { slot with cacheRefCount := slot.cacheRefCount + 1 })
    else .error .cacheRefOverflow

def releaseCacheRef (pools : ResourcePools) (r : ResourceId) : Except Check ResourcePools :=
  pools.withSlot r fun slot =>
    if slot.cacheRefCount = 0 then .error .cacheRefUnderflow
    else if slot.cacheRefCount = 1 ∧ slot.activeRefCount = 0 ∧ slot.onFreeList = false ∧
        pools.hasRoomFor r = false then .error .freeListFull
    else
      let slot := { slot with cacheRefCount := slot.cacheRefCount - 1 }
      .ok ((pools.setSlot r slot).releaseIfUnused r slot)

end ResourcePools

/-! ## The ledger of one pool -/

/-- One pool carries the ledger `a` (pins) and `c` (cache references): the
counters are the ledger, the free window is the set of slots in neither, each
once. -/
structure Pool.Accounts (p : Pool) (a c : Int → Nat) : Prop where
  wf : p.freeList.WF
  size : p.freeList.cells.length = p.slots.length
  active : ∀ i, a i = ((p.slot? i).map Slot.activeRefCount).getD 0
  cache : ∀ i, c i = ((p.slot? i).map Slot.cacheRefCount).getD 0
  free : ∀ i slot, p.slot? i = some slot →
    (slot.onFreeList = true ↔ slot.activeRefCount = 0 ∧ slot.cacheRefCount = 0)
  window : ∀ i, i ∈ p.freeList.window ↔ ∃ slot, p.slot? i = some slot ∧ slot.onFreeList = true
  nodup : p.freeList.window.Nodup

namespace Pool

variable {p : Pool} {a c : Int → Nat} {i j : Int} {slot new : Slot}

theorem slot?_nonneg (h : p.slot? i = some slot) : 0 ≤ i := by
  unfold slot? at h
  split at h
  · assumption
  · simp at h

theorem slot?_lt (h : p.slot? i = some slot) : i.toNat < p.slots.length := by
  unfold slot? at h
  split at h
  · exact (List.getElem?_eq_some_iff.1 h).1
  · simp at h

theorem slot?_setSlot_self (h : p.slot? i = some slot) : (p.setSlot i new).slot? i = some new := by
  have hi := slot?_nonneg h
  have hlt := slot?_lt h
  simp [slot?, setSlot, hi, hlt]

theorem slot?_setSlot_ne (hi : 0 ≤ i) (hj : j ≠ i) : (p.setSlot i new).slot? j = p.slot? j := by
  unfold slot? setSlot
  by_cases hj0 : 0 ≤ j
  · have hne : i.toNat ≠ j.toNat := by omega
    simp [hj0, List.getElem?_set_ne hne]
  · simp [hj0]

@[simp] theorem setSlot_freeList : (p.setSlot i new).freeList = p.freeList := rfl

@[simp] theorem setSlot_slots_length : (p.setSlot i new).slots.length = p.slots.length := by
  simp [setSlot]

theorem Accounts.active_of_slot (h : p.Accounts a c) (hs : p.slot? i = some slot) :
    a i = slot.activeRefCount := by
  rw [h.active i, hs]
  rfl

theorem Accounts.cache_of_slot (h : p.Accounts a c) (hs : p.slot? i = some slot) :
    c i = slot.cacheRefCount := by
  rw [h.cache i, hs]
  rfl

/-- A resource in the ledger has a slot in range. -/
theorem Accounts.slot_of_pos (h : p.Accounts a c) (hpos : 0 < a i + c i) :
    ∃ slot, p.slot? i = some slot := by
  cases hs : p.slot? i with
  | some slot => exact ⟨slot, rfl⟩
  | none =>
    have ha := h.active i
    have hc := h.cache i
    simp only [hs, Option.map_none, Option.getD_none] at ha hc
    omega

/-- The free window never contains a slot of the ledger, so it cannot be full
while one exists. -/
theorem Accounts.window_lt (h : p.Accounts a c) (hs : p.slot? i = some slot)
    (hfree : slot.onFreeList = false) : p.freeList.count < p.freeList.cells.length := by
  have hnot : i ∉ p.freeList.window := by
    intro hmem
    obtain ⟨slot', hs', hon⟩ := (h.window i).1 hmem
    rw [hs] at hs'
    cases hs'
    simp [hfree] at hon
  have hnd : (i :: p.freeList.window).Nodup := List.nodup_cons.2 ⟨hnot, h.nodup⟩
  have hrange : (i :: p.freeList.window) ⊆ (List.range p.slots.length).map Int.ofNat := by
    have hin : ∀ j slot', p.slot? j = some slot' →
        j ∈ (List.range p.slots.length).map Int.ofNat := by
      intro j slot' hj
      refine List.mem_map.2 ⟨j.toNat, List.mem_range.2 (slot?_lt hj), ?_⟩
      have := slot?_nonneg hj
      exact Int.toNat_of_nonneg this
    intro j hj
    rcases List.mem_cons.1 hj with rfl | hj
    · exact hin _ _ hs
    · obtain ⟨slot', hs', -⟩ := (h.window j).1 hj
      exact hin _ _ hs'
  have hlen := (hnd.subperm hrange).length_le
  simp only [List.length_cons, List.length_map, List.length_range, h.wf.window_length] at hlen
  rw [h.size]
  omega

/-- Without pins and cache references every slot is free. -/
theorem Accounts.drained (h : p.Accounts a c) (hzero : ∀ i, a i = 0 ∧ c i = 0) :
    p.freeList.count = p.slots.length := by
  have hall : (List.range p.slots.length).map Int.ofNat ⊆ p.freeList.window := by
    intro i hi
    obtain ⟨n, hn, rfl⟩ := List.mem_map.1 hi
    have hs : p.slot? (Int.ofNat n) = some (p.slots.get ⟨n, List.mem_range.1 hn⟩) := by
      simp [slot?, List.mem_range.1 hn]
    have ha := (h.active_of_slot hs).symm.trans (hzero _).1
    have hc := (h.cache_of_slot hs).symm.trans (hzero _).2
    exact (h.window _).2 ⟨_, hs, (h.free _ _ hs).2 ⟨ha, hc⟩⟩
  have hnodup : ((List.range p.slots.length).map Int.ofNat).Nodup :=
    List.nodup_range.map fun _ _ heq => Int.ofNat.inj heq
  have hlen := (hnodup.subperm hall).length_le
  rw [List.length_map, List.length_range, h.wf.window_length] at hlen
  have hle := h.wf.count_le
  rw [h.size] at hle
  exact Nat.le_antisymm hle hlen

/-- The counters of the other slots and the new counters of slot `i`. -/
private theorem ledger_setSlot {f : Slot → Nat} {g : Int → Nat} (new : Slot)
    (hg : ∀ j, g j = ((p.slot? j).map f).getD 0) (hs : p.slot? i = some slot) (j : Int) :
    Function.update g i (f new) j = (((p.setSlot i new).slot? j).map f).getD 0 := by
  by_cases hj : j = i
  · subst hj
    rw [Function.update_self, slot?_setSlot_self hs]
    rfl
  · rw [Function.update_of_ne hj, slot?_setSlot_ne (slot?_nonneg hs) hj, hg j]

/-- Changing the counters of a slot that stays off the free list. -/
theorem Accounts.setSlot (new : Slot) (h : p.Accounts a c) (hs : p.slot? i = some slot)
    (hold : slot.onFreeList = false) (hnew : new.onFreeList = false)
    (hused : 0 < new.activeRefCount + new.cacheRefCount) :
    (p.setSlot i new).Accounts (Function.update a i new.activeRefCount)
      (Function.update c i new.cacheRefCount) := by
  refine
    { wf := h.wf
      size := by simpa using h.size
      active := ledger_setSlot new h.active hs
      cache := ledger_setSlot new h.cache hs
      free := ?_
      window := ?_
      nodup := h.nodup }
  · intro j slot' hj
    by_cases hji : j = i
    · subst hji
      rw [slot?_setSlot_self hs] at hj
      cases hj
      simp only [hnew, Bool.false_eq_true, false_iff]
      omega
    · rw [slot?_setSlot_ne (slot?_nonneg hs) hji] at hj
      exact h.free j slot' hj
  · intro j
    rw [setSlot_freeList, h.window j]
    by_cases hji : j = i
    · subst hji
      simp [slot?_setSlot_self hs, hs, hold, hnew]
    · rw [slot?_setSlot_ne (slot?_nonneg hs) hji]

/-- Returning slot `i`, the last reference gone, behind the free window. -/
theorem Accounts.push (h : p.Accounts a c) (hs : p.slot? i = some slot)
    (hold : slot.onFreeList = false) :
    (({ p with freeList := p.freeList.push i } : Pool).setSlot i ⟨0, 0, true⟩).Accounts
      (Function.update a i 0) (Function.update c i 0) := by
  have hroom := h.window_lt hs hold
  have hwin := CircularList.window_push hroom i
  have hnot : i ∉ p.freeList.window := by
    intro hmem
    obtain ⟨slot', hs', hon⟩ := (h.window i).1 hmem
    rw [hs] at hs'
    cases hs'
    simp [hold] at hon
  have hs' : ({ p with freeList := p.freeList.push i } : Pool).slot? i = some slot := hs
  refine
    { wf := h.wf.push hroom i
      size := by simpa using h.size
      active := ledger_setSlot ⟨0, 0, true⟩ h.active hs'
      cache := ledger_setSlot ⟨0, 0, true⟩ h.cache hs'
      free := ?_
      window := ?_
      nodup := ?_ }
  · intro j slot' hj
    by_cases hji : j = i
    · subst hji
      rw [slot?_setSlot_self hs'] at hj
      cases hj
      simp
    · rw [slot?_setSlot_ne (slot?_nonneg hs) hji] at hj
      exact h.free j slot' hj
  · intro j
    rw [setSlot_freeList, hwin, List.mem_append, List.mem_singleton]
    by_cases hji : j = i
    · subst hji
      simp [slot?_setSlot_self hs']
    · rw [slot?_setSlot_ne (slot?_nonneg hs) hji]
      simp only [hji, or_false]
      exact h.window j
  · rw [setSlot_freeList, hwin]
    exact List.nodup_append.2 ⟨h.nodup, List.nodup_singleton i, by
      intro x hx y hy hxy
      rw [List.mem_singleton] at hy
      subst hy hxy
      exact hnot hx⟩

theorem Accounts.take (h : p.Accounts a c) (hpos : 0 < p.freeList.count)
    (hpeek : p.freeList.peek 0 = some i) :
    (({ p with freeList := p.freeList.pop } : Pool).setSlot i ⟨1, 0, false⟩).Accounts
        (Function.update a i 1) (Function.update c i 0) ∧ a i = 0 ∧ c i = 0 := by
  obtain ⟨x, hx, hwin⟩ := h.wf.window_pop hpos
  rw [hpeek] at hx
  cases hx
  have hnd := h.nodup
  rw [hwin, List.nodup_cons] at hnd
  obtain ⟨slot, hs, hon⟩ := (h.window i).1 (by simp [hwin])
  have hzero := (h.free i slot hs).1 hon
  have hs' : ({ p with freeList := p.freeList.pop } : Pool).slot? i = some slot := hs
  refine ⟨?_, by rw [h.active_of_slot hs, hzero.1], by rw [h.cache_of_slot hs, hzero.2]⟩
  refine
    { wf := h.wf.pop
      size := by simpa using h.size
      active := ledger_setSlot ⟨1, 0, false⟩ h.active hs'
      cache := ledger_setSlot ⟨1, 0, false⟩ h.cache hs'
      free := ?_
      window := ?_
      nodup := hnd.2 }
  · intro j slot' hj
    by_cases hji : j = i
    · subst hji
      rw [slot?_setSlot_self hs'] at hj
      cases hj
      simp
    · rw [slot?_setSlot_ne (slot?_nonneg hs) hji] at hj
      exact h.free j slot' hj
  · intro j
    have hj := h.window j
    rw [hwin, List.mem_cons] at hj
    rw [setSlot_freeList]
    by_cases hji : j = i
    · subst hji
      simp [slot?_setSlot_self hs', hnd.1]
    · rw [slot?_setSlot_ne (slot?_nonneg hs) hji]
      simp only [hji, false_or] at hj
      exact hj

theorem make_accounts (capacity : Nat) :
    (Pool.make capacity).Accounts (fun _ => 0) (fun _ => 0) := by
  have hslot : ∀ i slot, (Pool.make capacity).slot? i = some slot → slot = {} := by
    intro i slot h
    unfold slot? make at h
    split at h
    · exact List.eq_of_mem_replicate (List.mem_of_getElem? h)
    · simp at h
  have hzero : ∀ (f : Slot → Nat), f {} = 0 →
      ∀ i, 0 = (((Pool.make capacity).slot? i).map f).getD 0 := by
    intro f hf i
    cases hs : (Pool.make capacity).slot? i with
    | none => rfl
    | some slot => simp [hslot i slot hs, hf]
  refine
    { wf := CircularList.full_wf _
      size := by simp [make, CircularList.full]
      active := hzero _ rfl
      cache := hzero _ rfl
      free := ?_
      window := ?_
      nodup := ?_ }
  · intro i slot h
    simp [hslot i slot h]
  · intro i
    have hwin : (Pool.make capacity).freeList.window = (List.range capacity).map Int.ofNat :=
      CircularList.full_window _
    rw [hwin, List.mem_map]
    constructor
    · rintro ⟨n, hn, rfl⟩
      exact ⟨{}, by simp [slot?, make, List.mem_range.1 hn], rfl⟩
    · rintro ⟨slot, hs, -⟩
      have hlt := slot?_lt hs
      simp only [make, List.length_replicate] at hlt
      exact ⟨i.toNat, List.mem_range.2 hlt, Int.toNat_of_nonneg (slot?_nonneg hs)⟩
  · have hwin : (Pool.make capacity).freeList.window = (List.range capacity).map Int.ofNat :=
      CircularList.full_window _
    rw [hwin]
    exact List.nodup_range.map fun _ _ h => Int.ofNat.inj h

end Pool

/-! ## The ledger of all pools -/

namespace ResourcePools

/-- The pools carry the ledger of pins `A` and cache references `C`. -/
def Accounts (pools : ResourcePools) (A C : Multiset ResourceId) : Prop :=
  ∀ t, (pools.pool t).Accounts (fun i => A.count ⟨t, i⟩) (fun i => C.count ⟨t, i⟩)

variable {pools : ResourcePools} {A C : Multiset ResourceId} {r : ResourceId} {slot : Slot}

theorem make_accounts {capacities : ResourceDemand} (h : make capacities = .ok pools) :
    pools.Accounts 0 0 := by
  unfold make at h
  split at h
  · cases h
    intro t
    simpa using Pool.make_accounts _
  · cases h

@[simp] theorem setPool_pool_self (t : ResourceType) (p : Pool) :
    (pools.setPool t p).pool t = p := by
  simp [setPool]

variable {t : ResourceType} {A' C' : Multiset ResourceId} {i : Int} {demand : ResourceDemand}
variable (S : Multiset ResourceId)

theorem setPool_pool_ne {u : ResourceType} (h : u ≠ t) (p : Pool) :
    (pools.setPool t p).pool u = pools.pool u := by
  simp [setPool, h]

/-- Replacing one pool by one that carries the changed ledger of its type. -/
theorem Accounts.setPool {p : Pool} (h : pools.Accounts A C)
    (hp : p.Accounts (fun i => A'.count ⟨t, i⟩) (fun i => C'.count ⟨t, i⟩))
    (hother : ∀ r : ResourceId, r.type ≠ t → A'.count r = A.count r ∧ C'.count r = C.count r) :
    (pools.setPool t p).Accounts A' C' := by
  intro u
  by_cases hu : u = t
  · subst hu
    rw [setPool_pool_self]
    exact hp
  · rw [setPool_pool_ne hu]
    have hA : (fun i => A'.count ⟨u, i⟩) = fun i => A.count ⟨u, i⟩ :=
      funext fun i => (hother ⟨u, i⟩ hu).1
    have hC : (fun i => C'.count ⟨u, i⟩) = fun i => C.count ⟨u, i⟩ :=
      funext fun i => (hother ⟨u, i⟩ hu).2
    rw [hA, hC]
    exact h u

theorem Accounts.activeRefCount_eq (h : pools.Accounts A C) (r : ResourceId) :
    pools.activeRefCount r = A.count r :=
  ((h r.type).active r.index).symm

theorem Accounts.cacheRefCount_eq (h : pools.Accounts A C) (r : ResourceId) :
    pools.cacheRefCount r = C.count r :=
  ((h r.type).cache r.index).symm

/-- Counting one type in a multiset with one more element. -/
private theorem count_cons_type (r : ResourceId) (n : Nat) (hn : n = S.count r + 1) :
    (fun i => (r ::ₘ S).count ⟨r.type, i⟩) =
      Function.update (fun i => S.count ⟨r.type, i⟩) r.index n := by
  funext i
  by_cases hi : i = r.index
  · subst hi
    rw [Function.update_self, hn]
    exact Multiset.count_cons_self r S
  · rw [Function.update_of_ne hi]
    have hne : (⟨r.type, i⟩ : ResourceId) ≠ r := fun h => hi (congrArg ResourceId.index h)
    exact Multiset.count_cons_of_ne hne S

private theorem count_update_self (r : ResourceId) (n : Nat) (hn : n = S.count r) :
    (fun i => S.count ⟨r.type, i⟩) = Function.update (fun i => S.count ⟨r.type, i⟩) r.index n := by
  subst hn
  exact (Function.update_eq_self r.index (fun i => S.count ⟨r.type, i⟩)).symm

private theorem count_cons_other (r q : ResourceId) (h : q.type ≠ r.type) :
    (r ::ₘ S).count q = S.count q :=
  Multiset.count_cons_of_ne (fun he => h (congrArg ResourceId.type he)) S

private theorem Accounts.slot_of_mem (h : pools.Accounts A C) (hmem : r ∈ A + C) :
    ∃ slot, pools.slot? r = some slot ∧ slot.onFreeList = false ∧
      slot.activeRefCount = A.count r ∧ slot.cacheRefCount = C.count r := by
  have hcount : 0 < A.count r + C.count r := by
    have := Multiset.count_pos.2 hmem
    rwa [Multiset.count_add] at this
  obtain ⟨slot, hs⟩ := (h r.type).slot_of_pos (i := r.index) hcount
  have ha := (h r.type).active_of_slot hs
  have hc := (h r.type).cache_of_slot hs
  refine ⟨slot, hs, ?_, ha.symm, hc.symm⟩
  cases hfree : slot.onFreeList with
  | false => rfl
  | true =>
    have hz := ((h r.type).free r.index slot hs).1 hfree
    have hA : A.count r = 0 := ha.trans hz.1
    have hC : C.count r = 0 := hc.trans hz.2
    omega

theorem withSlot_eq {α : Type} {k : Slot → Except Check α} (hs : pools.slot? r = some slot) :
    pools.withSlot r k = k slot := by
  rw [withSlot, hs]

/-- Pinning a resource of the ledger succeeds unless its counter is full. -/
theorem addActiveRef_spec (h : pools.Accounts A C) (hmem : r ∈ A + C) :
    (∃ pools', pools.addActiveRef r = .ok pools' ∧ pools'.Accounts (r ::ₘ A) C) ∨
      pools.addActiveRef r = .error .activeRefOverflow := by
  obtain ⟨slot, hs, hfree, ha, hc⟩ := h.slot_of_mem hmem
  have hnot : ¬slot.onFreeList = true := by simp [hfree]
  rw [addActiveRef, withSlot_eq hs, if_neg hnot]
  by_cases hlt : slot.activeRefCount < int32Max
  · left
    rw [if_pos hlt]
    refine ⟨_, rfl, h.setPool ?_ fun q hq => ⟨count_cons_other A r q hq, rfl⟩⟩
    rw [count_cons_type A r (slot.activeRefCount + 1) (by rw [ha]),
      count_update_self C r slot.cacheRefCount hc]
    exact (h r.type).setSlot { slot with activeRefCount := slot.activeRefCount + 1 }
      hs hfree hfree (by simp only; omega)
  · right
    rw [if_neg hlt]

theorem addCacheRef_spec (h : pools.Accounts A C) (hmem : r ∈ A + C) :
    (∃ pools', pools.addCacheRef r = .ok pools' ∧ pools'.Accounts A (r ::ₘ C)) ∨
      pools.addCacheRef r = .error .cacheRefOverflow := by
  obtain ⟨slot, hs, hfree, ha, hc⟩ := h.slot_of_mem hmem
  have hnot : ¬slot.onFreeList = true := by simp [hfree]
  rw [addCacheRef, withSlot_eq hs, if_neg hnot]
  by_cases hlt : slot.cacheRefCount < int32Max
  · left
    rw [if_pos hlt]
    refine ⟨_, rfl, h.setPool ?_ fun q hq => ⟨rfl, count_cons_other C r q hq⟩⟩
    rw [count_cons_type C r (slot.cacheRefCount + 1) (by rw [hc]),
      count_update_self A r slot.activeRefCount ha]
    exact (h r.type).setSlot { slot with cacheRefCount := slot.cacheRefCount + 1 }
      hs hfree hfree (by simp only; omega)
  · right
    rw [if_neg hlt]

/-- A cache reference is refused exactly when the counter is at its limit. -/
theorem addCacheRef_overflow_iff (h : pools.Accounts A C) (hmem : r ∈ A + C) :
    pools.addCacheRef r = .error .cacheRefOverflow ↔ int32Max ≤ pools.cacheRefCount r := by
  obtain ⟨slot, hs, hfree, -, hc⟩ := h.slot_of_mem hmem
  have hnot : ¬slot.onFreeList = true := by simp [hfree]
  rw [addCacheRef, withSlot_eq hs, if_neg hnot, h.cacheRefCount_eq, ← hc]
  by_cases hlt : slot.cacheRefCount < int32Max
  · rw [if_pos hlt]
    simp only [reduceCtorEq, false_iff, Nat.not_le]
    exact hlt
  · rw [if_neg hlt]
    simp only [true_iff]
    omega

theorem slot?_setSlot_self (hs : pools.slot? r = some slot) (new : Slot) :
    (pools.setSlot r new).slot? r = some new := by
  unfold slot? setSlot
  rw [setPool_pool_self]
  exact Pool.slot?_setSlot_self hs

theorem setSlot_setSlot (r : ResourceId) (a b : Slot) :
    (pools.setSlot r a).setSlot r b = pools.setSlot r b := by
  simp [setSlot, setPool, Pool.setSlot]

/-- Writing back the slot that is there changes nothing. -/
theorem setSlot_self (hs : pools.slot? r = some slot) : pools.setSlot r slot = pools := by
  have hlist : (pools.pool r.type).slots.set r.index.toNat slot = (pools.pool r.type).slots := by
    have hget : (pools.pool r.type).slots[r.index.toNat]? = some slot := by
      unfold slot? Pool.slot? at hs
      split at hs
      · exact hs
      · cases hs
    obtain ⟨hlt, rfl⟩ := List.getElem?_eq_some_iff.1 hget
    exact List.set_getElem_self hlt
  have hpool : (pools.pool r.type).setSlot r.index slot = pools.pool r.type := by
    unfold Pool.setSlot
    rw [hlist]
  unfold setSlot setPool
  rw [hpool, Function.update_eq_self]

/-- Dropping the reference just added gives back the pools. -/
theorem Accounts.releaseCacheRef_addCacheRef (h : pools.Accounts A C) (hmem : r ∈ A + C)
    {pools' : ResourcePools} (hadd : pools.addCacheRef r = .ok pools') :
    pools'.releaseCacheRef r = .ok pools := by
  obtain ⟨slot, hs, hfree, ha, hc⟩ := h.slot_of_mem hmem
  have hpos : ¬(slot.activeRefCount = 0 ∧ slot.cacheRefCount = 0) := by
    intro hz
    have hcount : 0 < (A + C).count r := Multiset.count_pos.2 hmem
    rw [Multiset.count_add] at hcount
    omega
  rw [addCacheRef, withSlot_eq hs, if_neg (by simp [hfree])] at hadd
  split at hadd
  · cases hadd
    set up : Slot := { slot with cacheRefCount := slot.cacheRefCount + 1 } with hup
    have hs' := slot?_setSlot_self hs up
    have hcond : ¬(up.cacheRefCount = 1 ∧ up.activeRefCount = 0 ∧ up.onFreeList = false ∧
        (pools.setSlot r up).hasRoomFor r = false) := by
      rintro ⟨h1, h2, -⟩
      simp only [hup] at h1 h2
      omega
    rw [releaseCacheRef, withSlot_eq hs', if_neg (by simp [hup]), if_neg hcond]
    have hback : ({ up with cacheRefCount := up.cacheRefCount - 1 } : Slot) = slot := by
      simp [hup]
    simp only [hback]
    rw [releaseIfUnused, if_neg fun hz => hpos ⟨hz.1, hz.2.1⟩, setSlot_setSlot, setSlot_self hs]
  · cases hadd

theorem Accounts.index_nonneg (h : pools.Accounts A C) (hmem : r ∈ A + C) : 0 ≤ r.index := by
  obtain ⟨slot, hs, -⟩ := h.slot_of_mem hmem
  exact Pool.slot?_nonneg hs

/-- Writing the counters of `r` and returning it when they are zero moves the
ledger at `r` and nowhere else. -/
private theorem accounts_release {new : Slot} (h : pools.Accounts A C)
    (hs : pools.slot? r = some slot)
    (hfree : slot.onFreeList = false) (hnew : new.onFreeList = false)
    (hA : A'.count r = new.activeRefCount) (hC : C'.count r = new.cacheRefCount)
    (hother : ∀ q : ResourceId, q ≠ r → A'.count q = A.count q ∧ C'.count q = C.count q) :
    ((pools.setSlot r new).releaseIfUnused r new).Accounts A' C' := by
  have hne : ∀ i, i ≠ r.index → (⟨r.type, i⟩ : ResourceId) ≠ r :=
    fun i hi he => hi (congrArg ResourceId.index he)
  have hfunA : (fun i => A'.count ⟨r.type, i⟩) =
      Function.update (fun i => A.count ⟨r.type, i⟩) r.index new.activeRefCount := by
    funext i
    by_cases hi : i = r.index
    · subst hi
      rw [Function.update_self]
      exact hA
    · rw [Function.update_of_ne hi]
      exact (hother _ (hne i hi)).1
  have hfunC : (fun i => C'.count ⟨r.type, i⟩) =
      Function.update (fun i => C.count ⟨r.type, i⟩) r.index new.cacheRefCount := by
    funext i
    by_cases hi : i = r.index
    · subst hi
      rw [Function.update_self]
      exact hC
    · rw [Function.update_of_ne hi]
      exact (hother _ (hne i hi)).2
  have hout : ∀ q : ResourceId, q.type ≠ r.type → A'.count q = A.count q ∧ C'.count q = C.count q :=
    fun q hq => hother q fun he => hq (congrArg ResourceId.type he)
  by_cases hz : new.activeRefCount = 0 ∧ new.cacheRefCount = 0
  · -- the last reference is gone: the slot joins the free window
    have hpush := (h r.type).push hs hfree
    have hstate : (pools.setSlot r new).releaseIfUnused r new = pools.setPool r.type
          (({ pools.pool r.type with
              freeList := (pools.pool r.type).freeList.push r.index } : Pool).setSlot
            r.index ⟨0, 0, true⟩) := by
      obtain ⟨act, cch, onf⟩ := new
      simp only at hz hnew
      obtain ⟨rfl, rfl⟩ := hz
      subst hnew
      simp [releaseIfUnused, setSlot, setPool, Pool.setSlot]
    rw [hstate]
    refine h.setPool ?_ hout
    rw [hfunA, hfunC, hz.1, hz.2]
    exact hpush
  · have hstate : (pools.setSlot r new).releaseIfUnused r new = pools.setSlot r new := by
      rw [releaseIfUnused, if_neg fun hc => hz ⟨hc.1, hc.2.1⟩]
    rw [hstate]
    refine h.setPool ?_ hout
    rw [hfunA, hfunC]
    exact (h r.type).setSlot new hs hfree hnew (by omega)

/-- Dropping a pin of the ledger always succeeds. -/
theorem releaseActiveRef_spec (h : pools.Accounts (r ::ₘ A) C) :
    ∃ pools', pools.releaseActiveRef r = .ok pools' ∧ pools'.Accounts A C := by
  obtain ⟨slot, hs, hfree, ha, hc⟩ := h.slot_of_mem (r := r) (by simp)
  rw [Multiset.count_cons_self] at ha
  have hroom : pools.hasRoomFor r = true := by
    simpa [hasRoomFor] using (h r.type).window_lt hs hfree
  rw [releaseActiveRef, withSlot_eq hs, if_neg (by omega), if_neg (by simp [hroom])]
  refine ⟨_, rfl, accounts_release h hs hfree hfree ?_ hc.symm ?_⟩
  · show A.count r = slot.activeRefCount - 1
    omega
  · intro q hq
    exact ⟨(Multiset.count_cons_of_ne hq A).symm, rfl⟩

/-- Dropping a cache reference of the ledger always succeeds. -/
theorem releaseCacheRef_spec (h : pools.Accounts A (r ::ₘ C)) :
    ∃ pools', pools.releaseCacheRef r = .ok pools' ∧ pools'.Accounts A C := by
  obtain ⟨slot, hs, hfree, ha, hc⟩ := h.slot_of_mem (r := r) (by simp)
  rw [Multiset.count_cons_self] at hc
  have hroom : pools.hasRoomFor r = true := by
    simpa [hasRoomFor] using (h r.type).window_lt hs hfree
  rw [releaseCacheRef, withSlot_eq hs, if_neg (by omega), if_neg (by simp [hroom])]
  refine ⟨_, rfl, accounts_release h hs hfree hfree ha.symm ?_ ?_⟩
  · show C.count r = slot.cacheRefCount - 1
    omega
  · intro q hq
    exact ⟨rfl, (Multiset.count_cons_of_ne hq C).symm⟩

/-- A resource of the free window is in no ledger. -/
theorem Accounts.fresh_of_window (h : pools.Accounts A C)
    (hmem : i ∈ (pools.pool t).freeList.window) : A.count ⟨t, i⟩ = 0 ∧ C.count ⟨t, i⟩ = 0 := by
  obtain ⟨slot, hs, hon⟩ := ((h t).window i).1 hmem
  have hz := ((h t).free i slot hs).1 hon
  exact ⟨((h t).active_of_slot hs).trans hz.1, ((h t).cache_of_slot hs).trans hz.2⟩

theorem takeFree_spec (h : pools.Accounts A C) {w : List Int}
    (hwin : (pools.pool t).freeList.window = i :: w) :
    (pools.takeFree ⟨t, i⟩).Accounts (⟨t, i⟩ ::ₘ A) C ∧
      ((pools.takeFree ⟨t, i⟩).pool t).freeList.window = w ∧
      ∀ u, u ≠ t → (pools.takeFree ⟨t, i⟩).pool u = pools.pool u := by
  have hcount : 0 < (pools.pool t).freeList.count := by
    rw [← (h t).wf.window_length, hwin]
    simp
  obtain ⟨x, hx, hcons⟩ := (h t).wf.window_pop hcount
  rw [hwin, List.cons.injEq] at hcons
  obtain ⟨rfl, hw⟩ := hcons
  obtain ⟨htake, ha, hc⟩ := (h t).take hcount hx
  refine ⟨h.setPool ?_ fun q hq => ⟨count_cons_other A ⟨t, i⟩ q hq, rfl⟩, ?_, ?_⟩
  · rw [count_cons_type A ⟨t, i⟩ 1 (by rw [ha]), count_update_self C ⟨t, i⟩ 0 hc.symm]
    exact htake
  · simp only [takeFree, setPool_pool_self, Pool.setSlot_freeList]
    exact hw.symm
  · intro u hu
    exact setPool_pool_ne hu _

private theorem takeFree_segment (xs : List Int) :
    ∀ (pools : ResourcePools) (A C : Multiset ResourceId) (w : List Int),
      pools.Accounts A C → (pools.pool t).freeList.window = xs ++ w →
      let pools' := (xs.map (ResourceId.mk t)).foldl takeFree pools
      pools'.Accounts (↑(xs.map (ResourceId.mk t)) + A) C ∧
        ∀ u, u ≠ t → pools'.pool u = pools.pool u := by
  induction xs with
  | nil =>
    intro pools A C w h _
    exact ⟨by simpa using h, fun _ _ => rfl⟩
  | cons i xs ih =>
    intro pools A C w h hwin
    obtain ⟨hacc, hw, hother⟩ := takeFree_spec h (i := i) (w := xs ++ w) hwin
    obtain ⟨hacc', hother'⟩ := ih _ _ C w hacc hw
    refine ⟨?_, fun u hu => (hother' u hu).trans (hother u hu)⟩
    have hms : (↑((i :: xs).map (ResourceId.mk t)) : Multiset ResourceId) + A =
        ↑(xs.map (ResourceId.mk t)) + ⟨t, i⟩ ::ₘ A := by
      rw [List.map_cons, ← Multiset.cons_coe, Multiset.cons_add, Multiset.add_cons]
    rw [hms]
    exact hacc'

/-- Taking front segments of several free windows, type by type. -/
private theorem takeFree_types {xs w : ResourceType → List Int} (ts : List ResourceType) :
    ∀ (pools : ResourcePools) (A : Multiset ResourceId), ts.Nodup → pools.Accounts A C →
      (∀ t ∈ ts, (pools.pool t).freeList.window = xs t ++ w t) →
      let rs := ts.flatMap fun t => (xs t).map (ResourceId.mk t)
      (rs.foldl takeFree pools).Accounts (↑rs + A) C := by
  induction ts with
  | nil =>
    intro pools A _ h _
    simpa using h
  | cons t ts ih =>
    intro pools A hnd h hwin
    obtain ⟨hnot, hnd⟩ := List.nodup_cons.1 hnd
    obtain ⟨hacc, hother⟩ := takeFree_segment (xs t) pools A C (w t) h (hwin t (by simp))
    have hrest := ih _ _ hnd hacc fun u hu => by
      rw [hother u fun he => hnot (he ▸ hu)]
      exact hwin u (by simp [hu])
    simp only [List.flatMap_cons, List.foldl_append]
    have hms : (↑((xs t).map (ResourceId.mk t) ++
          ts.flatMap fun t => (xs t).map (ResourceId.mk t)) : Multiset ResourceId) + A =
        ↑(ts.flatMap fun t => (xs t).map (ResourceId.mk t)) +
          (↑((xs t).map (ResourceId.mk t)) + A) := by
      rw [← Multiset.coe_add, add_right_comm, add_comm]
    rw [hms]
    exact hrest

theorem canAllocate_iff : pools.canAllocate demand = true ↔
      demand.isNonNegative = true ∧ ∀ t, (demand.get t).toNat ≤ pools.freeCount t := by
  simp only [canAllocate, Bool.and_eq_true, List.all_eq_true, decide_eq_true_eq]
  exact ⟨fun h => ⟨h.1, fun t => h.2 t (mem_resourceTypes t)⟩, fun h => ⟨h.1, fun t _ => h.2 t⟩⟩

/-- The ids read ahead are the front segments of the free windows. -/
theorem Accounts.peekDemand_eq (h : pools.Accounts A C) (hcan : pools.canAllocate demand = true) :
    pools.peekDemand demand = resourceTypes.flatMap fun t =>
      ((pools.pool t).freeList.window.take (demand.get t).toNat).map (ResourceId.mk t) := by
  have hle := (canAllocate_iff.1 hcan).2
  unfold peekDemand
  refine List.flatMap_congr fun t _ => ?_
  rw [← (h t).wf.filterMap_peek (hle t), List.map_filterMap]

/-- A fresh allocation: distinct resources, one pin each, none of them in the
ledger before. -/
structure Fresh (A C : Multiset ResourceId) (rs : List ResourceId) : Prop where
  nodup : rs.Nodup
  unpinned : ∀ r ∈ rs, A.count r = 0
  uncached : ∀ r ∈ rs, C.count r = 0

theorem Accounts.peekDemand_fresh (h : pools.Accounts A C)
    (hcan : pools.canAllocate demand = true) : Fresh A C (pools.peekDemand demand) := by
  rw [h.peekDemand_eq hcan]
  have hmem : ∀ r, (r ∈ resourceTypes.flatMap fun t =>
      ((pools.pool t).freeList.window.take (demand.get t).toNat).map (ResourceId.mk t)) →
      r.index ∈ (pools.pool r.type).freeList.window := by
    intro r hr
    obtain ⟨t, -, hr⟩ := List.mem_flatMap.1 hr
    obtain ⟨i, hi, rfl⟩ := List.mem_map.1 hr
    exact List.mem_of_mem_take hi
  refine
    { nodup := ?_
      unpinned := fun r hr => (h.fresh_of_window (hmem r hr)).1
      uncached := fun r hr => (h.fresh_of_window (hmem r hr)).2 }
  refine List.nodup_flatMap.2 ⟨fun t _ => ?_, ?_⟩
  · exact ((h t).nodup.sublist (List.take_sublist _ _)).map fun _ _ he =>
      congrArg ResourceId.index he
  · have hnd : resourceTypes.Nodup := by decide
    refine hnd.imp fun {t u} htu => ?_
    intro r hr hr'
    obtain ⟨i, -, rfl⟩ := List.mem_map.1 hr
    obtain ⟨j, -, he⟩ := List.mem_map.1 hr'
    exact htu (congrArg ResourceId.type he).symm

/-- Allocation with an output of the right size either refuses without a
change, or pins a fresh set of resources. -/
theorem allocateInto_spec (h : pools.Accounts A C) (hnn : demand.isNonNegative = true) :
    (pools.canAllocate demand = false ∧
      pools.allocateInto demand demand.count = .ok (none, pools)) ∨
    (pools.canAllocate demand = true ∧ ∃ pools', pools.allocateInto demand demand.count =
        .ok (some (pools.peekDemand demand), pools') ∧
      pools'.Accounts (↑(pools.peekDemand demand) + A) C) := by
  unfold allocateInto
  rw [if_neg (by simp [hnn]), if_neg (by simp)]
  cases hcan : pools.canAllocate demand with
  | false => simp
  | true =>
    refine Or.inr ⟨rfl, _, rfl, ?_⟩
    rw [h.peekDemand_eq hcan]
    refine takeFree_types (w := fun t =>
      (pools.pool t).freeList.window.drop (demand.get t).toNat)
      resourceTypes pools A (by decide) h fun t _ => ?_
    exact (List.take_append_drop _ _).symm

end ResourcePools

end EdgeLLM.Ports.ContextCache
