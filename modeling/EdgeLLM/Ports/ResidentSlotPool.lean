import EdgeLLM.Verified.Checked
import Mathlib.Algebra.Order.Ring.Nat
import Mathlib.Data.List.Nodup
import Mathlib.Data.List.Perm.Basic

/-!
# The resident slot pool

`ResidentSlotPool`: which physical rows are in use.  A row is handed out with the
epoch it has then, and the epoch goes up when the row comes back.
-/

namespace EdgeLLM.Ports.Generation

open Verified

structure ResidentRef where
  slot : Nat
  epoch : Nat
deriving DecidableEq

/-- Why `release` does not release: it returns false, or throws. -/
inductive ReleaseFailure where
  | stale
  | epochOverflow

structure ResidentSlotPool where
  mEpochs : List Nat := []
  mOccupied : List Bool := []
  mFreeSlots : List Nat := []

namespace ResidentSlotPool

/-- `reset`: all slots free, the lowest on top. -/
def reset (capacity : Nat) : ResidentSlotPool where
  mEpochs := List.replicate capacity 1
  mOccupied := List.replicate capacity false
  mFreeSlots := (List.range capacity).reverse

def capacity (pool : ResidentSlotPool) : Nat :=
  pool.mEpochs.length

def contains (pool : ResidentSlotPool) (resident : ResidentRef) : Bool :=
  pool.mOccupied[resident.slot]? == some true &&
    pool.mEpochs[resident.slot]? == some resident.epoch

def acquire (pool : ResidentSlotPool) : Option (ResidentRef × ResidentSlotPool) :=
  match pool.mFreeSlots.getLast? with
  | none => none
  | some slot =>
    some (⟨slot, pool.mEpochs.getD slot 0⟩,
      { pool with
        mOccupied := pool.mOccupied.set slot true
        mFreeSlots := pool.mFreeSlots.dropLast })

/-- The largest epoch. -/
def maxEpoch : Nat := 2 ^ 64 - 1

def release (pool : ResidentSlotPool) (resident : ResidentRef) :
    Except ReleaseFailure ResidentSlotPool :=
  if pool.contains resident = true then
    if resident.epoch ≠ maxEpoch then
      .ok
        { mEpochs := pool.mEpochs.set resident.slot (resident.epoch + 1)
          mOccupied := pool.mOccupied.set resident.slot false
          mFreeSlots := pool.mFreeSlots ++ [resident.slot] }
    else .error .epochOverflow
  else .error .stale

/-! ## Ownership -/

/-- Every slot is free or belongs to exactly one of the references held, which are all
live. -/
structure Owned (pool : ResidentSlotPool) (held : List ResidentRef) : Prop where
  sizes : pool.mOccupied.length = pool.capacity
  slots : (pool.mFreeSlots ++ held.map ResidentRef.slot).Perm (List.range pool.capacity)
  live : ∀ resident ∈ held, pool.contains resident = true
  free : ∀ slot ∈ pool.mFreeSlots, pool.mOccupied[slot]? = some false

variable {pool : ResidentSlotPool} {held held' : List ResidentRef} {resident : ResidentRef}

theorem owned_reset (capacity : Nat) : (reset capacity).Owned [] where
  sizes := by rw [reset, ResidentSlotPool.capacity, List.length_replicate, List.length_replicate]
  slots := by
    rw [List.map_nil, List.append_nil, ResidentSlotPool.capacity, reset, List.length_replicate]
    exact List.reverse_perm _
  live := by
    intro resident hmem
    cases hmem
  free := by
    intro slot hmem
    rw [reset, List.mem_reverse, List.mem_range] at hmem
    rw [reset, List.getElem?_replicate, if_pos hmem]

theorem Owned.perm (h : pool.Owned held) (hperm : held.Perm held') : pool.Owned held' where
  sizes := h.sizes
  slots := ((hperm.map ResidentRef.slot).symm.append_left _).trans h.slots
  live := fun resident hmem => h.live resident (hperm.mem_iff.2 hmem)
  free := h.free

theorem Owned.nodup_slots (h : pool.Owned held) :
    (pool.mFreeSlots ++ held.map ResidentRef.slot).Nodup :=
  h.slots.nodup_iff.2 List.nodup_range

theorem Owned.nodup (h : pool.Owned held) : held.Nodup :=
  (List.nodup_append.1 h.nodup_slots).2.1.of_map _

/-- A slot is free exactly when no reference held has it. -/
theorem Owned.free_iff (h : pool.Owned held) {slot : Nat} (hslot : slot < pool.capacity) :
    slot ∈ pool.mFreeSlots ↔ ∀ resident ∈ held, resident.slot ≠ slot := by
  have hmem : slot ∈ pool.mFreeSlots ++ held.map ResidentRef.slot :=
    h.slots.mem_iff.2 (List.mem_range.2 hslot)
  constructor
  · intro hfree resident hheld hsame
    apply (List.nodup_append.1 h.nodup_slots).2.2 slot hfree slot _ rfl
    exact List.mem_map.2 ⟨resident, hheld, hsame⟩
  · intro hnone
    rw [List.mem_append] at hmem
    rcases hmem with hfree | hheld
    · exact hfree
    · obtain ⟨resident, hresident, hsame⟩ := List.mem_map.1 hheld
      exact absurd hsame (hnone resident hresident)

theorem contains_iff : pool.contains resident = true ↔ pool.mOccupied[resident.slot]? = some true ∧
      pool.mEpochs[resident.slot]? = some resident.epoch := by
  rw [contains, Bool.and_eq_true, beq_iff_eq, beq_iff_eq]

/-- Acquiring hands out a live reference to a slot that was free. -/
theorem Owned.acquire (h : pool.Owned held) {pool' : ResidentSlotPool}
    (hacquire : pool.acquire = some (resident, pool')) : pool'.Owned (held ++ [resident]) := by
  rw [ResidentSlotPool.acquire] at hacquire
  split at hacquire
  · cases hacquire
  · rename_i slot hlast
    rw [Option.some.injEq, Prod.mk.injEq] at hacquire
    obtain ⟨hresident, hpool⟩ := hacquire
    have hfree : pool.mFreeSlots = pool.mFreeSlots.dropLast ++ [slot] := by
      rw [List.dropLast_append_getLast?]
      exact hlast
    have hmem : slot ∈ pool.mFreeSlots := by
      rw [hfree]
      exact List.mem_append_right _ (List.mem_singleton.2 rfl)
    have hcapacity : slot < pool.mEpochs.length :=
      List.mem_range.1 (h.slots.mem_iff.1 (List.mem_append_left _ hmem))
    have hnodup := h.nodup_slots
    have hother : ∀ r ∈ held, r.slot ≠ slot := (h.free_iff hcapacity).1 hmem
    have hbelow : slot ∉ pool.mFreeSlots.dropLast := by
      intro hin
      have hdouble := (List.nodup_append.1 hnodup).1
      rw [hfree, List.nodup_append] at hdouble
      exact hdouble.2.2 slot hin slot (List.mem_singleton.2 rfl) rfl
    rw [← hpool]
    refine ⟨?_, ?_, ?_, ?_⟩
    · show (pool.mOccupied.set slot true).length = _
      rw [List.length_set]
      exact h.sizes
    · rw [List.map_append, List.map_singleton, ← hresident]
      have hmove : (pool.mFreeSlots.dropLast ++ (held.map ResidentRef.slot ++ [slot])).Perm
          (pool.mFreeSlots ++ held.map ResidentRef.slot) := by
        rw [hfree, List.dropLast_concat, List.append_assoc]
        exact List.Perm.append_left _ List.perm_append_comm
      exact hmove.trans h.slots
    · intro r hr
      rw [List.mem_append, List.mem_singleton] at hr
      rw [contains_iff]
      rcases hr with hold | hnew
      · have hlive := contains_iff.1 (h.live r hold)
        refine ⟨?_, hlive.2⟩
        show (pool.mOccupied.set slot true)[r.slot]? = some true
        rw [List.getElem?_set_ne (Ne.symm (hother r hold))]
        exact hlive.1
      · rw [hnew, ← hresident]
        constructor
        · show (pool.mOccupied.set slot true)[slot]? = some true
          rw [List.getElem?_set_self]
          rw [h.sizes]
          exact hcapacity
        · show pool.mEpochs[slot]? = some (pool.mEpochs.getD slot 0)
          rw [List.getD_eq_getElem?_getD, List.getElem?_eq_getElem hcapacity]
          rfl
    · intro s hs
      show (pool.mOccupied.set slot true)[s]? = some false
      have hne : slot ≠ s := by
        intro hsame
        exact hbelow (by rw [hsame]; exact hs)
      rw [List.getElem?_set_ne hne]
      apply h.free
      rw [hfree]
      exact List.mem_append_left _ hs

/-- No slot is in its last epoch, which `release` cannot end. -/
def Young (pool : ResidentSlotPool) : Prop :=
  maxEpoch ∉ pool.mEpochs

theorem Owned.epoch_ne (h : pool.Owned held) (hyoung : pool.Young) :
    ∀ resident ∈ held, resident.epoch ≠ maxEpoch := by
  intro resident hmem hlast
  have hlive := (contains_iff.1 (h.live resident hmem)).2
  apply hyoung
  rw [← hlast]
  exact List.mem_of_getElem? hlive

theorem young_acquire (hyoung : pool.Young) {pool' : ResidentSlotPool}
    (hacquire : pool.acquire = some (resident, pool')) : pool'.Young := by
  rw [ResidentSlotPool.acquire] at hacquire
  split at hacquire
  · cases hacquire
  · rw [Option.some.injEq, Prod.mk.injEq] at hacquire
    rw [← hacquire.2]
    exact hyoung

theorem Owned.release (h : pool.Owned (resident :: held)) (hepoch : resident.epoch ≠ maxEpoch) :
    ∃ pool', pool.release resident = .ok pool' ∧ pool'.Owned held := by
  have hcontains := h.live resident List.mem_cons_self
  have hlive := contains_iff.1 hcontains
  rw [ResidentSlotPool.release, if_pos hcontains, if_pos hepoch]
  refine ⟨_, rfl, ?_, ?_, ?_, ?_⟩
  · show (pool.mOccupied.set resident.slot false).length = (pool.mEpochs.set _ _).length
    rw [List.length_set, List.length_set]
    exact h.sizes
  · show ((pool.mFreeSlots ++ [resident.slot]) ++ held.map ResidentRef.slot).Perm
      (List.range (pool.mEpochs.set _ _).length)
    rw [List.length_set, List.append_assoc]
    exact h.slots
  · intro r hr
    have hold := contains_iff.1 (h.live r (List.mem_cons_of_mem _ hr))
    have hne : resident.slot ≠ r.slot := by
      intro hsame
      have hnodup := (List.nodup_append.1 h.nodup_slots).2.1
      rw [List.map_cons, List.nodup_cons] at hnodup
      exact hnodup.1 (List.mem_map.2 ⟨r, hr, hsame.symm⟩)
    rw [contains_iff]
    dsimp only
    rw [List.getElem?_set_ne hne, List.getElem?_set_ne hne]
    exact hold
  · intro s hs
    rw [List.mem_append, List.mem_singleton] at hs
    show (pool.mOccupied.set resident.slot false)[s]? = some false
    rcases hs with hfree | hback
    · have hne : resident.slot ≠ s := by
        intro hsame
        apply (List.nodup_append.1 h.nodup_slots).2.2 s hfree s _ rfl
        rw [← hsame]
        exact List.mem_map.2 ⟨resident, List.mem_cons_self, rfl⟩
      rw [List.getElem?_set_ne hne]
      exact h.free s hfree
    · rw [hback, List.getElem?_set_self]
      exact (List.getElem?_eq_some_iff.1 hlive.1).1

end ResidentSlotPool

end EdgeLLM.Ports.Generation
