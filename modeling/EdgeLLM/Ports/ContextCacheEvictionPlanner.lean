import EdgeLLM.Ports.ContextCacheCoherence

/-!
# Eviction planning

A read-only simulation: walk the records from the least to the most recently
used, release their cache references on paper, and stop at the first prefix of
victims that satisfies the demand.

Applying a plan needs to know one thing about it: its victims are distinct
stored records (`plan_outcome`).
-/

namespace EdgeLLM.Ports.ContextCache

open Verified

set_option linter.unusedSectionVars false

variable {H : Type} [DecidableEq H]

structure EvictionPlan where
  feasible : Bool := false
  victims : List RecordId := []
  reclaimed : ResourceDemand := {}

namespace EvictionPlanner

def satisfiesDemand (demand reclaimed : ResourceDemand) (pools : ResourcePools) : Bool :=
  resourceTypes.all fun t =>
    decide (demand.get t ≤ (pools.freeCount t : Int) + reclaimed.get t)

/-- `simulatedCacheRefs` with the resources reclaimed so far. -/
structure Simulation where
  simulatedCacheRefs : Finmap fun _ : ResourceId => Nat := ∅
  reclaimed : ResourceDemand := {}

/-- One simulated cache-reference release. -/
def simulateRelease (pools : ResourcePools) (s : Simulation) (r : ResourceId) :
    Except Check Simulation := do
  let current ← match s.simulatedCacheRefs.lookup r with
    | some current => .ok current
    | none => pools.withSlot r fun slot => .ok slot.cacheRefCount
  requireThat (0 < current) .evictionWithoutCacheRef
  let refs := s.simulatedCacheRefs.insert r (current - 1)
  if current - 1 = 0 then
    pools.withSlot r fun slot =>
      .ok ⟨refs, if slot.activeRefCount = 0 then s.reclaimed.increment r.type else s.reclaimed⟩
  else .ok ⟨refs, s.reclaimed⟩

/-- The loop over the eviction order; `victims` are the records already
simulated. -/
def simulate (demand : ResourceDemand) (pools : ResourcePools) (records : CacheRecordStore H) :
    List RecordId → List RecordId → Simulation → Except Check EvictionPlan
  | [], _, _ => .ok {}
  | id :: rest, victims, s => do
      let record ← records.get id
      let s ← record.resources.foldlM (simulateRelease pools) s
      if satisfiesDemand demand s.reclaimed pools then
        .ok ⟨true, victims ++ [id], s.reclaimed⟩
      else simulate demand pools records rest (victims ++ [id]) s

/-- `mruRecord`, when present, is visited after every other record. -/
def evictionOrder (lru : List RecordId) : Option RecordId → Except Check (List RecordId)
  | none => .ok lru
  | some mru => do
      requireThat (mru ∈ lru) .mruRecordMissing
      .ok (lru.erase mru ++ [mru])

def plan (demand : ResourceDemand) (pools : ResourcePools) (records : CacheRecordStore H)
    (mruRecord : Option RecordId) : Except Check EvictionPlan := do
  requireThat (demand.isNonNegative = true) .evictionDemandNegative
  if pools.canAllocate demand then .ok { feasible := true }
  else
    let order ← evictionOrder records.lru mruRecord
    simulate demand pools records order [] {}

/-! ## The victims of a plan -/

variable {demand : ResourceDemand} {pools : ResourcePools} {store : CacheRecordStore H}

private theorem withSlot_outcome {α : Type} {r : ResourceId} {k : Slot → Except Check α}
    {ok : α → Prop} (h : ∀ slot, Outcome (k slot) ok fun e => e.internal = false) :
    Outcome (pools.withSlot r k) ok fun e => e.internal = false := by
  unfold ResourcePools.withSlot
  split
  · rfl
  · exact h _

theorem simulateRelease_outcome (s : Simulation) (r : ResourceId) :
    Outcome (simulateRelease pools s r) (fun _ => True) fun e => e.internal = false := by
  have hrest : ∀ current : Nat, Outcome (do
      requireThat (0 < current) Check.evictionWithoutCacheRef
      if current - 1 = 0 then
        pools.withSlot r fun slot =>
          .ok (⟨s.simulatedCacheRefs.insert r (current - 1),
            if slot.activeRefCount = 0 then s.reclaimed.increment r.type else s.reclaimed⟩ :
              Simulation)
      else .ok ⟨s.simulatedCacheRefs.insert r (current - 1), s.reclaimed⟩)
      (fun _ => True) fun e => e.internal = false := by
    intro current
    rw [outcome_bind, outcome_requireThat]
    refine ⟨fun _ => ?_, fun _ => rfl⟩
    rw [outcome_ite]
    exact ⟨fun _ => withSlot_outcome fun _ => trivial, fun _ => trivial⟩
  unfold simulateRelease
  cases s.simulatedCacheRefs.lookup r with
  | some current => exact hrest current
  | none =>
    rw [outcome_bind]
    exact withSlot_outcome fun slot => hrest slot.cacheRefCount

private theorem simulateAll_outcome : ∀ (rs : List ResourceId) (s : Simulation),
      Outcome (rs.foldlM (simulateRelease pools) s) (fun _ => True) fun e => e.internal = false := by
  intro rs
  induction rs with
  | nil => intro s; trivial
  | cons r rs ih =>
    intro s
    rw [List.foldlM_cons]
    exact (simulateRelease_outcome s r).bind fun s' _ => ih s'

/-- The victims of a simulation continue the given ones along the order. -/
theorem simulate_outcome (hs : store.Coherent) :
    ∀ (order victims : List RecordId) (s : Simulation), (∀ id ∈ order, id ∈ store.lru) →
      Outcome (simulate demand pools store order victims s)
        (fun plan => plan.feasible = true → ∃ taken, taken <+: order ∧
          plan.victims = victims ++ taken) fun e => e.internal = false := by
  intro order
  induction order with
  | nil =>
    intro victims s _
    unfold simulate
    rw [outcome_ok]
    intro hf
    cases hf
  | cons id rest ih =>
    intro victims s hmem
    obtain ⟨record, hr⟩ := (hs.lru_mem id).1 (hmem id List.mem_cons_self)
    unfold simulate
    rw [CacheRecordStore.get_spec hr, outcome_bind, outcome_ok]
    refine (simulateAll_outcome _ _).bind fun s' _ => ?_
    rw [outcome_ite]
    refine ⟨fun _ => fun _ => ⟨[id], by simp, rfl⟩, fun _ => ?_⟩
    refine (ih (victims ++ [id]) s' fun x hx => hmem x (List.mem_cons_of_mem _ hx)).mono ?_
      fun _ he => he
    intro plan hplan hf
    obtain ⟨taken, hpre, hv⟩ := hplan hf
    exact ⟨id :: taken, List.cons_prefix_cons.2 ⟨rfl, hpre⟩, by simp [hv]⟩

theorem evictionOrder_outcome (mru : Option RecordId) : Outcome (evictionOrder store.lru mru)
      (fun order => order.Perm store.lru) fun e => e.internal = false := by
  cases mru with
  | none => exact List.Perm.refl _
  | some id =>
    unfold evictionOrder
    rw [outcome_bind, outcome_requireThat]
    refine ⟨fun hid => ?_, fun _ => rfl⟩
    rw [outcome_ok]
    exact (List.perm_append_singleton id _).trans (List.perm_cons_erase hid).symm

/-- The victims of a feasible plan are distinct stored records. -/
theorem plan_outcome (hs : store.Coherent) (mru : Option RecordId) :
    Outcome (plan demand pools store mru) (fun plan => plan.feasible = true →
        plan.victims.Nodup ∧ ∀ id ∈ plan.victims, id ∈ store.lru) fun e => e.internal = false := by
  unfold plan
  rw [outcome_bind, outcome_requireThat]
  refine ⟨fun _ => ?_, fun _ => rfl⟩
  rw [outcome_ite]
  refine ⟨fun _ => fun _ => ⟨List.nodup_nil, by simp⟩, fun _ => ?_⟩
  refine (evictionOrder_outcome mru).bind fun order hperm => ?_
  refine (simulate_outcome hs order [] {} fun id hid => hperm.subset hid).mono ?_ fun _ he => he
  intro plan hplan hf
  obtain ⟨taken, hpre, hv⟩ := hplan hf
  rw [List.nil_append] at hv
  rw [hv]
  exact ⟨(hperm.symm.nodup hs.lru_nodup).sublist hpre.sublist,
    fun id hid => hperm.subset (hpre.subset hid)⟩

end EvictionPlanner

end EdgeLLM.Ports.ContextCache
