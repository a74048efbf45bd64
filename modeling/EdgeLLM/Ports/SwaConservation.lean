import EdgeLLM.Ports.SwaPageManager

/-!
# Conservation of the SWA pages

The invariant of the page manager over whole runs.  `Core` is its part about
pages and rows: the free pages and the leases of the held sequences are the
pool, each page once; every held sequence is sound; every other row is all
sentinels.  `Inv` adds who holds the sequences.
-/

namespace EdgeLLM.Ports.BoundedSwa

open Verified Checked
open scoped List

variable {g : SwaGeometry}

/-! ## Pages and rows -/

/-- The pages and rows of a manager whose held sequences are `states`. -/
structure Core (g : SwaGeometry) (freePages : List PageId) (table : SwaPageTable)
    (states : List SwaKVCacheState) : Prop where
  conserved : freePages ++ states.flatMap SwaKVCacheState.leased ~ List.range g.numPages
  batch : BatchSound g ⟨states, table⟩
  vacant : ∀ slot, slot ∉ slotsOf states → (table.rows slot).Within []

namespace Core

variable {freePages : List PageId} {table table' : SwaPageTable}
variable {states states' kept gone : List SwaKVCacheState}

theorem perm (h : Core g freePages table states) (hperm : states ~ states') :
    Core g freePages table states' where
  conserved := ((hperm.flatMap_right _).symm.append_left freePages).trans h.conserved
  batch :=
    { sound := fun state hmem => h.batch.sound state (hperm.mem_iff.2 hmem)
      distinct := ((hperm.map _).nodup_iff).1 h.batch.distinct }
  vacant := fun slot hslot => h.vacant slot fun hmem => hslot ((hperm.map _).mem_iff.1 hmem)

/-- A loop over the sequences keeps pages and rows. -/
theorem of_kept (h : Core g freePages table states) {batch : Batch}
    (hkept : BatchKept g ⟨states, table⟩ batch) : Core g freePages batch.table batch.states where
  conserved := ((leased_kept hkept.kept).append_left freePages).trans h.conserved
  batch := h.batch.of_kept hkept
  vacant := by
    intro slot hslot
    rw [slotsOf_kept hkept.kept] at hslot
    rw [hkept.touches.rows slot hslot]
    exact h.vacant slot hslot

theorem wipe (h : Core g freePages table states) {state : SwaKVCacheState} (hmem : state ∈ states) :
    Core g freePages (table.wipe state.resident.slot) states where
  conserved := h.conserved
  batch :=
    { sound := by
        intro other hother
        by_cases hslot : other.resident.slot = state.resident.slot
        · have heq : other = state :=
            List.inj_on_of_nodup_map h.batch.distinct hother hmem hslot
          rw [heq]
          exact (h.batch.sound state hmem).wipe
        · apply (h.batch.sound other hother).frame (table.touches_wipe state.resident.slot)
          simpa using hslot
      distinct := h.batch.distinct }
  vacant := by
    intro slot hslot
    have hne : slot ≠ state.resident.slot := fun heq => hslot (heq ▸ List.mem_map_of_mem hmem)
    rw [(table.touches_wipe state.resident.slot).rows slot (by simpa using hne)]
    exact h.vacant slot hslot

/-- Sequences whose rows are cleared give their pages back. -/
theorem release (h : Core g freePages table (kept ++ gone))
    (hclear : ∀ state ∈ gone, (table.rows state.resident.slot).Within []) :
    Core g (freePages ++ gone.flatMap SwaKVCacheState.leased) table kept where
  conserved := by
    have hall := h.conserved
    rw [List.flatMap_append] at hall
    rw [List.append_assoc]
    exact (List.perm_append_comm.append_left freePages).trans hall
  batch :=
    { sound := fun state hmem => h.batch.sound state (List.mem_append_left _ hmem)
      distinct := by
        have hdistinct := h.batch.distinct
        rw [slotsOf, List.map_append] at hdistinct
        exact hdistinct.of_append_left }
  vacant := by
    intro slot hslot
    by_cases hgone : slot ∈ slotsOf gone
    · obtain ⟨state, hmem, rfl⟩ := List.mem_map.1 hgone
      exact hclear state hmem
    · apply h.vacant slot
      rw [slotsOf, List.map_append, List.mem_append]
      intro hmem
      rcases hmem with hkept | hin
      · exact hslot hkept
      · exact hgone hin

theorem length_le (h : Core g freePages table states) :
    freePages.length + (states.flatMap SwaKVCacheState.leased).length = g.numPages := by
  have hlen := h.conserved.length_eq
  rwa [List.length_append, List.length_range] at hlen

end Core

/-! ## Ownership -/

/-- A compaction mapping that `validateCompactionMapping` accepted for the
sequences of the request. -/
def ValidMapping (impl : RequestImpl) : Prop :=
  impl.pendingCompactionMapping.length = impl.states.length ∧
    impl.pendingCompactionMapping.filterMap SwaPageManager.destinationOf ~
      List.range impl.pendingCompactionBatchSize.toNat

/-- What holds of the live request beside pages and rows. -/
structure Live (faulted : Bool) (impl : RequestImpl) : Prop where
  fresh : faulted = false → impl.phase = .kAdmitted → ∀ state ∈ impl.states, state.Fresh
  mapping : 0 ≤ impl.pendingCompactionBatchSize → ValidMapping impl

/-- Rows lose entries only to a clear whose device call failed. -/
def Unwiped (faulted : Bool) (table : SwaPageTable) (states : List SwaKVCacheState) : Prop :=
  faulted = false → ∀ state ∈ states, state.resident.slot ∉ table.wiped

/-- The invariant of the manager: nobody, the live handle or the quarantine
holds the sequences. -/
inductive Inv (g : SwaGeometry) (m : SwaPageManager) : Prop where
  | idle (hhandle : m.handle = none) (hquarantine : m.quarantinedRequest = none)
      (hactive : m.requestActive = false) (core : Core g m.freePages m.table []) : Inv g m
  | live (impl : RequestImpl) (hhandle : m.handle = some impl)
      (hquarantine : m.quarantinedRequest = none) (hactive : m.requestActive = true)
      (core : Core g m.freePages m.table impl.states)
      (unwiped : Unwiped m.faulted m.table impl.states) (live : Live m.faulted impl) : Inv g m
  | quarantined (impl : RequestImpl) (hhandle : m.handle = none)
      (hquarantine : m.quarantinedRequest = some impl) (hactive : m.requestActive = true)
      (core : Core g m.freePages m.table impl.states)
      (unwiped : Unwiped m.faulted m.table impl.states) : Inv g m

namespace SwaPageManager

/-- The sequences that hold pages: those of the live request and those of the
quarantined one. -/
def held (m : SwaPageManager) : List SwaKVCacheState :=
  (m.handle.map RequestImpl.states).getD [] ++
    (m.quarantinedRequest.map RequestImpl.states).getD []

end SwaPageManager

variable {m : SwaPageManager} {impl : RequestImpl} {faulted : Bool}

theorem Inv.held_core (h : Inv g m) : Core g m.freePages m.table m.held := by
  cases h with
  | idle hhandle hquarantine hactive core =>
    simpa [SwaPageManager.held, hhandle, hquarantine] using core
  | live impl hhandle hquarantine hactive core unwiped live =>
    simpa [SwaPageManager.held, hhandle, hquarantine] using core
  | quarantined impl hhandle hquarantine hactive core unwiped =>
    simpa [SwaPageManager.held, hhandle, hquarantine] using core

theorem Inv.held_unwiped (h : Inv g m) : Unwiped m.faulted m.table m.held := by
  cases h with
  | idle hhandle hquarantine hactive core =>
    intro _ state hmem
    simp [SwaPageManager.held, hhandle, hquarantine] at hmem
  | live impl hhandle hquarantine hactive core unwiped live =>
    simpa [SwaPageManager.held, hhandle, hquarantine] using unwiped
  | quarantined impl hhandle hquarantine hactive core unwiped =>
    simpa [SwaPageManager.held, hhandle, hquarantine] using unwiped

theorem Inv.device {m : SwaPageManager} (h : Inv g m) (device : List DeviceOutcome)
    (faulted : Bool) (hfaulted : m.faulted = true → faulted = true) :
    Inv g { m with device := device, faulted := faulted } := by
  have hstill : faulted = false → m.faulted = false := by
    intro hfalse
    cases hm : m.faulted with
    | false => rfl
    | true => rw [hfaulted hm] at hfalse; cases hfalse
  cases h with
  | idle hhandle hquarantine hactive core => exact Inv.idle hhandle hquarantine hactive core
  | live impl hhandle hquarantine hactive core unwiped live =>
    exact Inv.live impl hhandle hquarantine hactive core (fun hf => unwiped (hstill hf))
      ⟨fun hf => live.fresh (hstill hf), live.mapping⟩
  | quarantined impl hhandle hquarantine hactive core unwiped =>
    exact Inv.quarantined impl hhandle hquarantine hactive core fun hf => unwiped (hstill hf)

theorem Inv.of_handle (h : Inv g m) (himpl : m.handle = some impl) :
    m.quarantinedRequest = none ∧ m.requestActive = true ∧
      Core g m.freePages m.table impl.states ∧ Unwiped m.faulted m.table impl.states ∧
      Live m.faulted impl := by
  cases h with
  | idle hhandle hquarantine hactive core => rw [hhandle] at himpl; cases himpl
  | live other hhandle hquarantine hactive core unwiped live =>
    rw [hhandle] at himpl
    cases himpl
    exact ⟨hquarantine, hactive, core, unwiped, live⟩
  | quarantined other hhandle hquarantine hactive core unwiped =>
    rw [hhandle] at himpl
    cases himpl

/-- Replacing the live request by one with the same sequences. -/
theorem Inv.replace {m : SwaPageManager} (h : Inv g m) {impl impl' : RequestImpl}
    (himpl : m.handle = some impl) (hstates : impl'.states = impl.states)
    (hlive : Live m.faulted impl') : Inv g { m with handle := some impl' } := by
  obtain ⟨hquarantine, hactive, core, unwiped, -⟩ := h.of_handle himpl
  exact Inv.live impl' rfl hquarantine hactive (hstates ▸ core) (hstates ▸ unwiped) hlive

/-- Keeping the sequences and the mapping and leaving admission. -/
theorem Live.leave {impl' : RequestImpl} (h : Live faulted impl) (hphase : impl'.phase ≠ .kAdmitted)
    (hstates : impl'.states = impl.states)
    (hmapping : impl'.pendingCompactionMapping = impl.pendingCompactionMapping)
    (hsize : impl'.pendingCompactionBatchSize = impl.pendingCompactionBatchSize) :
    Live faulted impl' where
  fresh := fun _ hadmitted => (hphase hadmitted).elim
  mapping := by
    rw [hsize]
    intro hpending
    rw [ValidMapping, hmapping, hsize, hstates]
    exact h.mapping hpending

/-- A request past admission with no mapping pending. -/
theorem Live.settled (hphase : impl.phase ≠ .kAdmitted)
    (hsize : impl.pendingCompactionBatchSize < 0) : Live faulted impl where
  fresh := fun _ hadmitted => (hphase hadmitted).elim
  mapping := fun hpending => absurd hpending (Int.not_le.2 hsize)

/-! ## Rules for the parts of an operation -/

namespace SwaPageManager

variable {m : SwaPageManager} {bad : SwaCheck → SwaPageManager → Prop}

theorem ensures_checkedImpl {ok : RequestImpl → SwaPageManager → Prop}
    (hsome : ∀ impl, m.handle = some impl → ok impl m)
    (hnone : m.handle = none → bad .handleInvalid m) : Ensures checkedImpl ok bad m := by
  rw [checkedImpl, ensures_bind, ensures_read]
  cases himpl : m.handle with
  | none => exact hnone himpl
  | some impl => exact hsome impl himpl

/-- A device call succeeds, or marks the manager as faulted. -/
theorem ensures_deviceCall {ok : DeviceOutcome → SwaPageManager → Prop}
    (hsuccess : ∀ device, ok .success { m with device := device })
    (hfailure : ∀ outcome device, outcome ≠ .success →
      ok outcome { m with device := device, faulted := true }) :
    Ensures deviceCall ok bad m := by
  unfold Ensures deviceCall
  cases htape : m.device with
  | nil =>
    have hself := hsuccess m.device
    exact hself
  | cons outcome rest =>
    by_cases hok : outcome = .success
    · have hnext := hsuccess rest
      simpa [hok] using hnext
    · have hnext := hfailure outcome rest hok
      simpa [hok] using hnext

theorem ensures_cudaCheck {ok : Unit → SwaPageManager → Prop}
    (hok : ∀ device, ok ⟨⟩ { m with device := device })
    (hbad : ∀ device, bad .device { m with device := device, faulted := true }) :
    Ensures cudaCheck ok bad m := by
  rw [cudaCheck, ensures_bind]
  apply ensures_deviceCall
  · intro device
    rw [ensures_check]
    exact ⟨fun _ => hok device, fun hne => (hne rfl).elim⟩
  · intro outcome device hne
    rw [ensures_check]
    exact ⟨fun heq => (hne heq).elim, fun _ => hbad device⟩

theorem ensures_synchronizer {ok : Bool → SwaPageManager → Prop}
    (hreached : ∀ device, ok true { m with device := device })
    (hfailed : ∀ device, ok false { m with device := device, faulted := true })
    (hthrew : ∀ device, bad .device { m with device := device, faulted := true }) :
    Ensures synchronizer ok bad m := by
  rw [synchronizer, ensures_bind]
  apply ensures_deviceCall
  · exact hreached
  · intro outcome device hne
    cases outcome with
    | success => exact (hne rfl).elim
    | failure => exact hfailed device
    | threw => exact hthrew device

theorem ensures_onTable {f : SwaPageTable → Except SwaCheck SwaPageTable}
    {ok : Unit → SwaPageManager → Prop} :
    Ensures (onTable f) ok bad m ↔
      Outcome (f m.table) (fun table => ok ⟨⟩ { m with table := table }) (fun e => bad e m) := by
  rw [onTable, ensures_zoom, ensures_mutate]

/-- The loop rule for the sequences of the live request. -/
theorem ensures_onBatch {body : Nat → Checked SwaCheck SlotFrame Bool}
    {pre : SwaKVCacheState → Prop} (same : Prop) (good : Bool → Prop) (fails : SwaCheck → Prop)
    {impl : RequestImpl} (himpl : m.handle = some impl)
    (hsound : BatchSound g ⟨impl.states, m.table⟩) (hpre : ∀ state ∈ impl.states, pre state)
    (hbody : ∀ slot frame, pre frame.state → SlotSound g frame.state frame.table →
      Ensures (body slot)
        (fun next frame' => SlotKept g frame frame' ∧
          (same → frame'.table.wiped = frame.table.wiped) ∧ good next)
        (fun e frame' => SlotKept g frame frame' ∧
          (same → frame'.table.wiped = frame.table.wiped) ∧ fails e) frame)
    (hgood : good true) :
    Ensures (onBatch body)
      (fun next m' => ∃ batch,
        m' = { m with table := batch.table, handle := some { impl with states := batch.states } } ∧
        BatchKept g ⟨impl.states, m.table⟩ batch ∧ (same → batch.table.wiped = m.table.wiped) ∧
        good next)
      (fun e m' => ∃ batch,
        m' = { m with table := batch.table, handle := some { impl with states := batch.states } } ∧
        BatchKept g ⟨impl.states, m.table⟩ batch ∧ (same → batch.table.wiped = m.table.wiped) ∧
        fails e) m := by
  have hbatch : m.batch = ⟨impl.states, m.table⟩ := by
    rw [batch, himpl]
    rfl
  rw [onBatch, ensures_zoom, hbatch]
  apply (eachStateFrom_spec hbody hgood 0 ⟨impl.states, m.table⟩ hpre hsound).mono
  · rintro next batch ⟨hkept, hwiped, hnext⟩
    exact ⟨batch, by rw [setBatch, himpl]; rfl, hkept, hwiped, hnext⟩
  · rintro e batch ⟨hkept, hwiped, he⟩
    exact ⟨batch, by rw [setBatch, himpl]; rfl, hkept, hwiped, he⟩

/-- After a loop over the sequences, once the request has left admission or a
device call has failed. -/
theorem inv_batch {impl : RequestImpl} {batch : Batch} (impl' : RequestImpl) (faulted : Bool)
    (h : Inv g m) (himpl : m.handle = some impl) (hkept : BatchKept g ⟨impl.states, m.table⟩ batch)
    (hstates : impl'.states = batch.states)
    (hmapping : impl'.pendingCompactionMapping = impl.pendingCompactionMapping)
    (hsize : impl'.pendingCompactionBatchSize = impl.pendingCompactionBatchSize)
    (hstill : faulted = false → m.faulted = false ∧ impl'.phase ≠ .kAdmitted ∧
      batch.table.wiped = m.table.wiped) (device : List DeviceOutcome) :
    Inv g { m with
      table := batch.table
      handle := some impl'
      device := device
      faulted := faulted } := by
  obtain ⟨hquarantine, hactive, core, unwiped, live⟩ := h.of_handle himpl
  refine Inv.live impl' rfl hquarantine hactive (hstates ▸ core.of_kept hkept) ?_ ?_
  · intro hfaulted state hmem
    obtain ⟨hold, -, hwiped⟩ := hstill hfaulted
    have hslot : state.resident.slot ∈ slotsOf impl.states := by
      rw [← slotsOf_kept hkept.kept, ← hstates]
      exact List.mem_map_of_mem hmem
    obtain ⟨old, hmem', heq⟩ := List.mem_map.1 hslot
    show state.resident.slot ∉ batch.table.wiped
    rw [hwiped, ← heq]
    exact unwiped hold old hmem'
  · constructor
    · intro hfaulted hadmitted
      exact ((hstill hfaulted).2.1 hadmitted).elim
    · rw [hsize]
      intro hpending
      have hvalid := live.mapping hpending
      rw [ValidMapping, hmapping, hsize, hstates, hvalid.1]
      exact ⟨hkept.kept.length_eq, hvalid.2⟩

end SwaPageManager

end EdgeLLM.Ports.BoundedSwa
