import EdgeLLM.Ports.SwaConservation
import Mathlib.Algebra.Order.Ring.Nat

/-!
# Runs of the bounded-SWA page manager

Every operation keeps the invariant of the manager, so every run does.
-/

namespace EdgeLLM.Ports.BoundedSwa

open Verified Checked
open scoped List

variable {g : SwaGeometry}

namespace SwaPageManager

/-- An operation keeps the invariant on both exits and raises none of the
assertions that only a broken invariant can raise. -/
def Preserves {α : Type} (g : SwaGeometry) (op : SwaM α) : Prop :=
  ∀ m, Inv g m →
    Ensures op (fun _ m' => Inv g m') (fun e m' => Inv g m' ∧ e.internal = false) m

/-! ## Prefill and decode -/

theorem checkInputLengths_outcome (inputLengths : List Int) :
    Outcome (checkInputLengths g inputLengths)
      (fun _ => ∀ inputLength ∈ inputLengths, inputLength ≤ g.maxPagesPerSeq * g.pageSize)
      (fun e => e = .prefillLengthRange) := by
  induction inputLengths with
  | nil => simp [checkInputLengths]
  | cons inputLength rest ih =>
    rw [checkInputLengths, outcome_bind, outcome_requireThat]
    constructor
    · intro hrange
      apply ih.mono
      · intro _ hrest other hmem
        rcases List.mem_cons.1 hmem with heq | hother
        · rw [heq]; exact hrange.2
        · exact hrest other hother
      · exact fun e he => he
    · exact fun _ => rfl

/-- An accepted length ends within the width of the table. -/
theorem endPage_le_of_length {inputLength : Int}
    (hle : inputLength ≤ g.maxPagesPerSeq * g.pageSize) :
    (retainedRange inputLength.toNat g.pageSize g.windowSize).endPage ≤ g.maxPagesPerSeq := by
  have hnat : inputLength.toNat ≤ g.pageSize * g.maxPagesPerSeq := by
    rw [Nat.mul_comm]
    omega
  show (inputLength.toNat + g.pageSize - 1) / g.pageSize ≤ g.maxPagesPerSeq
  apply Nat.le_of_lt_succ
  rw [Nat.div_lt_iff_lt_mul g.pageSize_pos, Nat.succ_mul, Nat.mul_comm]
  have hpos := g.pageSize_pos
  omega

theorem preparePrefillSlot_spec (inputLengths : List Int) (slot : Nat) (frame : SlotFrame)
    (h : SlotSound g frame.state frame.table) : Ensures (preparePrefillSlot g inputLengths slot)
      (fun _ frame' => SlotKept g frame frame')
      (fun e frame' => SlotKept g frame frame' ∧ e.internal = false) frame := by
  have hwipe : SlotKept g frame ⟨frame.state, frame.table.wipe frame.state.resident.slot⟩ :=
    ⟨Kept.refl _, h.wipe, frame.table.touches_wipe _⟩
  rw [preparePrefillSlot, ensures_bind, ensures_read, ensures_bind,
    BoundedSwa.ensures_onTable, SwaPageTable.clearRow_eq h.slot, outcome_ok, ensures_bind]
  apply (advanceAndBind_spec ⟨frame.state, frame.table.wipe frame.state.resident.slot⟩
    h.wipe).mono
  · rintro advanced frame' ⟨hkept, -, -⟩
    rw [ensures_bind, ensures_check]
    constructor
    · exact fun _ => hwipe.trans hkept
    · exact fun _ => ⟨hwipe.trans hkept, rfl⟩
  · rintro e frame' ⟨rfl, he, -⟩
    exact ⟨hwipe, he⟩

variable {inputLengths : List Int} {m : SwaPageManager} {impl : RequestImpl}
variable (oldToNew : List Int)

/-- On a fresh sequence the prefill body succeeds and wipes nothing. -/
theorem preparePrefillSlot_fresh
    (hlengths : ∀ inputLength ∈ inputLengths, inputLength ≤ g.maxPagesPerSeq * g.pageSize)
    (slot : Nat) (frame : SlotFrame) (hfresh : frame.state.Fresh)
    (h : SlotSound g frame.state frame.table) : Ensures (preparePrefillSlot g inputLengths slot)
      (fun _ frame' => SlotKept g frame frame' ∧ frame'.table.wiped = frame.table.wiped)
      (fun _ _ => False) frame := by
  have hactive : (frame.table.rows frame.state.resident.slot).active = ∅ := by
    apply Finset.eq_empty_of_forall_notMem
    intro page
    apply h.within.not_mem_active
    simp [SwaKVCacheState.mapped, hfresh.bindings, hfresh.staged]
  have hwipe : SlotKept g frame ⟨frame.state, frame.table.wipe frame.state.resident.slot⟩ :=
    ⟨Kept.refl _, h.wipe, frame.table.touches_wipe _⟩
  have hle : inputLengths.getD slot 0 ≤ g.maxPagesPerSeq * g.pageSize := by
    rw [List.getD_eq_getElem?_getD]
    cases hget : inputLengths[slot]? with
    | none =>
      rw [Option.getD_none]
      exact Int.mul_nonneg (Int.natCast_nonneg _) (Int.natCast_nonneg _)
    | some inputLength => exact hlengths inputLength (List.mem_of_getElem? hget)
  have hreserved : g.privatePagesPerSequence ≤ frame.state.reservedPages.length := by
    have hlen := h.reservation
    rw [SwaKVCacheState.length_leased, hfresh.bindings, hfresh.staged] at hlen
    simp only [List.length_nil] at hlen
    omega
  obtain ⟨next, hadvance⟩ := SwaKVCacheState.advance_fresh hfresh
    (endPage_le_of_length hle) hreserved
  rw [preparePrefillSlot, ensures_bind, ensures_read, ensures_bind,
    BoundedSwa.ensures_onTable, SwaPageTable.clearRow_eq h.slot, outcome_ok, ensures_bind]
  apply (advanceAndBind_spec ⟨frame.state, frame.table.wipe frame.state.resident.slot⟩
    h.wipe).mono
  · rintro advanced frame' ⟨hkept, hwiped, hrefused⟩
    have hadvanced : advanced = true := by
      cases advanced with
      | true => rfl
      | false =>
        have hnone := hrefused rfl
        rw [hadvance] at hnone
        cases hnone
    rw [ensures_bind, ensures_check]
    refine ⟨fun _ => ⟨hwipe.trans hkept, ?_⟩, fun hne => (hne hadvanced).elim⟩
    rw [hwiped]
    exact SwaPageTable.wipe_wiped_of_active hactive
  · rintro e frame' ⟨-, -, herror⟩
    rw [hadvance] at herror
    cases herror

/-- The loop of `preparePrefill` and what follows it.  On an unfaulted manager
the sequences are fresh, so the loop neither fails nor wipes a row. -/
theorem preparePrefill_loop (hinv : Inv g m) (himpl : m.handle = some impl)
    (hphase : impl.phase = .kAdmitted)
    (hlengths : ∀ inputLength ∈ inputLengths, inputLength ≤ g.maxPagesPerSeq * g.pageSize) :
    Ensures (do
        let _ ← onBatch (preparePrefillSlot g inputLengths)
        cudaCheck
        onImpl fun impl => { impl with phase := .kExecuting, deviceWorkPending := true }
        pure SwaKVCacheStatus.kOk)
      (fun _ m' => Inv g m') (fun e m' => Inv g m' ∧ e.internal = false) m := by
  obtain ⟨-, -, core, -, live⟩ := hinv.of_handle himpl
  have hrest : ∀ batch, BatchKept g ⟨impl.states, m.table⟩ batch →
      (m.faulted = false → batch.table.wiped = m.table.wiped) →
      Ensures (do
          cudaCheck
          onImpl fun impl => { impl with phase := .kExecuting, deviceWorkPending := true }
          pure SwaKVCacheStatus.kOk)
        (fun _ m' => Inv g m') (fun e m' => Inv g m' ∧ e.internal = false)
        { m with table := batch.table, handle := some { impl with states := batch.states } } := by
    intro batch hkept hwiped
    rw [ensures_bind]
    apply ensures_cudaCheck
    · intro device
      rw [ensures_bind, onImpl, ensures_modify, ensures_pure]
      exact inv_batch
        { impl with states := batch.states, phase := .kExecuting, deviceWorkPending := true }
        m.faulted hinv himpl hkept rfl rfl rfl
        (fun hfaulted => ⟨hfaulted, by simp, hwiped hfaulted⟩) device
    · intro device
      exact ⟨inv_batch { impl with states := batch.states } true hinv himpl hkept rfl rfl rfl
        (fun hfaulted => by cases hfaulted) device, rfl⟩
  rw [ensures_bind]
  by_cases hfaulted : m.faulted = false
  · have hbody := preparePrefillSlot_fresh (g := g) hlengths
    apply (ensures_onBatch True (fun _ => True) (fun _ => False) himpl core.batch
      (live.fresh hfaulted hphase) (fun slot frame hfresh hsound =>
        (hbody slot frame hfresh hsound).mono (fun _ _ h => ⟨h.1, fun _ => h.2, trivial⟩)
          (fun _ _ h => h.elim)) trivial).mono
    · rintro _ _ ⟨batch, rfl, hkept, hwiped, -⟩
      exact hrest batch hkept fun _ => hwiped trivial
    · rintro e _ ⟨batch, -, -, -, hfalse⟩
      exact hfalse.elim
  · apply (ensures_onBatch False (fun _ => True) (fun e => e.internal = false) himpl core.batch
      (fun _ _ => trivial) (fun slot frame _ hsound =>
        (preparePrefillSlot_spec inputLengths slot frame hsound).mono
          (fun _ _ h => ⟨h, fun hf => hf.elim, trivial⟩)
          (fun _ _ h => ⟨h.1, fun hf => hf.elim, h.2⟩)) trivial).mono
    · rintro _ _ ⟨batch, rfl, hkept, -, -⟩
      exact hrest batch hkept fun hf => (hfaulted hf).elim
    · rintro e _ ⟨batch, rfl, hkept, -, he⟩
      exact ⟨inv_batch { impl with states := batch.states } m.faulted hinv himpl hkept rfl rfl rfl
        (fun hf => (hfaulted hf).elim) m.device, he⟩

theorem preserves_preparePrefill (inputLengths : List Int) :
    Preserves g (preparePrefill g inputLengths) := by
  intro m hinv
  rw [preparePrefill, ensures_bind]
  apply ensures_checkedImpl
  · intro impl himpl
    obtain ⟨-, -, core, -, live⟩ := hinv.of_handle himpl
    rw [ensures_bind, ensures_check]
    refine ⟨fun hphase => ?_, fun _ => ⟨hinv, rfl⟩⟩
    rw [ensures_bind, ensures_check]
    refine ⟨fun _ => ?_, fun _ => ⟨hinv, rfl⟩⟩
    rw [ensures_bind, ensures_ofExcept]
    apply (checkInputLengths_outcome inputLengths).mono
    · intro _ hlengths
      have hstart : Inv g { m with handle := some { impl with inputLengths := inputLengths } } :=
        hinv.replace himpl rfl ⟨live.fresh, live.mapping⟩
      rw [ensures_bind, onImpl, ensures_modify, himpl]
      exact preparePrefill_loop hstart rfl hphase.1 hlengths
    · intro e he
      rw [he]
      exact ⟨hinv, rfl⟩
  · exact fun _ => ⟨hinv, rfl⟩

theorem retireSlot_spec (frame : SlotFrame) (h : SlotSound g frame.state frame.table) :
    Ensures (do
        retire g frame.state.resident.slot
        pure true)
      (fun _ frame' => SlotKept g frame frame' ∧
        (True → frame'.table.wiped = frame.table.wiped) ∧ True)
      (fun e frame' => SlotKept g frame frame' ∧
        (True → frame'.table.wiped = frame.table.wiped) ∧ e.internal = false) frame := by
  rw [ensures_bind]
  apply (retire_spec h).mono
  · rintro _ frame' ⟨hkept, hwiped⟩
    exact ⟨hkept, fun _ => hwiped, trivial⟩
  · rintro e frame' ⟨rfl, he⟩
    exact ⟨SlotKept.refl h, fun _ => rfl, he⟩

/-- A step of an executing request: a loop that wipes no row, and a change of
the request's own flags after it. -/
theorem preserves_executing {α : Type} {ready : RequestImpl → Prop} [DecidablePred ready]
    {refused : SwaCheck} {body : RequestImpl → Nat → Checked SwaCheck SlotFrame Bool}
    {next : Bool → SwaM α} (hready : ∀ impl, ready impl → impl.phase = .kExecuting)
    (hrefused : refused.internal = false)
    (hbody : ∀ impl slot frame, SlotSound g frame.state frame.table → Ensures (body impl slot)
        (fun _ frame' => SlotKept g frame frame' ∧
          (True → frame'.table.wiped = frame.table.wiped) ∧ True)
        (fun e frame' => SlotKept g frame frame' ∧
          (True → frame'.table.wiped = frame.table.wiped) ∧ e.internal = false) frame)
    (hnext : ∀ result m impl, Inv g m → m.handle = some impl → impl.phase ≠ .kAdmitted →
      Ensures (next result) (fun _ m' => Inv g m') (fun e m' => Inv g m' ∧ e.internal = false) m) :
    Preserves g (checkedImpl >>= fun impl => check (ready impl) refused >>= fun _ =>
      onBatch (body impl) >>= next) := by
  intro m hinv
  rw [ensures_bind]
  apply ensures_checkedImpl
  · intro impl himpl
    refine .checked ⟨hinv, hrefused⟩ fun hphase => ?_
    have hexecuting : impl.phase ≠ .kAdmitted := by simp [hready impl hphase]
    obtain ⟨-, -, core, -, -⟩ := hinv.of_handle himpl
    have hafter : ∀ batch, BatchKept g ⟨impl.states, m.table⟩ batch →
        batch.table.wiped = m.table.wiped →
        Inv g { m with
          table := batch.table
          handle := some { impl with states := batch.states } } :=
      fun batch hkept hwiped => inv_batch { impl with states := batch.states } m.faulted hinv himpl
        hkept rfl rfl rfl (fun hfaulted => ⟨hfaulted, hexecuting, hwiped⟩) m.device
    rw [ensures_bind]
    apply (ensures_onBatch True (fun _ => True) (fun e => e.internal = false) himpl core.batch
      (fun _ _ => trivial) (fun slot frame _ hsound => hbody impl slot frame hsound) trivial).mono
    · rintro result _ ⟨batch, rfl, hkept, hwiped, -⟩
      exact hnext result _ _ (hafter batch hkept (hwiped trivial)) rfl hexecuting
    · rintro e _ ⟨batch, rfl, hkept, hwiped, he⟩
      exact ⟨hafter batch hkept (hwiped trivial), he⟩
  · exact fun _ => ⟨hinv, rfl⟩

theorem inv_flags (hinv : Inv g m) (himpl : m.handle = some impl) {f : RequestImpl → RequestImpl}
    (hphase : (f impl).phase ≠ .kAdmitted) (hstates : (f impl).states = impl.states)
    (hmapping : (f impl).pendingCompactionMapping = impl.pendingCompactionMapping)
    (hsize : (f impl).pendingCompactionBatchSize = impl.pendingCompactionBatchSize) :
    Inv g { m with handle := m.handle.map f } := by
  obtain ⟨-, -, -, -, live⟩ := hinv.of_handle himpl
  rw [himpl]
  exact hinv.replace himpl hstates (live.leave hphase hstates hmapping hsize)

theorem preserves_completePrefill : Preserves g (completePrefill g) := by
  apply preserves_executing (fun _ h => h.1) rfl
  · intro impl slot frame hsound
    rw [completePrefillSlot, ensures_bind, ensures_read]
    exact .checked ⟨SlotKept.refl hsound, fun _ => rfl, rfl⟩ fun _ => retireSlot_spec frame hsound
  · intro result m impl hinv himpl hexecuting
    rw [ensures_bind, onImpl, ensures_modify, ensures_pure]
    exact inv_flags hinv himpl hexecuting rfl rfl rfl

theorem preserves_completeDecodeStep : Preserves g (completeDecodeStep g) := by
  apply preserves_executing (fun _ h => h.1) rfl
  · intro impl slot frame hsound
    exact retireSlot_spec frame hsound
  · intro result m impl hinv himpl hexecuting
    rw [ensures_bind, onImpl, ensures_modify, ensures_pure]
    exact inv_flags hinv himpl hexecuting rfl rfl rfl

theorem preserves_prepareDecodeStep : Preserves g (prepareDecodeStep g) := by
  apply preserves_executing (fun _ h => h.1) rfl
  · intro impl slot frame hsound
    rw [prepareDecodeSlot, ensures_bind, ensures_read, ensures_ite]
    constructor
    · exact fun _ => ⟨SlotKept.refl hsound, fun _ => rfl, trivial⟩
    · intro _
      apply (advanceAndBind_spec frame hsound).mono
      · rintro _ frame' ⟨hkept, hwiped, -⟩
        exact ⟨hkept, fun _ => hwiped, trivial⟩
      · rintro e frame' ⟨rfl, he, -⟩
        exact ⟨SlotKept.refl hsound, fun _ => rfl, he⟩
  · intro advanced m impl hinv himpl hexecuting
    cases advanced with
    | true =>
      show Ensures (cudaCheck >>= _) _ _ m
      rw [ensures_bind]
      apply ensures_cudaCheck
      · intro device
        rw [ensures_bind, onImpl, ensures_modify, ensures_pure]
        exact inv_flags (hinv.device device m.faulted id) himpl hexecuting rfl rfl rfl
      · intro device
        exact ⟨hinv.device device true fun _ => rfl, rfl⟩
    | false =>
      show Ensures (onImpl _ >>= _) _ _ m
      rw [ensures_bind, onImpl, ensures_modify, ensures_pure]
      exact inv_flags hinv himpl (by simp) rfl rfl rfl

/-! ## Clearing and releasing -/

/-- The manager in a clearing loop over `gone`, with `rest` still to clear. -/
def Clearing (g : SwaGeometry) (m : SwaPageManager) (states gone rest : List SwaKVCacheState)
    (m' : SwaPageManager) : Prop :=
  ∃ table device, m' = { m with table := table, device := device } ∧
    Core g m.freePages table states ∧
    SwaPageTable.Touches (slotsOf gone) m.table table ∧
    ∃ done, done ++ rest = gone ∧
      ∀ state ∈ done, (table.rows state.resident.slot).Within []

section Clearing

variable {m : SwaPageManager} {states gone rest : List SwaKVCacheState}

theorem clearing_start (h : Core g m.freePages m.table states) : Clearing g m states gone gone m :=
  ⟨m.table, m.device, rfl, h, SwaPageTable.Touches.refl _ _, [], rfl, by simp⟩

theorem clearing_step {state : SwaKVCacheState} {m' : SwaPageManager}
    {bad : SwaCheck → SwaPageManager → Prop} (hgone : gone ⊆ states)
    (h : Clearing g m states gone (state :: rest) m') : Ensures (clearRow g state.resident.slot)
      (fun _ m'' => Clearing g m states gone rest m'') bad m' := by
  obtain ⟨table, device, rfl, core, htouches, done, hdone, hclear⟩ := h
  have hin : state ∈ gone := by
    rw [← hdone]
    exact List.mem_append_right _ (List.mem_cons_self ..)
  have hmem : state ∈ states := hgone hin
  have hslot : [state.resident.slot] ⊆ slotsOf gone := by
    intro slot hslot
    rw [List.mem_singleton.1 hslot]
    exact List.mem_map_of_mem hin
  rw [clearRow, ensures_onTable, SwaPageTable.clearRow_eq (core.batch.sound state hmem).slot,
    outcome_ok]
  refine ⟨table.wipe state.resident.slot, device, rfl, core.wipe hmem,
    htouches.trans ((table.touches_wipe _).mono hslot), done ++ [state], ?_, ?_⟩
  · rw [List.append_assoc]
    exact hdone
  · intro other hother
    by_cases hsame : other.resident.slot = state.resident.slot
    · rw [hsame, SwaPageTable.wipe_same]
      exact SparseRow.within_empty _
    · rw [List.mem_append, List.mem_singleton] at hother
      rcases hother with hdone' | heq
      · rw [(table.touches_wipe state.resident.slot).rows _ (by simpa using hsame)]
        exact hclear other hdone'
      · exact (hsame (congrArg (fun s => s.resident.slot) heq)).elim

end Clearing

/-- Releasing sequences whose rows are cleared: the checks of `releaseState`
hold, and the pages join the free list. -/
theorem ensures_releaseAll {m : SwaPageManager} {kept gone : List SwaKVCacheState}
    {bad : SwaCheck → SwaPageManager → Prop} (core : Core g m.freePages m.table (kept ++ gone)) :
    Ensures (forEach (releaseState g) gone)
      (fun _ m' => m' = { m with
        freePages := m.freePages ++ gone.flatMap SwaKVCacheState.leased }) bad m := by
  let inv : List SwaKVCacheState → SwaPageManager → Prop := fun rest m' =>
    ∃ done, done ++ rest = gone ∧ m' = { m with
      freePages := m.freePages ++ done.flatMap SwaKVCacheState.leased }
  have hstep : ∀ state rest m', inv (state :: rest) m' →
      Ensures (releaseState g state) (fun _ m'' => inv rest m'') bad m' := by
    rintro state rest m' ⟨done, hdone, rfl⟩
    have hmem : state ∈ kept ++ gone := by
      rw [← hdone]
      simp
    have hcount := (core.batch.sound state hmem).reservation
    have hpool := core.length_le
    rw [← hdone] at hpool
    simp only [List.flatMap_append, List.flatMap_cons, List.length_append] at hpool
    rw [state.length_leased] at hcount
    rw [releaseState, ensures_bind, ensures_read, ensures_bind, ensures_check]
    constructor
    · intro _
      refine ⟨done ++ [state], ?_, ?_⟩
      · rw [List.append_assoc]
        exact hdone
      · simp [List.append_assoc]
    · intro hrefused
      apply (hrefused _).elim
      have hleased := state.length_leased
      simp only [List.length_append]
      omega
  have hinit : inv gone m := ⟨[], rfl, by simp⟩
  refine (Ensures.forEach inv hstep _ m hinit).mono ?_ (fun _ _ h => h)
  rintro _ m' ⟨done, hdone, rfl⟩
  rw [List.append_nil] at hdone
  rw [hdone]

/-- `clearAndRelease` of the request that was just taken out of its owner: it
returns every page, or quarantines the request. -/
theorem ensures_clearAndRelease {request : RequestImpl} {bad : SwaCheck → SwaPageManager → Prop}
    (hhandle : m.handle = none) (hquarantine : m.quarantinedRequest = none)
    (hactive : m.requestActive = true) (core : Core g m.freePages m.table request.states) :
    Ensures (clearAndRelease g request) (fun _ m' => Inv g m') bad m := by
  rw [clearAndRelease, ensures_bind, ensures_attempt, ensures_bind]
  apply (Ensures.forEach (Clearing g m request.states request.states)
    (fun state rest m' h => clearing_step (fun _ hmem => hmem) h) request.states m
    (clearing_start core)).mono
  · rintro _ _ ⟨table, device, rfl, hcore, -, done, hdone, hclear⟩
    rw [List.append_nil] at hdone
    rw [hdone] at hclear
    apply ensures_cudaCheck
    · intro device'
      show Ensures (forEach (releaseState g) request.states >>= _) _ _ _
      rw [ensures_bind]
      apply (@ensures_releaseAll _ _ [] _ _ hcore).mono
      · rintro _ _ rfl
        exact Inv.idle hhandle hquarantine rfl (hcore.release hclear)
      · exact fun _ _ h => h
    · intro device'
      show Ensures (Checked.modify _ >>= _) _ _ _
      rw [ensures_bind, ensures_modify, ensures_bind, ensures_read, ensures_bind, ensures_check]
      refine ⟨fun _ => ?_, fun hoccupied => ?_⟩
      · exact Inv.quarantined request hhandle rfl hactive hcore fun hf => by cases hf
      · exact (hoccupied (by rw [hquarantine]; rfl)).elim
  · exact fun _ _ h => h

/-! ## Synchronization and the end of a request -/

theorem ensures_synchronize {ok : SwaKVCacheStatus → SwaPageManager → Prop}
    {bad : SwaCheck → SwaPageManager → Prop} (himpl : m.handle = some impl)
    (hquarantine : m.quarantinedRequest = none)
    (hreached : ∀ device, ok .kOk { m with
      device := device, handle := some { impl with deviceWorkPending := false } })
    (hpoisoned : ∀ device, ok .kPoisoned { m with
      device := device, faulted := true, poisoned := true, quarantinedRequest := some impl,
      handle := none })
    (hthrew : ∀ device, bad .device { m with device := device, faulted := true }) :
    Ensures synchronize ok bad m := by
  rw [synchronize, ensures_bind]
  apply ensures_checkedImpl
  · intro other hother
    rw [himpl] at hother
    cases hother
    rw [ensures_ite]
    constructor
    · intro _
      rw [ensures_bind]
      apply ensures_synchronizer
      · intro device
        show Ensures (onImpl _ >>= _) _ _ _
        rw [ensures_bind, onImpl, ensures_modify, ensures_pure, himpl]
        exact hreached device
      · intro device
        show Ensures (Checked.modify _ >>= _) _ _ _
        rw [ensures_bind, ensures_modify, ensures_bind, ensures_read, ensures_bind, ensures_check]
        refine ⟨fun _ => ?_, fun hoccupied => ?_⟩
        · rw [ensures_bind, ensures_modify, ensures_pure, himpl]
          exact hpoisoned device
        · exact (hoccupied (by rw [hquarantine]; rfl)).elim
      · exact hthrew
    · intro hidle
      rw [ensures_pure]
      have hsame : ({ impl with deviceWorkPending := false } : RequestImpl) = impl := by
        cases impl
        simp_all
      have hself := hreached m.device
      rw [hsame, ← himpl] at hself
      exact hself
  · intro hnone
    rw [himpl] at hnone
    cases hnone

theorem ensures_releasedStatus {ok : SwaKVCacheStatus → SwaPageManager → Prop}
    {bad : SwaCheck → SwaPageManager → Prop} (h : ∀ status, ok status m) :
    Ensures releasedStatus ok bad m := by
  rw [releasedStatus, ensures_bind, ensures_read, ensures_pure]
  exact h _

theorem preserves_finish : Preserves g (finish g) := by
  intro m hinv
  rw [finish, ensures_bind, ensures_read, ensures_ite]
  constructor
  · intro hvalid
    obtain ⟨impl, himpl⟩ := Option.isSome_iff_exists.1 hvalid
    obtain ⟨hquarantine, hactive, core, unwiped, live⟩ := hinv.of_handle himpl
    rw [ensures_bind]
    apply ensures_synchronize himpl hquarantine
    · intro device
      rw [if_neg (by simp), ensures_bind, takeHandle, ensures_bind,
        ensures_read, ensures_bind, ensures_modify, ensures_pure]
      show Ensures (clearAndRelease g _ >>= _) _ _ _
      rw [ensures_bind]
      refine (ensures_clearAndRelease ?_ ?_ ?_ ?_).mono
        (fun _ _ hinv' => ensures_releasedStatus fun _ => hinv') (fun _ _ h => h)
      · rfl
      · exact hquarantine
      · exact hactive
      · exact core
    · intro device
      rw [if_pos (by simp), ensures_pure]
      exact Inv.quarantined impl rfl rfl hactive core fun hf => by cases hf
    · intro device
      exact ⟨hinv.device device true fun _ => rfl, rfl⟩
  · exact fun _ => hinv

theorem preserves_abandon : Preserves g (abandon g) := by
  intro m hinv
  rw [abandon, ensures_bind, takeHandle, ensures_bind, ensures_read,
    ensures_bind, ensures_modify, ensures_pure]
  cases himpl : m.handle with
  | none =>
    show Inv g { m with handle := none }
    rw [← himpl]
    exact hinv
  | some request =>
    obtain ⟨hquarantine, hactive, core, unwiped, live⟩ := hinv.of_handle himpl
    have hquarantined : ∀ device, Ensures (do
          Checked.modify fun m => { m with poisoned := true }
          let occupied ← Checked.read fun m : SwaPageManager => m.quarantinedRequest.isSome
          Checked.check (occupied = false) SwaCheck.terminated
          Checked.modify fun m => { m with quarantinedRequest := some request })
        (fun _ m' => Inv g m') (fun e m' => Inv g m' ∧ e.internal = false)
        { m with handle := none, device := device, faulted := true } := by
      intro device
      rw [ensures_bind, ensures_modify, ensures_bind, ensures_read, ensures_bind, ensures_check]
      refine ⟨fun _ => ?_, fun hoccupied => ?_⟩
      · exact Inv.quarantined request rfl rfl hactive core fun hf => by cases hf
      · exact (hoccupied (by rw [hquarantine]; rfl)).elim
    rw [ensures_ite]
    constructor
    · intro _
      rw [ensures_bind, ensures_attempt]
      apply ensures_synchronizer
      · intro device
        exact ensures_clearAndRelease rfl hquarantine hactive core
      · exact hquarantined
      · exact hquarantined
    · intro _
      exact ensures_clearAndRelease rfl hquarantine hactive core

theorem preserves_shutdown : Preserves g (shutdown g) := by
  intro m hinv
  rw [shutdown, ensures_bind, ensures_read]
  cases hinv with
  | idle hhandle hquarantine hactive core =>
    rw [hquarantine]
    exact Inv.idle hhandle hquarantine hactive core
  | live impl hhandle hquarantine hactive core unwiped live =>
    rw [hquarantine]
    exact Inv.live impl hhandle hquarantine hactive core unwiped live
  | quarantined request hhandle hquarantine hactive core unwiped =>
    rw [hquarantine]
    show Ensures (Checked.attempt synchronizer >>= _) _ _ m
    rw [ensures_bind, ensures_attempt]
    have hstays : ∀ device, Inv g { m with device := device, faulted := true } := fun device =>
      Inv.quarantined request hhandle hquarantine hactive core fun hf => by cases hf
    apply ensures_synchronizer
    · intro device
      show Ensures (Checked.modify _ >>= _) _ _ _
      rw [ensures_bind, ensures_modify, ensures_bind]
      refine (ensures_clearAndRelease ?_ ?_ ?_ ?_).mono
        (fun _ _ hinv' => ensures_releasedStatus fun _ => hinv') (fun _ _ h => h)
      · exact hhandle
      · rfl
      · exact hactive
      · exact core
    · exact hstays
    · exact hstays

/-! ## Admission -/

theorem drawPages_spec (count : Nat) (freePages reserved : List PageId)
    (henough : count ≤ freePages.length) :
    (drawPages count freePages reserved).1 ++ (drawPages count freePages reserved).2 ~
        freePages ++ reserved ∧
      (drawPages count freePages reserved).2.length = count + reserved.length := by
  induction count generalizing freePages reserved with
  | zero => exact ⟨List.Perm.refl _, (Nat.zero_add _).symm⟩
  | succ count ih =>
    have hne : freePages ≠ [] := List.ne_nil_of_length_pos (by omega)
    have hsplit := List.dropLast_append_getLast hne
    obtain ⟨hperm, hlen⟩ := ih freePages.dropLast (reserved ++ [freePages.getLast hne])
      (by rw [List.length_dropLast]; omega)
    rw [drawPages, List.getLast?_eq_some_getLast hne]
    constructor
    · calc _ ~ freePages.dropLast ++ (reserved ++ [freePages.getLast hne]) := hperm
        _ ~ freePages.dropLast ++ ([freePages.getLast hne] ++ reserved) :=
            List.perm_append_comm.append_left _
        _ ~ freePages ++ reserved := by rw [← List.append_assoc, hsplit]
    · rw [hlen, List.length_append, List.length_singleton]
      omega

/-- The sequences of a new request: fresh, with their reservations, and
together with the free pages what was free. -/
theorem admitResidents_spec (residents : List ResidentRef) (freePages : List PageId)
    (henough : residents.length * g.privatePagesPerSequence ≤ freePages.length) :
    (admitResidents g residents freePages).1 ++
        (admitResidents g residents freePages).2.flatMap SwaKVCacheState.leased ~ freePages ∧
      (admitResidents g residents freePages).2.map SwaKVCacheState.resident = residents ∧
      ∀ state ∈ (admitResidents g residents freePages).2,
        state.Fresh ∧ state.leased.length = g.privatePagesPerSequence := by
  induction residents generalizing freePages with
  | nil => exact ⟨by simp [admitResidents], rfl, by simp [admitResidents]⟩
  | cons resident rest ih =>
    rw [List.length_cons, Nat.succ_mul] at henough
    obtain ⟨hperm, hlen⟩ := drawPages_spec g.privatePagesPerSequence freePages [] (by omega)
    have hfree := hperm.length_eq
    rw [List.length_append, List.append_nil, hlen, List.length_nil] at hfree
    obtain ⟨hconserved, hresidents, hstates⟩ :=
      ih (drawPages g.privatePagesPerSequence freePages []).1 (by omega)
    simp only [admitResidents]
    refine ⟨?_, ?_, ?_⟩
    · rw [List.append_nil] at hperm
      rw [List.flatMap_cons]
      refine List.Perm.trans ?_ hperm
      simp only [SwaKVCacheState.leased, List.map_nil, List.nil_append, List.append_nil]
      exact (List.perm_append_comm_assoc ..).trans
        ((hconserved.append_left _).trans List.perm_append_comm)
    · rw [List.map_cons, hresidents]
    · intro state hmem
      rcases List.mem_cons.1 hmem with heq | hrest
      · rw [heq]
        exact ⟨⟨rfl, rfl, rfl, rfl, rfl, rfl, rfl⟩, by simp [SwaKVCacheState.leased, hlen]⟩
      · exact hstates state hrest

theorem checkResidents_outcome (seen : List Int) (residents : List ResidentRef)
    (hseen : seen.Nodup) : Outcome (checkResidents g seen residents)
      (fun _ => (seen ++ residents.map ResidentRef.slot).Nodup ∧
        ∀ resident ∈ residents, 0 ≤ resident.slot ∧ resident.slot < g.maxBatchSize)
      (fun e => e.internal = false) := by
  induction residents generalizing seen with
  | nil => simpa [checkResidents] using hseen
  | cons resident rest ih =>
    rw [checkResidents, outcome_bind, outcome_requireThat]
    refine ⟨fun hrange => ?_, fun _ => rfl⟩
    rw [outcome_bind, outcome_requireThat]
    refine ⟨fun hunique => ?_, fun _ => rfl⟩
    apply (ih (seen ++ [resident.slot])
      (hseen.append (List.nodup_singleton _) (by simpa using hunique))).mono
    · rintro _ ⟨hnodup, hrest⟩
      constructor
      · rw [List.append_assoc] at hnodup
        exact hnodup
      · intro other hmem
        rcases List.mem_cons.1 hmem with heq | hother
        · rw [heq]; exact hrange
        · exact hrest other hother
    · exact fun _ he => he

/-- Rows of sentinels agree with fresh sequences. -/
theorem core_admission {residents : List ResidentRef} {freePages : List PageId}
    {table : SwaPageTable} (core : Core g freePages table [])
    (henough : residents.length * g.privatePagesPerSequence ≤ freePages.length)
    (hnodup : (residents.map ResidentRef.slot).Nodup)
    (hrange : ∀ resident ∈ residents, 0 ≤ resident.slot ∧ resident.slot < g.maxBatchSize) :
    Core g (admitResidents g residents freePages).1 { table with wiped := ∅ }
      (admitResidents g residents freePages).2 := by
  obtain ⟨hperm, hresidents, hstates⟩ := admitResidents_spec (g := g) residents freePages henough
  set admitted := admitResidents g residents freePages
  have hpool : admitted.1 ++ admitted.2.flatMap SwaKVCacheState.leased ~ List.range g.numPages := by
    have hfree := core.conserved
    rw [List.flatMap_nil, List.append_nil] at hfree
    exact hperm.trans hfree
  have hslots : slotsOf admitted.2 = residents.map ResidentRef.slot := by
    have hmap := congrArg (List.map ResidentRef.slot) hresidents
    rw [List.map_map] at hmap
    exact hmap
  have hleased : ∀ state ∈ admitted.2, ∀ page ∈ state.leased,
      page ∈ admitted.1 ++ admitted.2.flatMap SwaKVCacheState.leased :=
    fun state hmem page hpage =>
      List.mem_append_right _ (List.mem_flatMap.2 ⟨state, hmem, hpage⟩)
  constructor
  · exact hpool
  · constructor
    · intro state hmem
      obtain ⟨hfresh, hlen⟩ := hstates state hmem
      have hmapped : state.mapped = [] := by
        rw [SwaKVCacheState.mapped, hfresh.bindings, hfresh.staged]
        rfl
      have hresident : state.resident ∈ residents := by
        rw [← hresidents]
        exact List.mem_map_of_mem hmem
      exact
        { wf := hfresh.wf
          reservation := hlen
          nodup := by
            have hall := (hpool.nodup_iff.2 List.nodup_range).of_append_right
            exact (List.nodup_flatMap.1 hall).1 state hmem
          inPool := fun page hpage =>
            List.mem_range.1 (hpool.mem_iff.1 (hleased state hmem page hpage))
          slot := hrange _ hresident
          within := by
            rw [hmapped]
            exact core.vacant _ (by simp [slotsOf])
          covers := by
            rw [hmapped]
            exact fun _ => SparseRow.covers_nil _ }
    · rw [hslots]
      exact hnodup
  · exact fun slot _ => core.vacant slot (by simp [slotsOf])

theorem preserves_beginRequest (residents : List ResidentRef) (stream : Nat) :
    Preserves g (beginRequest g residents stream) := by
  intro m hinv
  rw [beginRequest, ensures_bind, ensures_check]
  refine ⟨fun _ => ?_, fun _ => ⟨hinv, rfl⟩⟩
  rw [ensures_bind, ensures_read, ensures_ite]
  refine ⟨fun _ => hinv, fun _ => ?_⟩
  rw [ensures_ite]
  refine ⟨fun _ => hinv, fun hidle => ?_⟩
  rw [ensures_bind, ensures_check]
  refine ⟨fun _ => ?_, fun _ => ⟨hinv, rfl⟩⟩
  rw [ensures_bind, ensures_ofExcept]
  apply (checkResidents_outcome [] residents List.nodup_nil).mono
  · rintro _ ⟨hnodup, hrange⟩
    rw [ensures_ite]
    refine ⟨fun _ => hinv, fun henough => ?_⟩
    rw [ensures_bind, ensures_modify, ensures_pure]
    -- a manager without an active request is idle
    cases hinv with
    | live impl hhandle hquarantine hactive core unwiped live => exact (hidle hactive).elim
    | quarantined impl hhandle hquarantine hactive core unwiped => exact (hidle hactive).elim
    | idle hhandle hquarantine hactive core =>
      have henough' : residents.length * g.privatePagesPerSequence ≤ m.freePages.length :=
        Nat.le_of_not_lt henough
      have hstates := (admitResidents_spec (g := g) residents m.freePages henough').2.2
      refine Inv.live _ rfl hquarantine rfl (core_admission core henough' hnodup hrange) ?_ ?_
      · intro _ state _
        exact Finset.notMem_empty _
      · exact ⟨fun _ _ state hmem => (hstates state hmem).1, fun hpending => by simp at hpending⟩
  · intro e he
    exact ⟨hinv, he⟩

/-! ## Compaction -/

/-- Marking accepts exactly mappings whose destinations are distinct and in
range. -/
theorem markDestinations_outcome {newBatchSize : Int} (marked : List Nat) (hmarked : marked.Nodup)
    (hrange : ∀ k ∈ marked, k < newBatchSize.toNat) :
    Outcome (markDestinations newBatchSize oldToNew marked)
      (fun all => all = marked ++ oldToNew.filterMap destinationOf ∧ all.Nodup ∧
        ∀ k ∈ all, k < newBatchSize.toNat) (fun e => e.internal = false) := by
  induction oldToNew generalizing marked with
  | nil =>
    rw [markDestinations, outcome_ok]
    exact ⟨(List.append_nil marked).symm, hmarked, hrange⟩
  | cons destination rest ih =>
    rw [markDestinations, outcome_bind, outcome_requireThat]
    refine ⟨fun hbounds => ?_, fun _ => rfl⟩
    cases hdest : destinationOf destination with
    | none =>
      rw [List.filterMap_cons_none hdest]
      exact ih marked hmarked hrange
    | some k =>
      rw [List.filterMap_cons_some hdest]
      have hk : k < newBatchSize.toNat := by
        rw [destinationOf] at hdest
        split at hdest
        · cases hdest
          omega
        · cases hdest
      show Outcome (requireThat (k ∉ marked) SwaCheck.mappingDuplicate >>= _) _ _
      rw [outcome_bind, outcome_requireThat]
      refine ⟨fun hnew => ?_, fun _ => rfl⟩
      have hnodup : (marked ++ [k]).Nodup :=
        hmarked.append (List.nodup_singleton _) (by simpa using hnew)
      have hbound : ∀ j ∈ marked ++ [k], j < newBatchSize.toNat := by
        intro j hj
        rw [List.mem_append, List.mem_singleton] at hj
        rcases hj with hold | heq
        · exact hrange j hold
        · rw [heq]; exact hk
      apply (ih (marked ++ [k]) hnodup hbound).mono
      · rintro all ⟨hall, hrest⟩
        exact ⟨by rw [hall, List.append_assoc]; rfl, hrest⟩
      · exact fun _ he => he

/-- An accepted mapping hands out exactly the new slots. -/
theorem validateCompactionMapping_outcome (oldBatchSize : Nat) (newBatchSize : Int) :
    Outcome (validateCompactionMapping oldToNew oldBatchSize newBatchSize)
      (fun _ => oldToNew.length = oldBatchSize ∧
        oldToNew.filterMap destinationOf ~ List.range newBatchSize.toNat)
      (fun e => e.internal = false) := by
  rw [validateCompactionMapping, outcome_bind, outcome_requireThat]
  refine ⟨fun hsize => ?_, fun _ => rfl⟩
  rw [outcome_bind, outcome_requireThat]
  refine ⟨fun _ => ?_, fun _ => rfl⟩
  rw [outcome_bind]
  apply (markDestinations_outcome oldToNew [] List.nodup_nil (by simp)).mono
  · rintro marked ⟨hmarked, hnodup, hrange⟩
    rw [List.nil_append] at hmarked
    rw [outcome_requireThat, ← hmarked]
    refine ⟨fun hcovers => ⟨hsize, ?_⟩, fun _ => rfl⟩
    rw [List.perm_ext_iff_of_nodup hnodup List.nodup_range]
    intro k
    exact ⟨fun hk => List.mem_range.2 (hrange k hk), fun hk => hcovers k hk⟩
  · exact fun _ he => he

theorem preserves_beginBatchCompaction (newBatchSize : Int) :
    Preserves g (beginBatchCompaction oldToNew newBatchSize) := by
  intro m hinv
  rw [beginBatchCompaction, ensures_bind]
  apply ensures_checkedImpl
  · intro impl himpl
    obtain ⟨-, -, -, -, live⟩ := hinv.of_handle himpl
    rw [ensures_bind, ensures_check]
    refine ⟨fun hphase => ?_, fun _ => ⟨hinv, rfl⟩⟩
    rw [ensures_bind, ensures_ofExcept]
    apply (validateCompactionMapping_outcome oldToNew impl.states.length newBatchSize).mono
    · intro _ hvalid
      have hpending : Inv g { m with handle := some { impl with
          pendingCompactionMapping := oldToNew
          pendingCompactionBatchSize := newBatchSize
          pendingDeviceBatchMapping := true } } :=
        hinv.replace himpl rfl ⟨live.fresh, fun _ => hvalid⟩
      rw [ensures_bind, onImpl, ensures_modify, himpl, ensures_bind]
      apply ensures_cudaCheck
      · intro device
        rw [ensures_bind, onImpl, ensures_modify, ensures_pure]
        exact inv_flags (hpending.device device m.faulted id) rfl (by simp [hphase.1]) rfl rfl rfl
      · intro device
        exact ⟨hpending.device device true fun _ => rfl, rfl⟩
    · intro e he
      exact ⟨hinv, he⟩
  · exact fun _ => ⟨hinv, rfl⟩

/-- The clearing loop of `compactBatch`; a failed device call ends it. -/
theorem ensures_clearDropped {states gone : List SwaKVCacheState}
    (core : Core g m.freePages m.table states) (hgone : gone ⊆ states) :
    Ensures (forEach (clearDropped g) gone)
      (fun _ m' => Clearing g m states gone [] m')
      (fun e m' => e.internal = false ∧ ∃ table device, Core g m.freePages table states ∧
        m' = { m with table := table, device := device, faulted := true }) m := by
  refine Ensures.forEach (Clearing g m states gone) ?_ gone m (clearing_start core)
  intro state rest m' h
  rw [clearDropped, ensures_bind]
  have hclear : Ensures (clearRow g state.resident.slot)
      (fun _ m'' => Clearing g m states gone rest m'') (fun _ _ => False) m' := clearing_step hgone h
  apply hclear.mono
  · rintro _ _ ⟨table, device, rfl, hcore, htouches, hdone⟩
    apply ensures_cudaCheck
    · exact fun device' => ⟨table, device', rfl, hcore, htouches, hdone⟩
    · exact fun device' => ⟨rfl, table, device', hcore, rfl⟩
  · exact fun _ _ h => h.elim

theorem preserves_compactBatch : Preserves g (compactBatch g) := by
  intro m hinv
  rw [compactBatch, ensures_bind]
  apply ensures_checkedImpl
  · intro impl himpl
    obtain ⟨hquarantine, hactive, core, unwiped, live⟩ := hinv.of_handle himpl
    rw [ensures_bind, ensures_check]
    refine ⟨fun hphase => ?_, fun _ => ⟨hinv, rfl⟩⟩
    rw [ensures_bind, ensures_check]
    refine ⟨fun hpending => ?_, fun _ => ⟨hinv, rfl⟩⟩
    obtain ⟨hlen, hdests⟩ := live.mapping hpending.1
    -- survivors and dropped sequences are the sequences of the request
    have hsplit : scatter (compactionMoves impl)
          (List.replicate impl.pendingCompactionBatchSize.toNat blankState) ++
        dropped (compactionMoves impl) ~ impl.states := by
      apply scatter_zip_perm
      · rw [List.length_map, hlen]
      · rw [List.filterMap_map, List.length_replicate]
        exact hdests
    have hgone : dropped (compactionMoves impl) ⊆ impl.states :=
      fun state hmem => hsplit.mem_iff.1 (List.mem_append_right _ hmem)
    -- a failed device call leaves the request with all of its pages
    have hfail : ∀ table device, Core g m.freePages table impl.states →
        Inv g { m with table := table, device := device, faulted := true } :=
      fun table device hcore => Inv.live impl himpl hquarantine hactive hcore
        (fun hf => by cases hf) ⟨(fun hf => by cases hf), live.mapping⟩
    rw [ensures_bind]
    apply (ensures_clearDropped core hgone).mono
    · rintro _ _ ⟨table, device, rfl, hcore, htouches, done, hdone, hclear⟩
      rw [List.append_nil] at hdone
      rw [hdone] at hclear
      rw [ensures_bind]
      apply ensures_cudaCheck _ (fun device' => ⟨hfail table device' hcore, rfl⟩)
      intro device₁
      rw [ensures_bind]
      apply ensures_cudaCheck _ (fun device' => ⟨hfail table device' hcore, rfl⟩)
      intro device₂
      rw [ensures_bind]
      apply ensures_cudaCheck _ (fun device' => ⟨hfail table device' hcore, rfl⟩)
      intro device₃
      rw [ensures_bind]
      refine ensures_synchronize himpl hquarantine ?_ ?_ ?_
      · intro device₄
        have hcore' := hcore.perm hsplit.symm
        rw [if_neg (by simp), ensures_bind]
        apply (ensures_releaseAll hcore').mono
        · rintro _ _ rfl
          have hfinal := hcore'.release hclear
          have hunwiped : Unwiped m.faulted table (scatter (compactionMoves impl)
              (List.replicate impl.pendingCompactionBatchSize.toNat blankState)) := by
            intro hfaulted state hmem
            have hdistinct := hcore'.batch.distinct
            rw [slotsOf, List.map_append, List.nodup_append'] at hdistinct
            rw [htouches.wiped _ (hdistinct.2.2 (List.mem_map_of_mem hmem))]
            exact unwiped hfaulted state (hsplit.mem_iff.1 (List.mem_append_left _ hmem))
          rw [ensures_bind, onImpl, ensures_modify, ensures_bind]
          apply ensures_cudaCheck
          · intro device₅
            show Ensures (if impl.pendingCompactionBatchSize = 0 then
              onImpl (fun impl => { impl with phase := .kFinishing }) >>=
                fun _ => pure SwaKVCacheStatus.kOk else pure SwaKVCacheStatus.kOk) _ _ _
            rw [ensures_ite]
            constructor
            · intro _
              rw [ensures_bind, onImpl, ensures_modify, ensures_pure]
              exact Inv.live _ rfl hquarantine hactive hfinal hunwiped
                (Live.settled (by simp) (by simp))
            · intro _
              rw [ensures_pure]
              exact Inv.live _ rfl hquarantine hactive hfinal hunwiped
                (Live.settled (by simp [hphase.1]) (by simp))
          · intro device₅
            refine ⟨Inv.live _ rfl hquarantine hactive hfinal (fun hf => by cases hf) ?_, rfl⟩
            exact Live.settled (by simp [hphase.1]) (by simp)
        · exact fun _ _ h => h
      · intro device₄
        rw [if_pos (by simp), ensures_pure]
        exact Inv.quarantined impl rfl rfl hactive hcore fun hf => by cases hf
      · exact fun device₄ => ⟨hfail table device₄ hcore, rfl⟩
    · rintro e _ ⟨he, table, device, hcore, rfl⟩
      exact ⟨hfail table device hcore, he⟩
  · exact fun _ => ⟨hinv, rfl⟩

/-! ## Whole runs -/

theorem preserves_call (op : Op) : Preserves g (call g op) := by
  cases op with
  | beginRequest residents stream => exact preserves_beginRequest residents stream
  | preparePrefill inputLengths => exact preserves_preparePrefill inputLengths
  | completePrefill => exact preserves_completePrefill
  | prepareDecodeStep => exact preserves_prepareDecodeStep
  | completeDecodeStep => exact preserves_completeDecodeStep
  | beginBatchCompaction oldToNew newBatchSize =>
    exact preserves_beginBatchCompaction oldToNew newBatchSize
  | compactBatch => exact preserves_compactBatch
  | finish => exact preserves_finish
  | abandon =>
    intro m hinv
    rw [call, ensures_bind]
    apply (preserves_abandon m hinv).mono
    · intro _ m' h
      rw [ensures_pure]
      exact h
    · exact fun _ _ h => h
  | shutdown => exact preserves_shutdown

/-- One step from a state of the invariant: it keeps the invariant whichever way
it ends, and raises no internal assertion. -/
theorem step_inv (h : Inv g m) (op : Op) (device : List DeviceOutcome) :
    Inv g (step g op device m).2 ∧ ∀ e, (step g op device m).1 = .error e → e.internal = false := by
  have hstart : Inv g { m with device := device } := h.device device m.faulted id
  have hstep : Ensures (call g op) (fun _ m' => Inv g m')
    (fun e m' => Inv g m' ∧ e.internal = false) { m with device := device } :=
    preserves_call op _ hstart
  rw [step]
  unfold Ensures at hstep
  cases hout : call g op { m with device := device } with
  | mk result m' =>
    rw [hout] at hstep
    cases result with
    | ok status => exact ⟨hstep, fun e he => by cases he⟩
    | error e =>
      refine ⟨hstep.1, ?_⟩
      intro e' he
      cases he
      exact hstep.2

theorem initial_inv : Inv g (initial g) := by
  refine Inv.idle rfl rfl rfl ⟨?_, ⟨?_, List.nodup_nil⟩, ?_⟩
  · rw [List.flatMap_nil, List.append_nil]
    exact List.Perm.refl _
  · intro state hmem
    cases hmem
  · intro slot _
    exact SparseRow.within_empty []

theorem run_inv (ops : List (Op × List DeviceOutcome)) :
    ∀ m : SwaPageManager, Inv g m → Inv g (run g ops m) := by
  induction ops with
  | nil => exact fun m h => h
  | cons op rest ih =>
    intro m h
    exact ih _ (step_inv h op.1 op.2).1

/-- Over every run from construction, failed operations and device failures
included: the free pages and the pages of the held sequences are the pool, each
page once; every held sequence leases its complete reservation; its row maps
pages of its own bindings only, and exactly its bindings unless the row was
cleared; rows of held sequences are cleared only once a device call of their
request has failed; and no operation can raise an internal assertion next. -/
theorem run_conserved (g : SwaGeometry) (ops : List (Op × List DeviceOutcome)) :
    let m := run g ops (initial g)
    m.freePages ++ m.held.flatMap SwaKVCacheState.leased ~ List.range g.numPages ∧
      (∀ state ∈ m.held,
        state.leased.length = g.privatePagesPerSequence ∧
        (m.table.rows state.resident.slot).Within state.mapped ∧
        (state.resident.slot ∉ m.table.wiped →
          (m.table.rows state.resident.slot).Shows state.mapped) ∧
        (m.faulted = false → state.resident.slot ∉ m.table.wiped)) ∧
      ∀ op device e, (step g op device m).1 = .error e → e.internal = false := by
  intro m
  have hinv : Inv g m := run_inv ops (initial g) initial_inv
  have hcore := hinv.held_core
  refine ⟨hcore.conserved, ?_, ?_⟩
  · intro state hmem
    have hsound := hcore.batch.sound state hmem
    refine ⟨hsound.reservation, hsound.within, ?_, ?_⟩
    · exact fun hkept => ⟨hsound.within, hsound.covers hkept⟩
    · exact fun hfaulted => hinv.held_unwiped hfaulted state hmem
  · intro op device e he
    exact (step_inv hinv op device).2 e he

/-- Pages of one token, a window of one, and the five pages of one sequence. -/
def narrow : SwaGeometry where
  pageSize := 1
  windowSize := 1
  maxBatchSize := 1
  maxPagesPerSeq := 2
  numPages := 5
  stream := 0
  pageSize_pos := Nat.one_pos
  windowSize_pos := Nat.one_pos
  privatePages_le := by decide
  pool_reserves := by decide

/-- One sequence prefills a token and is then dropped by a compaction whose
synchronization fails: its row is cleared before its pages can be released. -/
def failedCompaction : List (Op × List DeviceOutcome) :=
  [(.beginRequest [⟨0, 0⟩] 0, []), (.preparePrefill [1], []), (.completePrefill, []),
    (.beginBatchCompaction [-1] 0, []),
    (.compactBatch, [.success, .success, .success, .success, .failure])]

/-- The quarantined sequence still owns a binding that its row does not map. -/
theorem failedCompaction_row :
    ¬ ∀ state ∈ (run narrow failedCompaction (initial narrow)).held,
      ((run narrow failedCompaction (initial narrow)).table.rows state.resident.slot).Shows
        state.mapped := by
  intro hshows
  have hunmapped : ∃ state ∈ (run narrow failedCompaction (initial narrow)).held,
      ∃ binding ∈ state.mapped,
        ((run narrow failedCompaction (initial narrow)).table.rows state.resident.slot).entry
          binding.logicalPage = none := by
    decide
  obtain ⟨state, hmem, binding, hbinding, hnone⟩ := hunmapped
  have hcovers := (hshows state hmem).2 binding hbinding
  rw [hnone] at hcovers
  cases hcovers

end SwaPageManager

end EdgeLLM.Ports.BoundedSwa
