import EdgeLLM.Ports.SwaAdvance
import EdgeLLM.Ports.SwaPageTable

/-!
# A sequence and its table row

The transitions of one sequence that touch its table row: binding the pages an
advance drew and retiring the pages it staged.  `eachState` is the loop of the
manager over the sequences of a request.
-/

namespace EdgeLLM.Ports.BoundedSwa

open Verified Checked
open scoped List

/-- One sequence together with the table. -/
structure SlotFrame where
  state : SwaKVCacheState
  table : SwaPageTable

namespace SlotFrame

def onTable (f : SwaPageTable → Except SwaCheck SwaPageTable) : Checked SwaCheck SlotFrame Unit :=
  Checked.zoom SlotFrame.table (fun table frame => { frame with table := table })
    (Checked.mutate f)

def onState (f : SwaKVCacheState → SwaKVCacheState) : Checked SwaCheck SlotFrame Unit :=
  Checked.modify fun frame => { frame with state := f frame.state }

end SlotFrame

def bindNewPages (g : SwaGeometry) (slot : Int) : Checked SwaCheck SlotFrame Unit := do
  let newPageBindings ← Checked.read fun frame => frame.state.newPageBindings
  forEach
    (fun binding => SlotFrame.onTable
      fun table => table.setEntry g slot binding.logicalPage binding.page)
    newPageBindings

/-- The clearing loop of `retire`: each staged page leaves the row and returns
to the reserve. -/
def returnStaged (g : SwaGeometry) (slot : Int) (binding : SwaPageBinding) :
    Checked SwaCheck SlotFrame Unit := do
  SlotFrame.onTable fun table => table.clearEntry g slot binding.logicalPage
  SlotFrame.onState fun state =>
    { state with reservedPages := state.reservedPages ++ [binding.page] }

def retire (g : SwaGeometry) (slot : Int) : Checked SwaCheck SlotFrame Unit := do
  let state ← Checked.read SlotFrame.state
  Checked.check (state.pendingEndpoint ≠ none) .noPreparedAdvance
  let leasedPageCount := state.pageBindings.length + state.reservedPages.length +
    state.pendingRetireBindings.length
  Checked.check (leasedPageCount = g.privatePagesPerSequence) .incompleteReservation
  forEach (returnStaged g slot) state.pendingRetireBindings
  SlotFrame.onState fun state =>
    { state with
      exactResidentTokenCount := state.endpoint
      newPageBindings := []
      pendingRetireBindings := []
      pendingEndpoint := none }
  let reserved ← Checked.read fun frame => frame.state.reservedPages.length
  Checked.check (kSwaReplacementPages ≤ reserved) .replacementNotRestored

/-- The body both prepare loops share: advance, and bind what was drawn.
`false` is `advance` returning false. -/
def advanceAndBind (g : SwaGeometry) (slot : Int) (newExactResidentTokenCount : Nat) :
    Checked SwaCheck SlotFrame Bool := do
  let state ← Checked.read SlotFrame.state
  match ← ofExcept (advance g state newExactResidentTokenCount) with
  | none => pure false
  | some next => do
      SlotFrame.onState fun _ => next
      bindNewPages g slot
      pure true

/-! ## The invariant of one sequence -/

/-- One sequence and its row between calls: the sequence is well formed, leases
its complete reservation, and its row maps none but its own bindings — and all
of them, unless the row was wiped. -/
structure SlotSound (g : SwaGeometry) (state : SwaKVCacheState) (table : SwaPageTable) : Prop where
  wf : state.Wf g
  reservation : state.leased.length = g.privatePagesPerSequence
  nodup : state.leased.Nodup
  inPool : ∀ page ∈ state.leased, page < g.numPages
  slot : 0 ≤ state.resident.slot ∧ state.resident.slot < g.maxBatchSize
  within : (table.rows state.resident.slot).Within state.mapped
  covers : state.resident.slot ∉ table.wiped →
    (table.rows state.resident.slot).Covers state.mapped

/-- A transition of one sequence keeps its identity and its pages. -/
structure Kept (state state' : SwaKVCacheState) : Prop where
  resident : state'.resident = state.resident
  leased : state'.leased ~ state.leased

theorem Kept.refl (state : SwaKVCacheState) : Kept state state := ⟨rfl, List.Perm.refl _⟩

theorem Kept.trans {state state' state'' : SwaKVCacheState} (h : Kept state state')
    (h' : Kept state' state'') : Kept state state'' :=
  ⟨h'.resident.trans h.resident, h'.leased.trans h.leased⟩

/-- The result of a transition of one sequence. -/
structure SlotKept (g : SwaGeometry) (frame frame' : SlotFrame) : Prop where
  kept : Kept frame.state frame'.state
  sound : SlotSound g frame'.state frame'.table
  touches : SwaPageTable.Touches [frame.state.resident.slot] frame.table frame'.table

section SlotSound

variable {g : SwaGeometry} {state : SwaKVCacheState} {table table' : SwaPageTable}

theorem SlotKept.refl {frame : SlotFrame} (h : SlotSound g frame.state frame.table) :
    SlotKept g frame frame :=
  ⟨Kept.refl _, h, SwaPageTable.Touches.refl _ _⟩

theorem SlotKept.trans {frame frame' frame'' : SlotFrame} (h : SlotKept g frame frame')
    (h' : SlotKept g frame' frame'') : SlotKept g frame frame'' where
  kept := h.kept.trans h'.kept
  sound := h'.sound
  touches := by
    have htouches := h'.touches
    rw [h.kept.resident] at htouches
    exact h.touches.trans htouches

/-- The invariant of a sequence does not look at other rows. -/
theorem SlotSound.frame (h : SlotSound g state table) {slots : List Int}
    (htouches : SwaPageTable.Touches slots table table')
    (hslot : state.resident.slot ∉ slots) : SlotSound g state table' where
  wf := h.wf
  reservation := h.reservation
  nodup := h.nodup
  inPool := h.inPool
  slot := h.slot
  within := by rw [htouches.rows _ hslot]; exact h.within
  covers := by
    rw [htouches.rows _ hslot, htouches.wiped _ hslot]
    exact h.covers

/-- A settled sequence has its replacement page in reserve. -/
theorem SlotSound.reserved_ne_nil (h : SlotSound g state table)
    (hpending : state.pendingEndpoint = none) : state.reservedPages ≠ [] := by
  have hbound := h.wf.two_mul_length_lt
  have hlen := h.reservation
  rw [state.length_leased, (h.wf.settled hpending).2, List.length_nil] at hlen
  intro hnil
  rw [hnil, List.length_nil] at hlen
  simp only [kSwaReplacementPages] at hbound
  omega

theorem SlotSound.wipe (h : SlotSound g state table) :
    SlotSound g state (table.wipe state.resident.slot) where
  wf := h.wf
  reservation := h.reservation
  nodup := h.nodup
  inPool := h.inPool
  slot := h.slot
  within := by
    rw [SwaPageTable.wipe_same]
    exact SparseRow.within_empty _
  covers := by
    intro hwiped
    have hactive := SwaPageTable.active_of_not_mem_wipe hwiped
    have hkept : state.resident.slot ∉ table.wiped := fun hmem =>
      hwiped ((table.touches_wipe state.resident.slot).wiped_mono hmem)
    intro binding hmem
    have hentry := h.covers hkept binding hmem
    have hlive := ((table.rows state.resident.slot).mem_active binding.page).2 ⟨_, hentry⟩
    rw [hactive] at hlive
    cases hlive

/-! ## Binding and retiring -/

theorem ensures_onTable {f : SwaPageTable → Except SwaCheck SwaPageTable} {frame : SlotFrame}
    {ok : Unit → SlotFrame → Prop} {bad : SwaCheck → SlotFrame → Prop} :
    Ensures (SlotFrame.onTable f) ok bad frame ↔
      Outcome (f frame.table) (fun table => ok ⟨⟩ { frame with table := table })
        (fun e => bad e frame) := by
  rw [SlotFrame.onTable, ensures_zoom, ensures_mutate]

theorem ensures_onState {f : SwaKVCacheState → SwaKVCacheState} {frame : SlotFrame}
    {ok : Unit → SlotFrame → Prop} {bad : SwaCheck → SlotFrame → Prop} :
    Ensures (SlotFrame.onState f) ok bad frame ↔
      ok ⟨⟩ { frame with state := f frame.state } := ensures_modify

/-- An element of a list without repetition is not among the ones before it. -/
theorem not_mem_map_of_nodup {α β : Type} {f : α → β} {xs ys : List α} {x : α}
    (hnodup : ((xs ++ x :: ys).map f).Nodup) : f x ∉ xs.map f := by
  rw [List.map_append, List.map_cons, List.nodup_middle, List.nodup_cons, List.mem_append] at hnodup
  exact fun hmem => hnodup.1 (Or.inl hmem)

/-- Binding the new pages of a sequence whose row still shows the old ones. -/
theorem bindNewPages_spec (frame : SlotFrame) {old : List SwaPageBinding}
    (hwf : frame.state.Wf g) (hreservation : frame.state.leased.length = g.privatePagesPerSequence)
    (hnodup : frame.state.leased.Nodup) (hpool : ∀ page ∈ frame.state.leased, page < g.numPages)
    (hslot : 0 ≤ frame.state.resident.slot ∧ frame.state.resident.slot < g.maxBatchSize)
    (hmapped : frame.state.mapped ~ old ++ frame.state.newPageBindings)
    (hwithin : (frame.table.rows frame.state.resident.slot).Within old)
    (hcovers : frame.state.resident.slot ∉ frame.table.wiped →
      (frame.table.rows frame.state.resident.slot).Covers old) :
    Ensures (bindNewPages g frame.state.resident.slot)
      (fun _ frame' => frame'.state = frame.state ∧ SlotSound g frame.state frame'.table ∧
        SwaPageTable.Touches [frame.state.resident.slot] frame.table frame'.table ∧
        frame'.table.wiped = frame.table.wiped) (fun _ _ => False) frame := by
  -- the bindings of the sequence use every logical and every physical page once
  have hpages : ((old ++ frame.state.newPageBindings).map SwaPageBinding.page).Nodup := by
    have hleased := (frame.state.leased_perm.nodup_iff).1 hnodup
    rw [List.nodup_append'] at hleased
    exact ((hmapped.map _).nodup_iff).1 hleased.1
  have hlogicals : ((old ++ frame.state.newPageBindings).map SwaPageBinding.logicalPage).Nodup :=
    ((hmapped.map _).nodup_iff).1 hwf.mapped_nodup
  rw [bindNewPages, ensures_bind, ensures_read]
  let inv : List SwaPageBinding → SlotFrame → Prop := fun rest frame' =>
    frame'.state = frame.state ∧
      SwaPageTable.Touches [frame.state.resident.slot] frame.table frame'.table ∧
      frame'.table.wiped = frame.table.wiped ∧ ∃ done, done ++ rest = frame.state.newPageBindings ∧
        (frame'.table.rows frame.state.resident.slot).Within (old ++ done) ∧
        (frame.state.resident.slot ∉ frame.table.wiped →
          (frame'.table.rows frame.state.resident.slot).Covers (old ++ done))
  have hstep : ∀ binding rest frame', inv (binding :: rest) frame' →
      Ensures (SlotFrame.onTable fun table =>
          table.setEntry g frame.state.resident.slot binding.logicalPage binding.page)
        (fun _ frame'' => inv rest frame'') (fun _ _ => False) frame' := by
    rintro binding rest frame' ⟨hstate, htouches, hwiped, done, hdone, hrow, hfull⟩
    have hmem : binding ∈ frame.state.newPageBindings := by
      rw [← hdone]
      exact List.mem_append_right _ (List.mem_cons_self ..)
    have hbound : binding ∈ frame.state.mapped :=
      hmapped.mem_iff.2 (List.mem_append_right _ hmem)
    have hsplit : old ++ frame.state.newPageBindings = (old ++ done) ++ binding :: rest := by
      rw [← hdone, List.append_assoc]
    have hpage : binding.page ∉ (old ++ done).map SwaPageBinding.page :=
      not_mem_map_of_nodup (hsplit ▸ hpages)
    have hlogical : binding.logicalPage ∉ (old ++ done).map SwaPageBinding.logicalPage :=
      not_mem_map_of_nodup (hsplit ▸ hlogicals)
    have hinpool : binding.page < g.numPages := by
      apply hpool
      rw [frame.state.leased_perm.mem_iff, List.mem_append]
      exact Or.inl (List.mem_map_of_mem hbound)
    rw [ensures_onTable, SwaPageTable.setEntry_eq hslot (hwf.mapped_lt hbound) hinpool
      (hrow.not_mem_active hpage), outcome_ok]
    refine ⟨hstate, htouches.trans (SwaPageTable.touches_setRow _ _ _), hwiped,
      done ++ [binding], by rw [List.append_assoc]; exact hdone, ?_, ?_⟩
    · rw [SwaPageTable.setRow_same, ← List.append_assoc]
      exact hrow.set _
    · intro hkept
      rw [SwaPageTable.setRow_same, ← List.append_assoc]
      exact (hfull hkept).set _ hlogical
  have hinit : inv frame.state.newPageBindings frame :=
    ⟨rfl, SwaPageTable.Touches.refl _ _, rfl, [], rfl, by rwa [List.append_nil],
      by rwa [List.append_nil]⟩
  refine (Ensures.forEach inv hstep _ frame hinit).mono ?_ (fun _ _ h => h)
  rintro _ frame' ⟨hstate, htouches, hwiped, done, hdone, hrow, hfull⟩
  rw [List.append_nil] at hdone
  refine ⟨hstate, ?_, htouches, hwiped⟩
  exact
    { wf := hwf
      reservation := hreservation
      nodup := hnodup
      inPool := hpool
      slot := hslot
      within := by
        apply hrow.mono
        intro binding hmem
        exact hmapped.mem_iff.2 (hdone ▸ hmem)
      covers := by
        intro hkept
        apply (hfull (hwiped ▸ hkept)).mono
        intro binding hmem
        rw [hdone]
        exact hmapped.mem_iff.1 hmem }

theorem advanceAndBind_of_advance (frame : SlotFrame) {newExactResidentTokenCount : Nat}
    {state' : SwaKVCacheState} (h : SlotSound g frame.state frame.table)
    (hadvance : advance g frame.state newExactResidentTokenCount = .ok (some state'))
    (hadvanced : SwaKVCacheState.Advanced g newExactResidentTokenCount frame.state state') :
    Ensures (advanceAndBind g frame.state.resident.slot newExactResidentTokenCount)
      (fun bound frame' => bound = true ∧ frame'.state = state' ∧ SlotKept g frame frame' ∧
        frame'.table.wiped = frame.table.wiped) (fun _ _ => False) frame := by
  have hleased := hadvanced.leased
  have hslot := congrArg ResidentRef.slot hadvanced.resident
  rw [advanceAndBind, ensures_bind, ensures_read, ensures_bind,
    ensures_ofExcept, hadvance, outcome_ok]
  simp only
  rw [ensures_bind, ensures_onState, ensures_bind, ← hslot]
  apply (bindNewPages_spec ⟨state', frame.table⟩ hadvanced.wf
    (hleased.length_eq.trans h.reservation) (hleased.nodup_iff.2 h.nodup)
    (fun page hpage => h.inPool page (hleased.mem_iff.1 hpage))
    (hslot ▸ h.slot) hadvanced.mapped (hslot ▸ h.within) (hslot ▸ h.covers)).mono
  · rintro _ frame' ⟨hstate, hsound, htouches, hwiped⟩
    rw [ensures_pure]
    refine ⟨rfl, hstate, ⟨⟨?_, ?_⟩, ?_, ?_⟩, hwiped⟩
    · rw [hstate]
      exact hadvanced.resident
    · rw [hstate]
      exact hleased
    · rw [hstate]
      exact hsound
    · rw [← hslot]
      exact htouches
  · intro e frame' hfalse
    exact hfalse.elim

/-- Advancing and binding keeps a sequence sound; a refusal or a throw of
`advance` leaves it as it is. -/
theorem advanceAndBind_spec (frame : SlotFrame) {newExactResidentTokenCount : Nat}
    (h : SlotSound g frame.state frame.table) :
    Ensures (advanceAndBind g frame.state.resident.slot newExactResidentTokenCount)
      (fun bound frame' => SlotKept g frame frame' ∧ frame'.table.wiped = frame.table.wiped ∧
        (bound = false → advance g frame.state newExactResidentTokenCount = .ok none))
      (fun e frame' => frame' = frame ∧ e.internal = false ∧
        advance g frame.state newExactResidentTokenCount = .error e) frame := by
  have houtcome := SwaKVCacheState.advance_outcome
    newExactResidentTokenCount h.wf h.reserved_ne_nil
  cases hadvance : advance g frame.state newExactResidentTokenCount with
  | error e =>
    rw [hadvance, outcome_error] at houtcome
    rw [advanceAndBind, ensures_bind, ensures_read, ensures_bind,
      ensures_ofExcept, hadvance, outcome_error]
    refine ⟨rfl, ?_, rfl⟩
    rcases houtcome with hpending | hback
    · rw [hpending.1]; rfl
    · rw [hback.1]; rfl
  | ok next =>
    rw [hadvance, outcome_ok] at houtcome
    cases next with
    | none =>
      rw [advanceAndBind, ensures_bind, ensures_read, ensures_bind,
        ensures_ofExcept, hadvance, outcome_ok]
      exact ⟨SlotKept.refl h, rfl, fun _ => rfl⟩
    | some state' =>
      apply (advanceAndBind_of_advance frame h hadvance (houtcome.2 state' rfl)).mono
      · intro bound frame' hbound
        refine ⟨hbound.2.2.1, hbound.2.2.2, ?_⟩
        intro hfalse
        rw [hbound.1] at hfalse
        cases hfalse
      · intro e frame' hfalse
        exact hfalse.elim

/-- The state `retire` leaves behind. -/
def SwaKVCacheState.retired (state : SwaKVCacheState) : SwaKVCacheState :=
  { state with
    exactResidentTokenCount := state.endpoint
    reservedPages :=
      state.reservedPages ++ state.pendingRetireBindings.map SwaPageBinding.page
    newPageBindings := []
    pendingRetireBindings := []
    pendingEndpoint := none }

theorem SwaKVCacheState.Wf.retired {state : SwaKVCacheState} (h : state.Wf g) :
    state.retired.Wf g where
  window := h.window
  logical := h.logical
  width := h.width
  forward := Nat.le_refl _
  staged := by simp [SwaKVCacheState.retired]
  staged_nodup := List.nodup_nil
  settled := fun _ => ⟨rfl, rfl⟩

theorem SwaKVCacheState.retired_leased (state : SwaKVCacheState) :
    state.retired.leased = state.leased := by
  simp [SwaKVCacheState.retired, SwaKVCacheState.leased]

/-- Retiring a prepared sequence returns its staged pages to the reserve; the
only assertion it can raise is that nothing was prepared. -/
theorem retire_state {frame : SlotFrame} (h : SlotSound g frame.state frame.table) :
    Ensures (retire g frame.state.resident.slot)
      (fun _ frame' => frame'.state = frame.state.retired ∧ SlotKept g frame frame' ∧
        frame'.table.wiped = frame.table.wiped)
      (fun e frame' => frame.state.pendingEndpoint = none ∧ frame' = frame ∧
        e.internal = false) frame := by
  rw [retire, ensures_bind, ensures_read, ensures_bind, ensures_check]
  constructor
  · intro hpending
    rw [ensures_bind, ensures_check]
    have hcount := h.reservation
    rw [SwaKVCacheState.length_leased] at hcount
    constructor
    · intro _
      let inv : List SwaPageBinding → SlotFrame → Prop := fun rest frame' =>
        SwaPageTable.Touches [frame.state.resident.slot] frame.table frame'.table ∧
          frame'.table.wiped = frame.table.wiped ∧
          ∃ done, done ++ rest = frame.state.pendingRetireBindings ∧
            frame'.state = { frame.state with
              reservedPages := frame.state.reservedPages ++ done.map SwaPageBinding.page } ∧
            (frame'.table.rows frame.state.resident.slot).Within
              (frame.state.pageBindings ++ rest) ∧ (frame.state.resident.slot ∉ frame.table.wiped →
              (frame'.table.rows frame.state.resident.slot).Covers
                (frame.state.pageBindings ++ rest))
      have hstep : ∀ binding rest frame', inv (binding :: rest) frame' →
          Ensures (returnStaged g frame.state.resident.slot binding)
            (fun _ frame'' => inv rest frame'')
            (fun e frame'' => frame.state.pendingEndpoint = none ∧ frame'' = frame ∧
              e.internal = false) frame' := by
        rintro binding rest frame' ⟨htouches, hwiped, done, hdone, hstate, hrow, hfull⟩
        have hbound : binding ∈ frame.state.mapped := by
          rw [SwaKVCacheState.mapped, ← hdone]
          simp
        have hsub : (frame.state.pageBindings ++ binding :: rest).Sublist frame.state.mapped := by
          rw [SwaKVCacheState.mapped, ← hdone]
          exact (List.sublist_append_right done _).append_left _
        have hlogicals := h.wf.mapped_nodup.sublist (hsub.map SwaPageBinding.logicalPage)
        rw [returnStaged, ensures_bind, ensures_onTable,
          SwaPageTable.clearEntry_eq h.slot (h.wf.mapped_lt hbound), outcome_ok, ensures_onState]
        refine ⟨htouches.trans (SwaPageTable.touches_setRow _ _ _), hwiped, done ++ [binding],
          ?_, ?_, ?_, ?_⟩
        · rw [List.append_assoc]
          exact hdone
        · simp [hstate]
        · rw [SwaPageTable.setRow_same]
          exact hrow.clear
        · intro hkept
          rw [SwaPageTable.setRow_same]
          exact (hfull hkept).clear hlogicals
      have hinit : inv frame.state.pendingRetireBindings frame :=
        ⟨SwaPageTable.Touches.refl _ _, rfl, [], rfl, by simp, h.within, h.covers⟩
      rw [ensures_bind]
      refine (Ensures.forEach inv hstep _ frame hinit).mono ?_ (fun _ _ hbad => hbad)
      rintro _ frame' ⟨htouches, hwiped, done, hdone, hstate, hrow, hfull⟩
      rw [List.append_nil] at hdone hrow hfull
      have hretired : { frame'.state with
          exactResidentTokenCount := frame'.state.endpoint
          newPageBindings := []
          pendingRetireBindings := []
          pendingEndpoint := none } = frame.state.retired := by
        rw [hstate, hdone]
        rfl
      have hsound : SlotSound g frame.state.retired frame'.table :=
        { wf := h.wf.retired
          reservation := by rw [SwaKVCacheState.retired_leased]; exact h.reservation
          nodup := by rw [SwaKVCacheState.retired_leased]; exact h.nodup
          inPool := by rw [SwaKVCacheState.retired_leased]; exact h.inPool
          slot := h.slot
          within := by
            rw [SwaKVCacheState.mapped, SwaKVCacheState.retired, List.append_nil]
            exact hrow
          covers := by
            intro hkept
            rw [SwaKVCacheState.mapped, SwaKVCacheState.retired, List.append_nil]
            exact hfull (hwiped ▸ hkept) }
      have hreserve := List.length_pos_of_ne_nil (hsound.reserved_ne_nil rfl)
      rw [ensures_bind, ensures_onState, hretired, ensures_bind, ensures_read, ensures_check]
      constructor
      · intro _
        exact ⟨rfl, ⟨⟨rfl, by rw [SwaKVCacheState.retired_leased]⟩, hsound, htouches⟩, hwiped⟩
      · intro hempty
        exact (hempty hreserve).elim
    · intro hincomplete
      exact (hincomplete hcount).elim
  · intro hnone
    exact ⟨Classical.not_not.1 hnone, rfl, rfl⟩

theorem retire_spec {frame : SlotFrame} (h : SlotSound g frame.state frame.table) :
    Ensures (retire g frame.state.resident.slot)
      (fun _ frame' => SlotKept g frame frame' ∧ frame'.table.wiped = frame.table.wiped)
      (fun e frame' => frame' = frame ∧ e.internal = false) frame :=
  (retire_state h).mono (fun _ _ hkept => hkept.2) fun _ _ hbad => hbad.2

end SlotSound

/-! ## The loop over the sequences of a request -/

/-- The sequences of a request together with the table. -/
structure Batch where
  states : List SwaKVCacheState
  table : SwaPageTable

/-- `for (slot = 0; slot < states.size(); ++slot)` over `body slot`, left early
when the body returns `false`. -/
def eachStateFrom (body : Nat → Checked SwaCheck SlotFrame Bool) :
    Nat → List SwaKVCacheState → SwaPageTable → Except SwaCheck Bool × Batch
  | _, [], table => (.ok true, ⟨[], table⟩)
  | slot, state :: rest, table =>
    match body slot ⟨state, table⟩ with
    | (.error e, frame) => (.error e, ⟨frame.state :: rest, frame.table⟩)
    | (.ok false, frame) => (.ok false, ⟨frame.state :: rest, frame.table⟩)
    | (.ok true, frame) =>
      match eachStateFrom body (slot + 1) rest frame.table with
      | (result, batch) => (result, ⟨frame.state :: batch.states, batch.table⟩)

/-- `eachStateFrom` from the first sequence. -/
def eachState (body : Nat → Checked SwaCheck SlotFrame Bool) : Checked SwaCheck Batch Bool :=
  fun batch => eachStateFrom body 0 batch.states batch.table

/-- The resident slots of some sequences. -/
def slotsOf (states : List SwaKVCacheState) : List Int :=
  states.map fun state => state.resident.slot

/-- Every sequence is sound, and no two share a row. -/
structure BatchSound (g : SwaGeometry) (batch : Batch) : Prop where
  sound : ∀ state ∈ batch.states, SlotSound g state batch.table
  distinct : (slotsOf batch.states).Nodup

/-- The result of a loop over the sequences. -/
structure BatchKept (g : SwaGeometry) (batch batch' : Batch) : Prop where
  kept : List.Forall₂ Kept batch.states batch'.states
  sound : ∀ state ∈ batch'.states, SlotSound g state batch'.table
  touches : SwaPageTable.Touches (slotsOf batch.states) batch.table batch'.table

theorem slotsOf_kept {states states' : List SwaKVCacheState}
    (h : List.Forall₂ Kept states states') : slotsOf states' = slotsOf states := by
  induction h with
  | nil => rfl
  | cons hhead _ ih =>
    simp only [slotsOf, List.map_cons, hhead.resident] at ih ⊢
    rw [ih]

theorem leased_kept {states states' : List SwaKVCacheState} (h : List.Forall₂ Kept states states') :
    states'.flatMap SwaKVCacheState.leased ~ states.flatMap SwaKVCacheState.leased := by
  induction h with
  | nil => exact List.Perm.refl _
  | cons hhead _ ih =>
    rw [List.flatMap_cons, List.flatMap_cons]
    exact hhead.leased.append ih

theorem BatchSound.of_kept {g : SwaGeometry} {batch batch' : Batch} (h : BatchSound g batch)
    (hkept : BatchKept g batch batch') : BatchSound g batch' :=
  ⟨hkept.sound, by rw [slotsOf_kept hkept.kept]; exact h.distinct⟩

section Loop

variable {g : SwaGeometry} {body : Nat → Checked SwaCheck SlotFrame Bool}
variable {pre : SwaKVCacheState → Prop} {same : Prop} {good : Bool → Prop} {bad : SwaCheck → Prop}

/-- A loop step composed with the rest of the loop. -/
theorem BatchSound.cons {state : SwaKVCacheState} {rest : List SwaKVCacheState}
    {table : SwaPageTable} {frame : SlotFrame} {batch : Batch}
    (hsound : BatchSound g ⟨state :: rest, table⟩) (hhead : SlotKept g ⟨state, table⟩ frame)
    (htail : BatchKept g ⟨rest, frame.table⟩ batch) :
    BatchKept g ⟨state :: rest, table⟩ ⟨frame.state :: batch.states, batch.table⟩ where
  kept := List.Forall₂.cons hhead.kept htail.kept
  sound := by
    intro other hmem
    rcases List.mem_cons.1 hmem with heq | hrest
    · have hdistinct := hsound.distinct
      rw [slotsOf, List.map_cons, List.nodup_cons] at hdistinct
      rw [heq]
      apply hhead.sound.frame htail.touches
      rw [hhead.kept.resident]
      exact hdistinct.1
    · exact htail.sound other hrest
  touches := by
    have hfirst : [state.resident.slot] ⊆ slotsOf (state :: rest) := by
      intro slot hmem
      rw [List.mem_singleton.1 hmem]
      exact List.mem_cons_self ..
    have hothers : slotsOf rest ⊆ slotsOf (state :: rest) :=
      fun slot hmem => List.mem_cons_of_mem _ hmem
    exact (hhead.touches.mono hfirst).trans (htail.touches.mono hothers)

theorem BatchSound.tail {state : SwaKVCacheState} {rest : List SwaKVCacheState}
    {table : SwaPageTable} {frame : SlotFrame} (hsound : BatchSound g ⟨state :: rest, table⟩)
    (hhead : SlotKept g ⟨state, table⟩ frame) : BatchSound g ⟨rest, frame.table⟩ := by
  have hdistinct := hsound.distinct
  rw [slotsOf, List.map_cons, List.nodup_cons] at hdistinct
  constructor
  · intro other hmem
    apply (hsound.sound other (List.mem_cons_of_mem _ hmem)).frame hhead.touches
    intro hslot
    rw [List.mem_singleton] at hslot
    exact hdistinct.1 (hslot ▸ List.mem_map_of_mem hmem)
  · exact hdistinct.2

theorem BatchKept.refl {batch : Batch} (h : BatchSound g batch) : BatchKept g batch batch where
  kept := List.forall₂_same.2 fun state _ => Kept.refl state
  sound := h.sound
  touches := SwaPageTable.Touches.refl _ _

/-- Loop rule: what every body keeps of its sequence and of the wiped slots,
the loop keeps of all; `good` and `bad` bound the results of the body. -/
theorem eachStateFrom_spec
    (hbody : ∀ slot frame, pre frame.state → SlotSound g frame.state frame.table →
      Ensures (body slot) (fun next frame' => SlotKept g frame frame' ∧
          (same → frame'.table.wiped = frame.table.wiped) ∧ good next)
        (fun e frame' => SlotKept g frame frame' ∧
          (same → frame'.table.wiped = frame.table.wiped) ∧ bad e) frame)
    (hgood : good true) (slot : Nat) (batch : Batch) (hpre : ∀ state ∈ batch.states, pre state)
    (hsound : BatchSound g batch) :
    Ensures (fun batch => eachStateFrom body slot batch.states batch.table)
      (fun next batch' => BatchKept g batch batch' ∧
        (same → batch'.table.wiped = batch.table.wiped) ∧ good next)
      (fun e batch' => BatchKept g batch batch' ∧
        (same → batch'.table.wiped = batch.table.wiped) ∧ bad e) batch := by
  obtain ⟨states, table⟩ := batch
  induction states generalizing slot table with
  | nil => exact ⟨BatchKept.refl hsound, fun _ => rfl, hgood⟩
  | cons state rest ih =>
    have hhead := hbody slot ⟨state, table⟩ (hpre state (List.mem_cons_self ..))
      (hsound.sound state (List.mem_cons_self ..))
    have hlast : ∀ frame : SlotFrame, SlotKept g ⟨state, table⟩ frame →
        BatchKept g ⟨state :: rest, table⟩ ⟨frame.state :: rest, frame.table⟩ :=
      fun frame hkept => hsound.cons hkept (BatchKept.refl (hsound.tail hkept))
    unfold Ensures at hhead ⊢
    simp only [eachStateFrom]
    cases hrun : body slot ⟨state, table⟩ with
    | mk result frame =>
      rw [hrun] at hhead
      match result, hhead with
      | .error e, ⟨hkept, hwiped, hbad⟩ => exact ⟨hlast frame hkept, hwiped, hbad⟩
      | .ok false, ⟨hkept, hwiped, hnext⟩ => exact ⟨hlast frame hkept, hwiped, hnext⟩
      | .ok true, ⟨hkept, hwiped, _⟩ =>
        have htail := ih (slot + 1) frame.table
          (fun other hmem => hpre other (List.mem_cons_of_mem _ hmem)) (hsound.tail hkept)
        unfold Ensures at htail
        simp only
        cases hrest : eachStateFrom body (slot + 1) rest frame.table with
        | mk result batch =>
          simp only [hrest] at htail ⊢
          cases result with
          | error e | ok next =>
            exact ⟨hsound.cons hkept htail.1,
              fun hsame => (htail.2.1 hsame).trans (hwiped hsame), htail.2.2⟩

end Loop

end EdgeLLM.Ports.BoundedSwa
