import EdgeLLM.Ports.LeaseLedger

/-!
# What the admissions keep

The semaphore of the controller serves the requests in `reserve`, of which the
one with a live lease owns the slot, and the closer.  A release frees the slot,
or a seat of the gate, of a live lease, since the ledger lets no lease be
released twice.
-/

namespace EdgeLLM.Ports.Lease

open Verified

namespace ControllerState

/-- Who waits for the slot, and who owns it. -/
def waits (s : ControllerState) : Holder → Prop
  | .request r => (s.requests r).pc = .waiting
  | .closer => s.controller.closer = .waiting

def owns (s : ControllerState) : Holder → Prop
  | .request r => (s.requests r).live = true
  | .closer => s.controller.closer = .returned

end ControllerState

/-- What holds in every state of every run of the controller. -/
structure ControllerInvariant (maxQueued : Nat) (s : ControllerState) : Prop where
  ledger : ∀ r, (s.requests r).Ledger
  serves : s.controller.semaphore.Serves s.waits s.owns
  waiting : Counts (fun r => (s.requests r).pc = .waiting) s.controller.waiting
  active : Counts (fun r => (s.requests r).live = true) s.controller.active
  bound : s.controller.active + s.controller.waiting ≤ s.controller.maxQueued + 1
  size : s.controller.maxQueued = maxQueued

section Controller

variable {s t : ControllerState} {r maxQueued : Nat}

theorem init_controllerInvariant :
    ControllerInvariant maxQueued (ControllerState.init maxQueued) where
  ledger _ := ⟨rfl, rfl, fun _ => ⟨rfl, rfl⟩, nofun⟩
  serves := by
    apply FifoSlot.serves_free.congr
    · rintro (r | _)
      · exact ⟨nofun, nofun⟩
      · exact ⟨nofun, nofun⟩
    · rintro (r | _)
      · exact ⟨nofun, nofun⟩
      · exact ⟨nofun, nofun⟩
  waiting := counts_zero fun _ => nofun
  active := counts_zero fun _ => nofun
  bound := Nat.zero_le _
  size := rfl

theorem ControllerInvariant.arrive (h : ControllerInvariant maxQueued s) {streaming : Bool}
    (hpc : (s.requests r).pc = .arriving) :
    ControllerInvariant maxQueued (s.arrive r streaming) := by
  have hledger := h.ledger r
  have hheld : (s.requests r).pc.held = false := by rw [hpc]; rfl
  have hnot : (s.requests r).pc ≠ .waiting := by rw [hpc]; nofun
  have hlive := hledger.not_live hheld
  have hledgers : ∀ pc : Pc, pc.held = false → ∀ x, (setRequest s.requests r
      { s.requests r with streaming := streaming, pc := pc } x).Ledger :=
    fun pc hpc' => forall_set h.ledger (hledger.move hheld hpc' rfl rfl rfl rfl)
  have hlives : ∀ pc : Pc, ∀ x, (setRequest s.requests r
      { s.requests r with streaming := streaming, pc := pc } x).live = true ↔
      (s.requests x).live = true := fun pc =>
    set_same (fun q => q.live = true) s.requests r _ Iff.rfl
  unfold ControllerState.arrive
  dsimp only
  split
  · have hwaiting := set_same (fun q => q.pc = .waiting) s.requests r
      { s.requests r with streaming := streaming, pc := .refused }
      ⟨nofun, fun h => absurd h hnot⟩
    refine ⟨hledgers _ rfl, h.serves.congr ?_ ?_, h.waiting.congr hwaiting,
      h.active.congr (hlives _), h.bound, h.size⟩
    · rintro (x | _)
      · exact hwaiting x
      · exact Iff.rfl
    · rintro (x | _)
      · exact hlives _ x
      · exact Iff.rfl
  · rename_i hroom
    have hwaiting := set_gain (fun q => q.pc = .waiting) s.requests r
      { s.requests r with streaming := streaming, pc := .waiting } rfl
    refine ⟨hledgers _ rfl, ?_, h.waiting.insert hnot hwaiting, h.active.congr (hlives _), ?_,
      h.size⟩
    · refine (h.serves.acquire (k := Holder.request r) hnot hlive).congr ?_ ?_
      · rintro (x | _)
        · simpa [ControllerState.waits] using hwaiting x
        · simp [ControllerState.waits, Controller.acquire]
      · rintro (x | _)
        · exact hlives _ x
        · exact Iff.rfl
    · have hroom' := (not_or.1 hroom).2
      change s.controller.active + (s.controller.waiting + 1) ≤ s.controller.maxQueued + 1
      omega

/-- The slot is given to a request in `reserve`. -/
theorem ControllerInvariant.wake (h : ControllerInvariant maxQueued s)
    (hpc : (s.requests r).pc = .waiting)
    (hholder : s.controller.semaphore.holder = some (.request r)) :
    ControllerInvariant maxQueued (s.wake r) := by
  have hledger := h.ledger r
  have hheld : (s.requests r).pc.held = false := by rw [hpc]; rfl
  have hlive := hledger.not_live hheld
  have hbound := h.bound
  unfold ControllerState.wake
  dsimp only
  split
  · have hwaiting := set_lose (fun q => q.pc = .waiting) s.requests r
      { s.requests r with pc := .refused } nofun
    have hlives := set_same (fun q => q.live = true) s.requests r
      { s.requests r with pc := .refused } Iff.rfl
    obtain ⟨hcount, -⟩ := h.waiting.erase hpc hwaiting
    refine ⟨forall_set h.ledger (hledger.move hheld rfl rfl rfl rfl rfl), ?_, hcount,
      h.active.congr hlives, ?_, h.size⟩
    · have hserves := h.serves.giveUp (k := Holder.request r) hpc
      rw [FifoSlot.giveUp, if_pos hholder] at hserves
      refine hserves.congr ?_ ?_
      · rintro (x | _)
        · simpa [ControllerState.waits] using hwaiting x
        · simp [ControllerState.waits, Controller.releaseSlot]
      · rintro (x | _)
        · exact hlives x
        · exact Iff.rfl
    · change s.controller.active + (s.controller.waiting - 1) ≤ s.controller.maxQueued + 1
      omega
  · have hwaiting := set_lose (fun q => q.pc = .waiting) s.requests r (s.requests r).grant nofun
    have hlives := set_gain (fun q => q.live = true) s.requests r (s.requests r).grant
      (hledger.grant_live hheld)
    obtain ⟨hcount, hpos⟩ := h.waiting.erase hpc hwaiting
    -- nobody else has a live lease
    have hnone : ∀ x, ¬(s.requests x).live = true := by
      intro x hx
      have hsame := h.serves.owner (.request x) hx
      rw [hholder] at hsame
      obtain rfl := Holder.request.inj (Option.some.inj hsame)
      exact hlive hx
    refine ⟨forall_set h.ledger hledger.grant, ?_, hcount,
      (counts_zero hnone).insert hlive hlives, ?_, h.size⟩
    · refine (h.serves.take hholder).congr ?_ ?_
      · rintro (x | _)
        · simpa [ControllerState.waits] using hwaiting x
        · simp [ControllerState.waits]
      · rintro (x | _)
        · simpa [ControllerState.owns] using hlives x
        · simp [ControllerState.owns]
    · change 1 + (s.controller.waiting - 1) ≤ s.controller.maxQueued + 1
      omega

theorem ControllerInvariant.giveUp (h : ControllerInvariant maxQueued s)
    (hpc : (s.requests r).pc = .waiting) :
    ControllerInvariant maxQueued
      { requests := setRequest s.requests r { s.requests r with pc := .refused }
        controller := { s.controller with waiting := s.controller.waiting - 1 }.giveUp
          (.request r) } := by
  have hledger := h.ledger r
  have hheld : (s.requests r).pc.held = false := by rw [hpc]; rfl
  have hbound := h.bound
  have hwaiting := set_lose (fun q => q.pc = .waiting) s.requests r
    { s.requests r with pc := .refused } nofun
  have hlives := set_same (fun q => q.live = true) s.requests r
    { s.requests r with pc := .refused } Iff.rfl
  refine ⟨forall_set h.ledger (hledger.move hheld rfl rfl rfl rfl rfl), ?_,
    (h.waiting.erase hpc hwaiting).1, h.active.congr hlives, ?_, h.size⟩
  · refine (h.serves.giveUp (k := Holder.request r) hpc).congr ?_ ?_
    · rintro (x | _)
      · simpa [ControllerState.waits] using hwaiting x
      · simp [ControllerState.waits, Controller.giveUp]
    · rintro (x | _)
      · exact hlives x
      · exact Iff.rfl
  · change s.controller.active + (s.controller.waiting - 1) ≤ s.controller.maxQueued + 1
    omega

/-- A step of a request with a lease; a release frees the slot. -/
theorem ControllerInvariant.request (h : ControllerInvariant maxQueued s) {event : Event}
    {q : Request} (hstep : requestStep (s.requests r) event = some q) :
    ControllerInvariant maxQueued
      { requests := setRequest s.requests r q
        controller := if (s.requests r).releases < q.releases then s.controller.release
          else s.controller } := by
  have hledger := h.ledger r
  have hs := requestStep_step hledger hstep
  have hledgers := forall_set (r := r) h.ledger (hledger.step hstep)
  have hwaiting := set_same (fun q => q.pc = .waiting) s.requests r q
    ⟨fun hpc => absurd hpc hs.not_waiting.2, fun hpc => absurd hpc hs.not_waiting.1⟩
  obtain ⟨hcount, hlive⟩ | ⟨hcount, hlive, hlive'⟩ := hs.live hledger
  · have hlives := set_same (fun q => q.live = true) s.requests r q (by rw [hlive])
    rw [if_neg (by omega)]
    refine ⟨hledgers, h.serves.congr ?_ ?_, h.waiting.congr hwaiting, h.active.congr hlives,
      h.bound, h.size⟩
    · rintro (x | _)
      · exact hwaiting x
      · exact Iff.rfl
    · rintro (x | _)
      · exact hlives x
      · exact Iff.rfl
  · have hlives := set_lose (fun q => q.live = true) s.requests r q hlive'
    rw [if_pos hcount]
    refine ⟨hledgers, ?_, h.waiting.congr hwaiting, ?_, ?_, h.size⟩
    · refine (h.serves.release (k := Holder.request r) hlive).congr ?_ ?_
      · rintro (x | _)
        · exact hwaiting x
        · exact Iff.rfl
      · rintro (x | _)
        · simpa [ControllerState.owns] using hlives x
        · simp [ControllerState.owns, Controller.release, Controller.releaseSlot]
    · apply counts_zero
      intro x hx
      obtain ⟨hx, hne⟩ := (hlives x).1 hx
      have hsame := (h.serves.owner (.request x) hx).symm.trans (h.serves.owner (.request r) hlive)
      exact hne (Holder.request.inj (Option.some.inj hsame))
    · have hbound := h.bound
      change 0 + s.controller.waiting ≤ s.controller.maxQueued + 1
      omega

/-- `close` is called, or called again after a cancellation. -/
theorem ControllerInvariant.close (h : ControllerInvariant maxQueued s)
    (hcloser : s.controller.closer = .idle) :
    ControllerInvariant maxQueued
      { s with controller :=
          { s.controller with isClosing := true, closer := .waiting }.acquire .closer } := by
  have hwaits : ¬s.waits .closer := by
    change ¬s.controller.closer = .waiting
    rw [hcloser]
    nofun
  have howns : ¬s.owns .closer := by
    change ¬s.controller.closer = .returned
    rw [hcloser]
    nofun
  refine ⟨h.ledger, ?_, h.waiting, h.active, h.bound, h.size⟩
  refine (h.serves.acquire hwaits howns).congr ?_ ?_
  · rintro (x | _)
    · simp [ControllerState.waits]
    · simp [ControllerState.waits, Controller.acquire]
  · rintro (x | _)
    · exact Iff.rfl
    · simp [ControllerState.owns, Controller.acquire, hcloser]

/-- `close` is given the slot, which it keeps. -/
theorem ControllerInvariant.closeWake (h : ControllerInvariant maxQueued s)
    (hholder : s.controller.semaphore.holder = some .closer) :
    ControllerInvariant maxQueued
      { s with controller := { s.controller with drained := true, closer := .returned } } := by
  refine ⟨h.ledger, ?_, h.waiting, h.active, h.bound, h.size⟩
  refine (h.serves.take hholder).congr ?_ ?_
  · rintro (x | _)
    · simp [ControllerState.waits]
    · simp [ControllerState.waits]
  · rintro (x | _)
    · simp [ControllerState.owns]
    · simp [ControllerState.owns]

/-- `close` is cancelled while it waits. -/
theorem ControllerInvariant.closeCancel (h : ControllerInvariant maxQueued s)
    (hcloser : s.controller.closer = .waiting) :
    ControllerInvariant maxQueued
      { s with controller := { s.controller with closer := .idle }.giveUp .closer } := by
  refine ⟨h.ledger, ?_, h.waiting, h.active, h.bound, h.size⟩
  refine (h.serves.giveUp (k := Holder.closer) hcloser).congr ?_ ?_
  · rintro (x | _)
    · simp [ControllerState.waits]
    · simp [ControllerState.waits, Controller.giveUp]
  · rintro (x | _)
    · exact Iff.rfl
    · simp [ControllerState.owns, Controller.giveUp, hcloser]

/-- Every step of the server keeps the invariant. -/
theorem ControllerInvariant.step (h : ControllerInvariant maxQueued s) (action : ControllerAction)
    (hstep : s.step action = some t) : ControllerInvariant maxQueued t := by
  unfold ControllerState.step at hstep
  cases action with
  | arrive r streaming =>
    obtain ⟨hpc, rfl⟩ := of_guard hstep
    exact h.arrive hpc
  | wake r =>
    obtain ⟨⟨hpc, hholder⟩, rfl⟩ := of_guard hstep
    exact h.wake hpc hholder
  | giveUp r =>
    obtain ⟨hpc, rfl⟩ := of_guard hstep
    exact h.giveUp hpc
  | request r event =>
    obtain ⟨q, hq, rfl⟩ := Option.map_eq_some_iff.1 hstep
    exact h.request hq
  | close =>
    obtain ⟨hcloser, rfl⟩ := of_guard hstep
    exact h.close hcloser
  | closeWake =>
    obtain ⟨⟨-, hholder⟩, rfl⟩ := of_guard hstep
    exact h.closeWake hholder
  | closeCancel =>
    obtain ⟨hcloser, rfl⟩ := of_guard hstep
    exact h.closeCancel hcloser

theorem ControllerInvariant.single (h : ControllerInvariant maxQueued s) {r r' : Nat}
    (hr : (s.requests r).live = true) (hr' : (s.requests r').live = true) : r = r' := by
  have hsame := (h.serves.owner (.request r) hr).symm.trans (h.serves.owner (.request r') hr')
  exact Holder.request.inj (Option.some.inj hsame)

/-- The closer has the slot for good. -/
theorem ControllerInvariant.closed_not_live (h : ControllerInvariant maxQueued s)
    (hclosed : s.controller.closer = .returned) (r : Nat) : ¬(s.requests r).live = true := by
  intro hr
  have hsame := (h.serves.owner (.request r) hr).symm.trans (h.serves.owner .closer hclosed)
  cases hsame

/-- A step after `close` has returned grants no lease. -/
theorem ControllerInvariant.closed_step (h : ControllerInvariant maxQueued s)
    (hclosed : s.controller.closer = .returned) (action : ControllerAction)
    (hstep : s.step action = some t) :
    t.controller.closer = .returned ∧ ∀ r, (t.requests r).granted = (s.requests r).granted := by
  have hholder := h.serves.owner .closer hclosed
  unfold ControllerState.step at hstep
  cases action with
  | arrive r streaming =>
    obtain ⟨-, rfl⟩ := of_guard hstep
    unfold ControllerState.arrive
    dsimp only
    split
    · exact ⟨hclosed, set_granted rfl⟩
    · exact ⟨hclosed, set_granted rfl⟩
  | wake r =>
    obtain ⟨⟨-, hgiven⟩, -⟩ := of_guard hstep
    rw [hholder] at hgiven
    cases hgiven
  | giveUp r =>
    obtain ⟨-, rfl⟩ := of_guard hstep
    exact ⟨hclosed, set_granted rfl⟩
  | request r event =>
    obtain ⟨q, hq, rfl⟩ := Option.map_eq_some_iff.1 hstep
    refine ⟨?_, set_granted (requestStep_step (h.ledger r) hq).granted⟩
    dsimp only
    split
    · exact hclosed
    · exact hclosed
  | close | closeCancel =>
    obtain ⟨hcloser, -⟩ := of_guard hstep
    rw [hclosed] at hcloser
    cases hcloser
  | closeWake =>
    obtain ⟨⟨hcloser, -⟩, -⟩ := of_guard hstep
    rw [hclosed] at hcloser
    cases hcloser

theorem ControllerInvariant.closed_run (h : ControllerInvariant maxQueued s)
    (hclosed : s.controller.closer = .returned) {actions : List ControllerAction}
    (hrun : execute ControllerState.step s actions = some t) (r : Nat) :
    (t.requests r).granted = (s.requests r).granted := by
  exact congrFun (execute_constant (fun u r => (u.requests r).granted)
    (fun u => ControllerInvariant maxQueued u ∧ u.controller.closer = .returned)
    (fun _ action _ hu hstep => by
      obtain ⟨hclosed', hgranted⟩ := hu.1.closed_step hu.2 action hstep
      exact ⟨⟨hu.1.step action hstep, hclosed'⟩, funext hgranted⟩) ⟨h, hclosed⟩ hrun) r

end Controller

/-! ## The gate -/

/-- What holds in every state of every run of the gate. -/
structure GateInvariant (limit : Nat) (s : GateState) : Prop where
  ledger : ∀ r, (s.requests r).Ledger
  active : Counts (fun r => (s.requests r).live = true) s.gate.active
  bound : s.gate.active ≤ s.gate.limit
  size : s.gate.limit = limit
  drained : s.gate.drained = true → s.gate.active = 0
  closing : s.gate.closer ≠ .idle → s.gate.isClosing = true
  returned : s.gate.closer = .returned → s.gate.active = 0

section Gate

variable {s t : GateState} {r limit : Nat}

theorem init_gateInvariant {maxQueued maxConcurrency : Nat} :
    GateInvariant (maxQueued + max 1 maxConcurrency) (GateState.init maxQueued maxConcurrency) where
  ledger _ := ⟨rfl, rfl, fun _ => ⟨rfl, rfl⟩, nofun⟩
  active := counts_zero fun _ => nofun
  bound := Nat.zero_le _
  size := rfl
  drained _ := rfl
  closing h := absurd rfl h
  returned := nofun

/-- A request is refused, or granted a lease below the limit. -/
theorem GateInvariant.arrive (h : GateInvariant limit s) {streaming : Bool}
    (hpc : (s.requests r).pc = .arriving) : GateInvariant limit (s.arrive r streaming) := by
  have hledger := h.ledger r
  have hheld : (s.requests r).pc.held = false := by rw [hpc]; rfl
  have hlive := hledger.not_live hheld
  unfold GateState.arrive
  dsimp only
  split
  · have hlives := set_same (fun q => q.live = true) s.requests r
      { s.requests r with streaming := streaming, pc := .refused } Iff.rfl
    exact ⟨forall_set h.ledger (hledger.move hheld rfl rfl rfl rfl rfl), h.active.congr hlives,
      h.bound, h.size, h.drained, h.closing, h.returned⟩
  · rename_i hopen
    obtain ⟨hclosing, hroom⟩ := not_or.1 hopen
    have hmove : Request.Ledger { s.requests r with streaming := streaming } :=
      hledger.move hheld hheld rfl rfl rfl rfl
    have hlives := set_gain (fun q => q.live = true) s.requests r
      (Request.grant { s.requests r with streaming := streaming }) (hmove.grant_live hheld)
    refine ⟨forall_set h.ledger hmove.grant, h.active.insert hlive hlives, ?_, h.size, nofun,
      h.closing, ?_⟩
    · change s.gate.active + 1 ≤ s.gate.limit
      omega
    · intro hcloser
      have hidle : s.gate.closer ≠ .idle := by
        change s.gate.closer = .returned at hcloser
        rw [hcloser]
        nofun
      exact absurd (h.closing hidle) hclosing

/-- A step of a request with a lease; a release frees its seat. -/
theorem GateInvariant.request (h : GateInvariant limit s) {event : Event} {q : Request}
    (hstep : requestStep (s.requests r) event = some q) : GateInvariant limit
      { requests := setRequest s.requests r q
        gate := if (s.requests r).releases < q.releases then s.gate.release else s.gate } := by
  have hledger := h.ledger r
  have hs := requestStep_step hledger hstep
  have hledgers := forall_set (r := r) h.ledger (hledger.step hstep)
  obtain ⟨hcount, hlive⟩ | ⟨hcount, hlive, hlive'⟩ := hs.live hledger
  · have hlives := set_same (fun q => q.live = true) s.requests r q (by rw [hlive])
    rw [if_neg (by omega)]
    exact ⟨hledgers, h.active.congr hlives, h.bound, h.size, h.drained, h.closing, h.returned⟩
  · have hlives := set_lose (fun q => q.live = true) s.requests r q hlive'
    have hbound := h.bound
    obtain ⟨hactive, hpos⟩ := h.active.erase hlive hlives
    rw [if_pos hcount]
    refine ⟨hledgers, hactive, ?_, h.size, ?_, h.closing, ?_⟩
    · change s.gate.active - 1 ≤ s.gate.limit
      omega
    · intro hdrained
      obtain hdrained | hdrained := Bool.or_eq_true_iff.1 hdrained
      · exact absurd (h.drained hdrained) hpos.ne'
      · exact of_decide_eq_true hdrained
    · intro hclosed
      exact absurd (h.returned hclosed) hpos.ne'

/-- Every step of the server keeps the invariant. -/
theorem GateInvariant.step (h : GateInvariant limit s) (action : GateAction)
    (hstep : s.step action = some t) : GateInvariant limit t := by
  unfold GateState.step at hstep
  cases action with
  | arrive r streaming =>
    obtain ⟨hpc, rfl⟩ := of_guard hstep
    exact h.arrive hpc
  | request r event =>
    obtain ⟨q, hq, rfl⟩ := Option.map_eq_some_iff.1 hstep
    exact h.request hq
  | close =>
    obtain ⟨-, rfl⟩ := of_guard hstep
    exact ⟨h.ledger, h.active, h.bound, h.size, h.drained, fun _ => rfl, nofun⟩
  | closeWake =>
    obtain ⟨⟨hcloser, hdrained⟩, rfl⟩ := of_guard hstep
    have hclosing := h.closing (by rw [hcloser]; nofun)
    exact ⟨h.ledger, h.active, h.bound, h.size, h.drained, fun _ => hclosing,
      fun _ => h.drained hdrained⟩
  | closeCancel =>
    obtain ⟨-, rfl⟩ := of_guard hstep
    exact ⟨h.ledger, h.active, h.bound, h.size, h.drained, fun hcloser => absurd rfl hcloser, nofun⟩

theorem GateInvariant.closed_not_live (h : GateInvariant limit s)
    (hclosed : s.gate.closer = .returned) (r : Nat) : ¬(s.requests r).live = true := by
  intro hlive
  have hone : ({r} : Finset Nat).card ≤ s.gate.active := h.active.card_le fun x hx => by
    rw [Finset.mem_singleton.1 hx]
    exact hlive
  rw [h.returned hclosed, Finset.card_singleton] at hone
  omega

/-- A step after `close` has returned grants no lease. -/
theorem GateInvariant.closed_step (h : GateInvariant limit s)
    (hclosed : s.gate.closer = .returned) (action : GateAction) (hstep : s.step action = some t) :
    t.gate.closer = .returned ∧ ∀ r, (t.requests r).granted = (s.requests r).granted := by
  have hclosing := h.closing (by rw [hclosed]; nofun)
  unfold GateState.step at hstep
  cases action with
  | arrive r streaming =>
    obtain ⟨-, rfl⟩ := of_guard hstep
    unfold GateState.arrive
    dsimp only
    rw [if_pos (Or.inl hclosing)]
    exact ⟨hclosed, set_granted rfl⟩
  | request r event =>
    obtain ⟨q, hq, rfl⟩ := Option.map_eq_some_iff.1 hstep
    refine ⟨?_, set_granted (requestStep_step (h.ledger r) hq).granted⟩
    dsimp only
    split
    · exact hclosed
    · exact hclosed
  | close | closeCancel =>
    obtain ⟨hcloser, -⟩ := of_guard hstep
    rw [hclosed] at hcloser
    cases hcloser
  | closeWake =>
    obtain ⟨⟨hcloser, -⟩, -⟩ := of_guard hstep
    rw [hclosed] at hcloser
    cases hcloser

theorem GateInvariant.closed_run (h : GateInvariant limit s) (hclosed : s.gate.closer = .returned)
    {actions : List GateAction} (hrun : execute GateState.step s actions = some t) (r : Nat) :
    (t.requests r).granted = (s.requests r).granted := by
  exact congrFun (execute_constant (fun u r => (u.requests r).granted)
    (fun u => GateInvariant limit u ∧ u.gate.closer = .returned)
    (fun _ action _ hu hstep => by
      obtain ⟨hclosed', hgranted⟩ := hu.1.closed_step hu.2 action hstep
      exact ⟨⟨hu.1.step action hstep, hclosed'⟩, funext hgranted⟩) ⟨h, hclosed⟩ hrun) r

end Gate

end EdgeLLM.Ports.Lease
