import EdgeLLM.Ports.LeaseAdmission

/-!
# Runs of the server

What the admissions promise holds in every run; that a lease outlives the work
done under it holds in quiet runs.
-/

namespace EdgeLLM.Ports.Lease

open Verified

/-! ## Quiet runs -/

def ControllerState.quiet (s : ControllerState) : ControllerAction → Bool
  | .request r event => (s.requests r).quiet event
  | _ => true

def GateState.quiet (s : GateState) : GateAction → Bool
  | .request r event => (s.requests r).quiet event
  | _ => true

section Quiet

variable {q : Request} {pc : Pc}

theorem Request.Tidy.idle (h : q.Tidy) (hheld : q.pc.held = false) :
    q.running = false ∧ q.iteratorClosing = false := by
  unfold Request.Tidy at h
  cases hpc : q.pc <;> rw [hpc] at h hheld <;> first | exact h | cases hheld

theorem Request.Tidy.move (h : q.Tidy) (hheld : q.pc.held = false) (hheld' : pc.held = false)
    (streaming : Bool) : Request.Tidy { q with streaming := streaming, pc := pc } := by
  have hidle := h.idle hheld
  unfold Request.Tidy
  cases pc <;> first | exact hidle | cases hheld'

theorem Request.Tidy.grant (h : q.Tidy) (hledger : q.Ledger) (hheld : q.pc.held = false) :
    q.grant.Tidy := by
  obtain ⟨hrunning, hclosing⟩ := h.idle hheld
  have hreleased := (hledger.fresh hheld).1
  simp only [Request.running, Bool.or_eq_false_iff] at hrunning
  obtain ⟨⟨⟨⟨-, hnext⟩, hcancel⟩, hfinal⟩, hiterator⟩ := hrunning
  exact ⟨hreleased, hnext, hcancel, hfinal, hiterator, hclosing⟩

variable {maxQueued limit : Nat}

theorem ControllerInvariant.step_tidy {s t : ControllerState} (h : ControllerInvariant maxQueued s)
    (htidy : ∀ r, (s.requests r).Tidy) {action : ControllerAction}
    (hquiet : s.quiet action = true) (hstep : s.step action = some t) (x : Nat) :
    (t.requests x).Tidy := by
  have hwaiting : ∀ r, (s.requests r).pc = .waiting → (s.requests r).pc.held = false := by
    intro r hpc
    rw [hpc]
    rfl
  unfold ControllerState.step at hstep
  cases action with
  | arrive r streaming =>
    obtain ⟨hpc, rfl⟩ := of_guard hstep
    have hheld : (s.requests r).pc.held = false := by rw [hpc]; rfl
    unfold ControllerState.arrive
    dsimp only
    split
    · exact forall_set htidy ((htidy r).move hheld rfl streaming) x
    · exact forall_set htidy ((htidy r).move hheld rfl streaming) x
  | wake r =>
    obtain ⟨⟨hpc, -⟩, rfl⟩ := of_guard hstep
    unfold ControllerState.wake
    dsimp only
    split
    · exact forall_set htidy ((htidy r).move (hwaiting r hpc) rfl _) x
    · exact forall_set htidy ((htidy r).grant (h.ledger r) (hwaiting r hpc)) x
  | giveUp r =>
    obtain ⟨hpc, rfl⟩ := of_guard hstep
    exact forall_set htidy ((htidy r).move (hwaiting r hpc) rfl _) x
  | request r event =>
    obtain ⟨q, hq, rfl⟩ := Option.map_eq_some_iff.1 hstep
    exact forall_set htidy (requestStep_tidy (htidy r) hquiet hq) x
  | close | closeWake | closeCancel =>
    obtain ⟨-, rfl⟩ := of_guard hstep
    exact htidy x

theorem GateInvariant.step_tidy {s t : GateState} (h : GateInvariant limit s)
    (htidy : ∀ r, (s.requests r).Tidy) {action : GateAction}
    (hquiet : s.quiet action = true) (hstep : s.step action = some t) (x : Nat) :
    (t.requests x).Tidy := by
  unfold GateState.step at hstep
  cases action with
  | arrive r streaming =>
    obtain ⟨hpc, rfl⟩ := of_guard hstep
    have hheld : (s.requests r).pc.held = false := by rw [hpc]; rfl
    unfold GateState.arrive
    dsimp only
    split
    · exact forall_set htidy ((htidy r).move hheld rfl streaming) x
    · have htidy' := (htidy r).move hheld hheld streaming
      have hledger : Request.Ledger { s.requests r with streaming := streaming } :=
        (h.ledger r).move hheld hheld rfl rfl rfl rfl
      exact forall_set htidy (htidy'.grant hledger hheld) x
  | request r event =>
    obtain ⟨q, hq, rfl⟩ := Option.map_eq_some_iff.1 hstep
    exact forall_set htidy (requestStep_tidy (htidy r) hquiet hq) x
  | close | closeWake | closeCancel =>
    obtain ⟨-, rfl⟩ := of_guard hstep
    exact htidy x

end Quiet

/-! ## The runs -/

/-- The leases of a state: each is released at most once, and once by the end
of its request. -/
structure ReleasedOnce (requests : Nat → Request) : Prop where
  releases : ∀ r, (requests r).releases ≤ 1
  done : ∀ r, (requests r).pc = .done →
    (requests r).releases = 1 ∧ (requests r).live = false

/-- A lease is live while something started under it can run. -/
def Outlives (requests : Nat → Request) : Prop :=
  ∀ r, (requests r).running = true → (requests r).live = true

/-- The controller: one lease, a bounded queue, nothing after `close`. -/
structure ControllerSound (maxQueued : Nat) (s : ControllerState) : Prop where
  once : ReleasedOnce s.requests
  single : ∀ r r', (s.requests r).live = true → (s.requests r').live = true → r = r'
  active : Counts (fun r => (s.requests r).live = true) s.controller.active
  waiting : Counts (fun r => (s.requests r).pc = .waiting) s.controller.waiting
  bound : s.controller.active + s.controller.waiting ≤ maxQueued + 1
  closed : s.controller.closer = .returned → ∀ r, (s.requests r).live = false ∧
    ∀ actions t, execute ControllerState.step s actions = some t →
      (t.requests r).granted = (s.requests r).granted

/-- The gate: no more leases than its limit, nothing after `close`. -/
structure GateSound (limit : Nat) (s : GateState) : Prop where
  once : ReleasedOnce s.requests
  active : Counts (fun r => (s.requests r).live = true) s.gate.active
  bound : s.gate.active ≤ limit
  closed : s.gate.closer = .returned → ∀ r, (s.requests r).live = false ∧
    ∀ actions t, execute GateState.step s actions = some t →
      (t.requests r).granted = (s.requests r).granted

section Runs

variable {maxQueued maxConcurrency limit : Nat}

theorem releasedOnce {requests : Nat → Request} (h : ∀ r, (requests r).Ledger) :
    ReleasedOnce requests where
  releases r := by
    rw [(h r).releases]
    split
    · exact Nat.le_refl 1
    · exact Nat.zero_le 1
  done r hdone := by
    have hreleased := (h r).done hdone
    refine ⟨by rw [(h r).releases, if_pos hreleased], ?_⟩
    rw [Request.live, hreleased, Bool.not_true, Bool.and_false]

theorem ControllerInvariant.sound {s : ControllerState} (h : ControllerInvariant maxQueued s) :
    ControllerSound maxQueued s where
  once := releasedOnce h.ledger
  single _ _ := h.single
  active := h.active
  waiting := h.waiting
  bound := by
    have hbound := h.bound
    rwa [h.size] at hbound
  closed hclosed r := by
    refine ⟨Bool.eq_false_of_not_eq_true (h.closed_not_live hclosed r), ?_⟩
    intro actions t hrun
    exact h.closed_run hclosed hrun r

theorem GateInvariant.sound {s : GateState} (h : GateInvariant limit s) : GateSound limit s where
  once := releasedOnce h.ledger
  active := h.active
  bound := by
    have hbound := h.bound
    rwa [h.size] at hbound
  closed hclosed r := by
    refine ⟨Bool.eq_false_of_not_eq_true (h.closed_not_live hclosed r), ?_⟩
    intro actions t hrun
    exact h.closed_run hclosed hrun r

theorem init_tidy : Request.init.Tidy := ⟨rfl, rfl⟩

/-- Every state of every run of the controller. -/
theorem controller_sound {actions : List ControllerAction} {t : ControllerState}
    (hrun : execute ControllerState.step (ControllerState.init maxQueued) actions = some t) :
    ControllerSound maxQueued t := by
  have hinvariant := execute_invariant (fun _ => True) (ControllerInvariant maxQueued)
    (fun _ action _ _ h hstep => h.step action hstep) (fun _ _ => trivial)
    init_controllerInvariant hrun
  exact hinvariant.sound

theorem controller_outlives {actions : List ControllerAction} {t : ControllerState}
    (hrun : execute (guarded ControllerState.quiet ControllerState.step)
      (ControllerState.init maxQueued) actions = some t) : Outlives t.requests := by
  have hinvariant := guarded_invariant
    (fun s => ControllerInvariant maxQueued s ∧ ∀ r, (s.requests r).Tidy)
    (fun _ action _ hquiet h hstep => ⟨h.1.step action hstep, h.1.step_tidy h.2 hquiet hstep⟩)
    ⟨init_controllerInvariant, fun _ => init_tidy⟩ hrun
  intro r hrunning
  exact (hinvariant.2 r).running_live (hinvariant.1.ledger r) hrunning

theorem gate_sound {actions : List GateAction} {t : GateState}
    (hrun : execute GateState.step (GateState.init maxQueued maxConcurrency) actions = some t) :
    GateSound (maxQueued + max 1 maxConcurrency) t := by
  have hinvariant := execute_invariant (fun _ => True)
    (GateInvariant (maxQueued + max 1 maxConcurrency))
    (fun _ action _ _ h hstep => h.step action hstep) (fun _ _ => trivial)
    init_gateInvariant hrun
  exact hinvariant.sound

theorem gate_outlives {actions : List GateAction} {t : GateState}
    (hrun : execute (guarded GateState.quiet GateState.step)
      (GateState.init maxQueued maxConcurrency) actions = some t) : Outlives t.requests := by
  have hinvariant := guarded_invariant
    (fun s => GateInvariant (maxQueued + max 1 maxConcurrency) s ∧ ∀ r, (s.requests r).Tidy)
    (fun _ action _ hquiet h hstep => ⟨h.1.step action hstep, h.1.step_tidy h.2 hquiet hstep⟩)
    ⟨init_gateInvariant, fun _ => init_tidy⟩ hrun
  intro r hrunning
  exact (hinvariant.2 r).running_live (hinvariant.1.ledger r) hrunning

end Runs

end EdgeLLM.Ports.Lease
