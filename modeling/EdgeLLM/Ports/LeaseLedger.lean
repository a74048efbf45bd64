import EdgeLLM.Ports.GenerationLease

/-!
# The ledger of a request

In every run a request holds a lease from `reserve` on, releases it at most
once, and has released it when its coroutines have finished.  That what runs
for the request runs under its lease is kept by quiet steps only: a coroutine
that is cancelled while it waits for its threads, after a first cancellation
or in the `finally` of `stream`, goes on without them, and a response that ends
while its stream is parked leaves the native iterator behind.
-/

namespace EdgeLLM.Ports.Lease

open Verified

/-! ## The ledger of a request -/

/-- The request has got past `reserve`. -/
def Pc.held : Pc → Bool
  | .arriving | .waiting | .refused => false
  | _ => true

/-- What a request owes for its lease, in every run. -/
structure Request.Ledger (q : Request) : Prop where
  granted : q.granted = q.pc.held
  releases : q.releases = if q.released then 1 else 0
  fresh : q.pc.held = false → q.released = false ∧ q.running = false
  done : q.pc = .done → q.released = true

/-- What a step of a request does to its lease. -/
structure Step (q q' : Request) : Prop where
  held : q.pc.held = true
  held' : q'.pc.held = true
  granted : q'.granted = q.granted
  released : q'.released = q.released ∧ q'.releases = q.releases ∨
    q.released = false ∧ q'.released = true ∧ q'.releases = q.releases + 1
  done : q'.pc = .done → q'.released = true ∨ q.pc = .done

section Ledger

variable {q q' : Request} {event : Event} {pc : Pc}

theorem release_released : q.release.released = true := by
  unfold Request.release
  split
  · assumption
  · rfl

/-- The lease is released and the request goes on at `pc`. -/
theorem step_release (hheld : q.pc.held = true) (hheld' : pc.held = true) :
    Step q { q.release with pc := pc } where
  held := hheld
  held' := hheld'
  granted := by
    unfold Request.release
    split <;> rfl
  released := by
    unfold Request.release
    split
    · exact Or.inl ⟨rfl, rfl⟩
    · rename_i hreleased
      exact Or.inr ⟨Bool.eq_false_of_not_eq_true hreleased, rfl, rfl⟩
  done _ := Or.inl release_released

theorem step_finish (hheld : q.pc.held = true) : Step q q.finish := step_release hheld rfl

theorem step_keep (hheld : q.pc.held = true) (hheld' : q'.pc.held = true)
    (hgranted : q'.granted = q.granted) (hreleased : q'.released = q.released)
    (hreleases : q'.releases = q.releases) (hdone : q'.pc = .done → q.pc = .done) : Step q q' where
  held := hheld
  held' := hheld'
  granted := hgranted
  released := Or.inl ⟨hreleased, hreleases⟩
  done h := Or.inr (hdone h)

theorem Request.Ledger.held (h : q.Ledger) (hrunning : q.running = true) : q.pc.held = true := by
  by_contra hheld
  have hidle := (h.fresh (Bool.eq_false_of_not_eq_true hheld)).2
  rw [hrunning] at hidle
  cases hidle

theorem requestStep_step (h : q.Ledger) (hstep : requestStep q event = some q') : Step q q' := by
  have hrunning := h.held
  unfold Request.running at hrunning
  unfold requestStep at hstep
  split at hstep
  -- a thread ends
  case h_1 | h_2 | h_3 | h_4 =>
    split at hstep
    · rename_i hthread
      have hheld := hrunning (by simp [hthread])
      cases hstep
      exact step_keep hheld hheld rfl rfl rfl id
    · cases hstep
  case h_29 => cases hstep
  all_goals
    rename_i hpc
    have hheld : q.pc.held = true := by rw [hpc]; rfl
  -- the request ends
  case h_8 | h_12 | h_14 | h_23 | h_24 | h_25 | h_28 =>
    cases hstep
    exact step_finish hheld
  case h_7 | h_9 | h_11 | h_27 =>
    split at hstep
    · cases hstep
    · cases hstep
      exact step_finish hheld
  -- it goes on
  case h_6 | h_10 | h_16 | h_18 | h_19 | h_20 | h_26 =>
    cases hstep
    exact step_keep hheld rfl rfl rfl rfl nofun
  case h_5 =>
    split_ifs at hstep
    · cases hstep
      exact step_finish hheld
    · cases hstep
      exact step_keep hheld rfl rfl rfl rfl nofun
    · cases hstep
      exact step_keep hheld rfl rfl rfl rfl nofun
  case h_13 =>
    split_ifs at hstep
    · cases hstep
      exact step_keep hheld rfl rfl rfl rfl nofun
    · cases hstep
      exact step_release hheld rfl
  case h_15 | h_17 =>
    split_ifs at hstep
    all_goals
      cases hstep
      exact step_keep hheld rfl rfl rfl rfl nofun
  case h_21 =>
    cases hstep
    exact step_release hheld rfl
  case h_22 =>
    split_ifs at hstep
    · cases hstep
      exact step_release hheld rfl
    · cases hstep
      exact step_keep hheld rfl rfl rfl rfl nofun

theorem Request.Ledger.step (h : q.Ledger) (hstep : requestStep q event = some q') : q'.Ledger := by
  have hs := requestStep_step h hstep
  have hreleases := h.releases
  constructor
  · rw [hs.granted, hs.held', h.granted, hs.held]
  · obtain ⟨hreleased, hcount⟩ | ⟨hreleased, hreleased', hcount⟩ := hs.released
    · rw [hcount, hreleased, hreleases]
    · rw [hcount, hreleased', hreleases, hreleased]
      rfl
  · intro hheld
    rw [hs.held'] at hheld
    cases hheld
  · intro hdone
    obtain hreleased | hwas := hs.done hdone
    · exact hreleased
    · obtain ⟨hreleased, -⟩ | ⟨-, hreleased, -⟩ := hs.released
      · rw [hreleased, h.done hwas]
      · exact hreleased

end Ledger

/-! ## Quiet requests -/

/-- What can run at each point of a quiet request. -/
def Request.Tidy (q : Request) : Prop :=
  match q.pc with
  | .arriving | .waiting | .refused => q.running = false ∧ q.iteratorClosing = false
  | .sendingTail | .done => q.running = false
  | .preparing | .preparingCancelled | .generating | .generatingCancelled =>
    q.released = false ∧ q.next = false ∧ q.cancelClose = false ∧ q.finalClose = false ∧
      q.iterator = false ∧ q.iteratorClosing = false
  | .sendingHead => q.released = false ∧ q.running = false ∧ q.iteratorClosing = false
  | .nexting =>
    q.released = false ∧ q.worker = false ∧ q.cancelClose = false ∧ q.finalClose = false ∧
      q.iteratorClosing = false
  | .parked =>
    q.released = false ∧ q.worker = false ∧ q.next = false ∧ q.cancelClose = false ∧
      q.finalClose = false ∧ q.iteratorClosing = false ∧ q.iterator = true
  | .nextCancelled =>
    q.released = false ∧ q.worker = false ∧ q.finalClose = false ∧
      (q.cancelClose = false → q.iteratorClosing = true ∧ (q.next = false → q.iterator = false))
  | .closing =>
    q.released = false ∧ q.worker = false ∧ q.next = false ∧ q.cancelClose = false ∧
      (q.finalClose = false → q.iterator = false)
  | .abandoned | .finalizing => False

/-- A coroutine that cleans up is cancelled, or a response leaves its stream
parked, only when nothing runs for the request any more. -/
def Request.quiet (q : Request) : Event → Bool
  | .cancelAgain | .leave => !q.running
  | _ => true

section Tidy

variable {q q' : Request} {event : Event}

/-- What runs for a quiet request runs under its lease. -/
theorem Request.Tidy.running_live (h : q.Tidy) (hledger : q.Ledger) (hrunning : q.running = true) :
    q.live = true := by
  have hgranted := hledger.granted.trans (hledger.held hrunning)
  unfold Request.live
  rw [hgranted]
  unfold Request.Tidy at h
  split at h
  case h_1 | h_2 | h_3 =>
    rw [hrunning] at h
    cases h.1
  case h_4 | h_5 =>
    rw [hrunning] at h
    cases h
  case h_15 | h_16 => exact h.elim
  all_goals
    rw [h.1]
    rfl

theorem running_finish : q.finish.running = q.running := by
  unfold Request.finish Request.release
  split <;> rfl

theorem requestStep_tidy (h : q.Tidy) (hquiet : q.quiet event = true)
    (hstep : requestStep q event = some q') : q'.Tidy := by
  unfold requestStep at hstep
  split at hstep
  -- a thread ends
  case h_1 | h_2 | h_3 | h_4 =>
    split at hstep
    · rename_i hthread
      cases hstep
      unfold Request.Tidy at h ⊢
      cases hpc : q.pc <;> simp_all [Request.running, Request.closeIterator]
    · cases hstep
  case h_29 => cases hstep
  all_goals
    rename_i hpc
    simp only [Request.Tidy, hpc] at h
  -- nothing runs where the request is disturbed, which a parked stream is not
  case h_8 | h_12 | h_18 | h_23 =>
    cases hstep
    have hidle : q.running = false := by simpa [Request.quiet] using hquiet
    simp_all [Request.Tidy, Request.running, Request.finish, Request.release]
  case h_21 =>
    have hidle : q.running = false := by simpa [Request.quiet] using hquiet
    simp_all [Request.running]
  -- the other awaits
  case h_24 | h_25 =>
    cases hstep
    exact running_finish.trans h
  case h_6 | h_10 | h_14 | h_16 | h_19 | h_20 =>
    cases hstep
    simp_all [Request.Tidy, Request.running, Request.finish, Request.release]
  all_goals
    split_ifs at hstep
    all_goals
      cases hstep
      simp_all [Request.Tidy, Request.running, Request.finish, Request.release]

end Tidy

/-! ## One request among the others -/

section SetRequest

variable {p : Request → Prop} {requests : Nat → Request} {r x : Nat} {q : Request}

theorem setRequest_self : setRequest requests r q r = q := by
  unfold setRequest
  exact Function.update_self r q requests

theorem setRequest_ne (h : x ≠ r) : setRequest requests r q x = requests x := by
  unfold setRequest
  exact Function.update_of_ne h q requests

theorem forall_set (h : ∀ x, p (requests x)) (hq : p q) (x : Nat) :
    p (setRequest requests r q x) := by
  by_cases hx : x = r
  · subst hx
    rwa [setRequest_self]
  · rw [setRequest_ne hx]
    exact h x

theorem set_granted (hq : q.granted = (requests r).granted) (x : Nat) :
    (setRequest requests r q x).granted = (requests x).granted := by
  by_cases hx : x = r
  · subst hx
    rwa [setRequest_self]
  · rw [setRequest_ne hx]

variable (p requests r q)

/-- The property does not change for the request. -/
theorem set_same (hq : p q ↔ p (requests r)) (x : Nat) :
    p (setRequest requests r q x) ↔ p (requests x) := by
  by_cases hx : x = r
  · subst hx
    rwa [setRequest_self]
  · rw [setRequest_ne hx]

theorem set_gain (hq : p q) (x : Nat) : p (setRequest requests r q x) ↔ p (requests x) ∨ x = r := by
  by_cases hx : x = r
  · subst hx
    rw [setRequest_self]
    exact ⟨fun _ => Or.inr rfl, fun _ => hq⟩
  · rw [setRequest_ne hx]
    exact ⟨Or.inl, fun h => h.resolve_right hx⟩

theorem set_lose (hq : ¬p q) (x : Nat) :
    p (setRequest requests r q x) ↔ p (requests x) ∧ x ≠ r := by
  by_cases hx : x = r
  · subst hx
    rw [setRequest_self]
    exact ⟨fun h => absurd h hq, fun h => absurd rfl h.2⟩
  · rw [setRequest_ne hx]
    exact ⟨fun h => ⟨h, hx⟩, fun h => h.1⟩

end SetRequest

section Reserve

variable {q q' : Request}

theorem Request.Ledger.not_live (h : q.Ledger) (hheld : q.pc.held = false) : ¬q.live = true := by
  rw [Request.live, h.granted, hheld]
  nofun

/-- A request moves on within `reserve`, without a lease. -/
theorem Request.Ledger.move (h : q.Ledger) (hheld : q.pc.held = false) (hheld' : q'.pc.held = false)
    (hgranted : q'.granted = q.granted) (hreleased : q'.released = q.released)
    (hreleases : q'.releases = q.releases) (hrunning : q'.running = q.running) : q'.Ledger where
  granted := by rw [hgranted, h.granted, hheld, hheld']
  releases := by rw [hreleases, hreleased, h.releases]
  fresh _ := by
    rw [hreleased, hrunning]
    exact h.fresh hheld
  done hdone := by
    rw [hdone] at hheld'
    cases hheld'

theorem Request.Ledger.grant (h : q.Ledger) : q.grant.Ledger where
  granted := rfl
  releases := h.releases
  fresh := nofun
  done := nofun

theorem Request.Ledger.grant_live (h : q.Ledger) (hheld : q.pc.held = false) :
    q.grant.live = true := by
  have hreleased := (h.fresh hheld).1
  simp [Request.live, Request.grant, hreleased]

/-- A step releases a live lease, or leaves the lease alone. -/
theorem Step.live (hs : Step q q') (h : q.Ledger) : q'.releases = q.releases ∧ q'.live = q.live ∨
      q.releases < q'.releases ∧ q.live = true ∧ ¬q'.live = true := by
  have hgranted : q.granted = true := h.granted.trans hs.held
  unfold Request.live
  rw [hs.granted, hgranted]
  obtain ⟨hreleased, hcount⟩ | ⟨hreleased, hreleased', hcount⟩ := hs.released
  · exact Or.inl ⟨hcount, by rw [hreleased]⟩
  · refine Or.inr ⟨by omega, by rw [hreleased]; rfl, ?_⟩
    rw [hreleased']
    nofun

theorem Step.not_waiting (hs : Step q q') : q.pc ≠ .waiting ∧ q'.pc ≠ .waiting := by
  have hheld := hs.held
  have hheld' := hs.held'
  constructor
  · intro hpc
    rw [hpc] at hheld
    cases hheld
  · intro hpc
    rw [hpc] at hheld'
    cases hheld'

end Reserve

end EdgeLLM.Ports.Lease
