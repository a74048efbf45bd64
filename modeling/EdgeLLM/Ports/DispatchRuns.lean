import EdgeLLM.Ports.DispatchGenerations

/-!
# Runs of the dispatcher and its workers

What a caller of `dispatchRequest` and the workers rely on, in every state of
every run in which no call inside an inner `catch` throws: completions are
counted once and for the current generation, the dispatcher is not left
waiting, its answers speak for all ranks, and after a failure no generation is
started.
-/

namespace EdgeLLM.Ports.Coordinator

open Verified

/-- What is relied on in a state. -/
structure Sound {n : Nat} (s : State n) : Prop where
  /-- A rank publishes at most one completion for the current generation. -/
  once : ∀ i, (s.workers i).published s.workGeneration ≤ 1
  /-- Only completions of the current generation are counted. -/
  current : s.workersFinished =
    if s.dispatcher = .reset then 0 else total (Worker.published s.workGeneration) s.workers
  /-- When no worker can move, the completions are in and the call ends. -/
  progress : s.terminated = false → s.dispatcher = .waiting ∨ s.dispatcher = .asleep →
    (∀ i move, workerStep s i move = none) → s.workersFinished = n ∧
      ∃ t result, step s (.dispatcher .proceed) = some t ∧ t.dispatcher = .finished result
  /-- `true` is returned when every rank returned `true` for this generation. -/
  returned : ∀ action t, step s action = some t → s.dispatcher ≠ t.dispatcher →
    t.dispatcher = .finished (.returned true) →
    ∀ i, (s.workGeneration, Outcome.returned true) ∈ (s.workers i).outcomes
  /-- The error for too long an input is one that a rank raised, and nothing failed. -/
  tooLong : ∀ action t text, step s action = some t → s.dispatcher ≠ t.dispatcher →
    t.dispatcher = .finished (.inputTooLong text) → s.workerFailed = false ∧
    ∃ i error, (s.workGeneration, Outcome.raised (some error)) ∈ (s.workers i).outcomes ∧
      inputTooLongError error = some text
  /-- After a failure or the exit of a worker no call starts a generation. -/
  refused : s.workerFailed = true ∨ (∃ i, (s.workers i).pc = .exited) → s.workMutexHeld = false →
    ∀ actions t, execute step s actions = some t → t.workGeneration = s.workGeneration

section Progress

variable {n : Nat} {s t : State n} {i : Fin n}

/-- A worker that cannot move is blocked or gone. -/
theorem pc_of_stuck (hfree : s.workMutexHeld = false) (hstuck : ∀ move, workerStep s i move = none) :
    (s.workers i).pc = .asleep ∨ (s.workers i).pc = .exited := by
  have hproceed := hstuck .proceed
  have hreturned := hstuck (.returned true)
  unfold workerStep at hproceed hreturned
  cases hpc : (s.workers i).pc with
  | asleep => exact Or.inl rfl
  | exited => exact Or.inr rfl
  | running => simp [hpc] at hreturned
  | _ => simp [hpc, hfree] at hproceed

theorem Invariant.progress (h : Invariant s) (hd : s.dispatcher = .waiting ∨ s.dispatcher = .asleep)
    (hstuck : ∀ i move, workerStep s i move = none) :
    s.workersFinished = n ∧ s.dispatcher = .waiting := by
  have hfree : s.workMutexHeld = false := by
    obtain hd | hd := hd <;> rw [State.workMutexHeld, hd] <;> rfl
  have hcollecting : s.dispatcher.collecting = true := by
    obtain hd | hd := hd <;> rw [hd] <;> rfl
  have hreset : s.dispatcher ≠ .reset := by
    intro hne
    obtain hd | hd := hd <;> rw [hd] at hne <;> cases hne
  have hnotifying : s.dispatcher ≠ .notifying := by
    intro hne
    obtain hd | hd := hd <;> rw [hd] at hne <;> cases hne
  have hpublished : ∀ i, (s.workers i).published s.workGeneration = 1 := by
    intro i
    have haccount := (h.workers i).account
    rw [if_neg (h.started hcollecting).ne'] at haccount
    obtain hpc | hpc := pc_of_stuck hfree (hstuck i)
    · rw [(h.workers i).awake hpc hnotifying] at haccount
      omega
    · have howes : (s.workers i).owes s.workGeneration = 0 := by
        simp [Worker.owes, hpc]
      omega
  have hfinished : s.workersFinished = n := by
    rw [h.finished hreset, total_const hpublished, Nat.mul_one]
  refine ⟨hfinished, hd.resolve_right fun hasleep => ?_⟩
  obtain hlt | ⟨i, hi⟩ := h.sleeping hasleep
  · omega
  · obtain hpc | hpc := pc_of_stuck hfree (hstuck i) <;> simp [hpc] at hi

/-! ## What a worker leaves alone -/

/-- What a step of worker `i` does outside of its own record. -/
structure WorkerFrame (s t : State n) (i : Fin n) : Prop where
  workers : ∃ w, t.workers = Function.update s.workers i w ∧
    t.liveWorkers + (s.workers i).live = s.liveWorkers + w.live
  generation : t.workGeneration = s.workGeneration
  failed : s.workerFailed = true → t.workerFailed = true
  dispatcher : t.dispatcher = s.dispatcher ∨ s.dispatcher = .asleep ∧ t.dispatcher = .waiting
  moves : (s.workers i).pc ≠ .exited

/-- A worker changes its own record and nothing of the counters. -/
theorem WorkerFrame.setWorker {w : Worker} {failed terminated : Bool} {finished reports : Nat}
    (hlive : w.live = (s.workers i).live) (hfailed : s.workerFailed = true → failed = true)
    (hmoves : (s.workers i).pc ≠ .exited) :
    WorkerFrame s { s.setWorker i w with
      workerFailed := failed, workersFinished := finished, workerStartupReports := reports,
      terminated := terminated } i where
  workers := ⟨w, rfl, congrArg (s.liveWorkers + ·) hlive.symm⟩
  generation := rfl
  failed := hfailed
  dispatcher := Or.inl rfl
  moves := hmoves

theorem exit_frame {w : Worker} (hle : (s.workers i).live ≤ s.liveWorkers)
    (hlive : (s.workers i).live = 1) (hlive' : w.live = 0) (hmoves : (s.workers i).pc ≠ .exited) :
    WorkerFrame s { s.setWorker i w with liveWorkers := s.liveWorkers - 1 } i where
  workers := by
    refine ⟨w, rfl, ?_⟩
    rw [hlive] at hle ⊢
    rw [hlive']
    exact Nat.sub_add_cancel hle
  generation := rfl
  failed := id
  dispatcher := Or.inl rfl
  moves := hmoves

theorem notify_frame {pc : WorkerPc}
    (hlive : ({ s.workers i with pc := pc } : Worker).live = (s.workers i).live)
    (hmoves : (s.workers i).pc ≠ .exited) : WorkerFrame s (s.notifyDispatcher.goto i pc) i := by
  unfold State.notifyDispatcher
  split
  · rename_i hasleep
    exact ⟨⟨_, rfl, congrArg (s.liveWorkers + ·) hlive.symm⟩, rfl, id, Or.inr ⟨hasleep, rfl⟩, hmoves⟩
  · exact ⟨⟨_, rfl, congrArg (s.liveWorkers + ·) hlive.symm⟩, rfl, id, Or.inl rfl, hmoves⟩

/-- Every step of a worker, whatever throws, stays within its frame. -/
theorem workerStep_frame {move : Move} (hlive : (s.workers i).live ≤ s.liveWorkers)
    (hstep : workerStep s i move = some t) : WorkerFrame s t i := by
  unfold workerStep at hstep
  dsimp only at hstep
  split at hstep
  all_goals rename_i hpc
  -- the record alone changes, perhaps with the failure flag
  any_goals
    cases hstep
    refine WorkerFrame.setWorker ?_ ?_ (by simp [hpc])
    · simp only [Worker.live, hpc]
      try split_ifs <;> rfl
    · first | exact id | exact fun _ => rfl
  -- the counters of live workers
  · split at hstep
    · cases hstep
    · cases hstep
      exact ⟨⟨_, rfl, by simp [Worker.live, hpc]⟩, rfl, id, Or.inl rfl, by simp [hpc]⟩
  · split at hstep
    · cases hstep
    · cases hstep
      exact WorkerFrame.setWorker (by simp [Worker.live, hpc]) id (by simp [hpc])
  · split at hstep
    · cases hstep
    · cases hstep
      unfold takeGeneration
      dsimp only
      split_ifs
      all_goals exact WorkerFrame.setWorker (by simp [Worker.live, hpc]) id (by simp [hpc])
  · cases hstep
    exact notify_frame (by simp [Worker.live, hpc]) (by simp [hpc])
  · split at hstep
    · cases hstep
    · cases hstep
      exact exit_frame hlive (by simp [Worker.live, hpc]) rfl (by simp [hpc])
  · cases hstep
    exact notify_frame (by simp [Worker.live, hpc]) (by simp [hpc])
  · split at hstep
    · cases hstep
    · cases hstep
      exact exit_frame hlive (by simp [Worker.live, hpc]) rfl (by simp [hpc])
  -- termination
  any_goals
    cases hstep
    refine ⟨⟨s.workers i, ?_, rfl⟩, rfl, id, Or.inl rfl, by simp [hpc]⟩
    exact (Function.update_eq_self i s.workers).symm
  · cases hstep

/-! ## Answers -/

variable {g : Nat} {failed done : Bool} {d : DispatcherPc} {w : Worker}

/-- A worker that has paid for the generation has reported on it. -/
theorem WorkerOk.reports (hok : WorkerOk g failed done d w) (hpositive : 0 < g)
    (hdone : ¬done = true) (hcollecting : d.collecting = true) (howes : w.owes g = 0) :
    failed = true ∨ w.Reports g := by
  have hposition := hok.position
  have hreport := hok.report hcollecting
  have hleaving := hok.leaving
  cases hpc : w.pc <;>
    simp only [Worker.Position, Worker.Report, Worker.owes, hpc] at hposition hreport howes hleaving
  case starting | joining | startupFailed | reporting => omega
  case running | refused | caught | failing | recording | publishing | exitPublishing => cases howes
  case atLoop | asleep | notifying | unwinding =>
    split at howes
    · cases howes
    · rename_i hlt
      rwa [if_neg hlt] at hreport
  case exitRecording generationPending =>
    cases generationPending with
    | true => cases howes
    | false => exact hreport rfl
  case leaving => exact absurd (hleaving trivial) hdone
  case exitNotifying | exited => exact hreport

/-- The counter of live workers is right. -/
def Counted (s : State n) : Prop := s.liveWorkers = total Worker.live s.workers

theorem Counted.live_le (h : Counted s) (i : Fin n) : (s.workers i).live ≤ s.liveWorkers := by
  rw [h]
  exact le_total _ _ _

theorem workerStep_counted (h : Counted s) {move : Move} (hstep : workerStep s i move = some t) :
    Counted t := by
  obtain ⟨w, hworkers, hlive⟩ := (workerStep_frame (h.live_le i) hstep).workers
  have htotal := total_update Worker.live s.workers i w
  unfold Counted at h ⊢
  rw [hworkers]
  omega

theorem dispatcherStep_counted (h : Counted s) {move : DispatcherMove}
    (hstep : dispatcherStep s move = some t) : Counted t := by
  unfold dispatcherStep at hstep
  split at hstep
  all_goals first
    | (cases hstep; exact h)
    | (cases hstep; exact Eq.trans h (total_congr fun _ => live_notify).symm)
    | skip
  · split at hstep
    · cases hstep
      exact h
    · cases hstep
  · cases hstep

/-- A call ends with an answer about the generation only at the wait. -/
theorem step_finished (h : Counted s) {action : Action n} {result : DispatchResult}
    (hstep : step s action = some t) (hmoved : s.dispatcher ≠ t.dispatcher)
    (hresult : t.dispatcher = .finished result) (hfalse : result ≠ .returned false)
    (hthrew : result ≠ .threw) :
    s.dispatcher = .waiting ∧ n ≤ s.workersFinished ∧ dispatchResult s = result := by
  unfold step at hstep
  split at hstep
  · cases hstep
  · cases action with
    | worker i move =>
      obtain hsame | ⟨-, hwaiting⟩ := (workerStep_frame (h.live_le i) hstep).dispatcher
      · exact absurd hsame.symm hmoved
      · rw [hwaiting] at hresult
        cases hresult
    | dispatcher move =>
      dsimp only at hstep
      unfold dispatcherStep at hstep
      split at hstep
      all_goals rename_i hd
      case h_8 =>
        cases hstep
        dsimp only at hresult
        split at hresult
        · rename_i hall
          exact ⟨hd, hall, DispatcherPc.finished.inj hresult⟩
        · cases hresult
      case h_1 =>
        split at hstep
        · cases hstep
          dsimp only at hresult
          split at hresult <;> cases hresult
        · cases hstep
      case h_2 | h_3 =>
        cases hstep
        dsimp only at hresult
        split_ifs at hresult
        all_goals cases hresult
        all_goals first | exact absurd rfl hthrew | exact absurd rfl hfalse
      case h_4 =>
        cases hstep
        cases hresult
        exact absurd rfl hthrew
      all_goals cases hstep
      all_goals cases hresult
    | wakeWorker i =>
      dsimp only at hstep
      split at hstep
      · cases hstep
        exact absurd rfl hmoved
      · cases hstep
    | wakeDispatcher =>
      dsimp only at hstep
      split at hstep
      · rename_i hasleep
        cases hstep
        simp [State.notifyDispatcher, hasleep] at hresult
      · cases hstep

/-! ## Refusals -/

/-- A failure is recorded or a worker has gone, and no call is past its check. -/
structure Refusing (s : State n) : Prop where
  counted : Counted s
  cause : s.workerFailed = true ∨ ∃ i, (s.workers i).pc = .exited
  free : s.workMutexHeld = false

theorem Refusing.check (h : Refusing s) : s.workerFailed = true ∨ s.liveWorkers ≠ n := by
  refine h.cause.imp id fun ⟨i, hi⟩ hall => ?_
  have hlive := total_eq_card (fun _ => Worker.live_le)
    (h.counted.symm.trans hall) i
  simp [Worker.live, hi] at hlive

theorem Refusing.workerStep (h : Refusing s) {move : Move} (hstep : workerStep s i move = some t) :
    Refusing t ∧ t.workGeneration = s.workGeneration := by
  have hframe := workerStep_frame (h.counted.live_le i) hstep
  obtain ⟨w, hworkers, -⟩ := hframe.workers
  refine ⟨⟨workerStep_counted h.counted hstep, ?_, ?_⟩, hframe.generation⟩
  · refine h.cause.imp hframe.failed fun ⟨j, hj⟩ => ⟨j, ?_⟩
    have hne : j ≠ i := by
      rintro rfl
      exact hframe.moves hj
    rwa [hworkers, Function.update_of_ne hne]
  · have hfree := h.free
    unfold State.workMutexHeld at hfree ⊢
    obtain hsame | ⟨-, hwaiting⟩ := hframe.dispatcher
    · rwa [hsame]
    · rw [hwaiting]
      rfl

theorem Refusing.dispatcherStep (h : Refusing s) {move : DispatcherMove}
    (hstep : dispatcherStep s move = some t) :
    Refusing t ∧ t.workGeneration = s.workGeneration := by
  have hcounted := dispatcherStep_counted h.counted hstep
  have hfree := h.free
  have hcheck := h.check
  have hcause := h.cause
  unfold State.workMutexHeld at hfree
  have hwoken : s.workerFailed = true ∨ ∃ i, (s.notifyWorkers.workers i).pc = .exited := by
    refine hcause.imp id fun ⟨i, hi⟩ => ⟨i, ?_⟩
    simp [State.notifyWorkers, hi]
  unfold Coordinator.dispatcherStep at hstep
  split at hstep
  all_goals rename_i hd
  case h_1 =>
    split at hstep
    · cases hstep
      refine ⟨⟨hcounted, hcause, ?_⟩, rfl⟩
      unfold State.workMutexHeld
      split <;> rfl
    · cases hstep
  case h_2 =>
    cases hstep
    refine ⟨⟨hcounted, hcause, ?_⟩, rfl⟩
    unfold State.workMutexHeld
    dsimp only
    split_ifs <;> rfl
  case h_3 =>
    rw [if_pos hcheck] at hstep
    cases hstep
    exact ⟨⟨hcounted, hcause, rfl⟩, rfl⟩
  case h_4 | h_5 | h_6 =>
    rw [hd] at hfree
    cases hfree
  case h_7 | h_12 =>
    cases hstep
    exact ⟨⟨hcounted, hwoken, rfl⟩, rfl⟩
  case h_8 =>
    cases hstep
    refine ⟨⟨hcounted, hcause, ?_⟩, rfl⟩
    unfold State.workMutexHeld
    split <;> rfl
  case h_9 | h_10 | h_11 =>
    cases hstep
    exact ⟨⟨hcounted, hcause, rfl⟩, rfl⟩
  case h_13 => cases hstep

theorem Refusing.next (h : Refusing s) {action : Action n} (hstep : step s action = some t) :
    Refusing t ∧ t.workGeneration = s.workGeneration := by
  unfold step at hstep
  split at hstep
  · cases hstep
  · cases action with
    | worker i move => exact h.workerStep hstep
    | dispatcher move => exact h.dispatcherStep hstep
    | wakeWorker i =>
      dsimp only at hstep
      split at hstep
      · rename_i hpc
        cases hstep
        refine ⟨⟨?_, ?_, h.free⟩, rfl⟩
        · have htotal := total_update Worker.live s.workers i
            { s.workers i with pc := .atLoop }
          have hcounted := h.counted
          have hold : (s.workers i).live = 1 := by simp [Worker.live, hpc]
          have hnew : ({ s.workers i with pc := .atLoop } : Worker).live = 1 := rfl
          unfold Counted at hcounted ⊢
          change s.liveWorkers = total Worker.live (Function.update s.workers i _)
          omega
        · refine h.cause.imp id ?_
          rintro ⟨j, hj⟩
          refine ⟨j, ?_⟩
          have hne : j ≠ i := by
            rintro rfl
            rw [hpc] at hj
            cases hj
          exact (congrArg Worker.pc (Function.update_of_ne hne _ _)).trans hj
      · cases hstep
    | wakeDispatcher =>
      dsimp only at hstep
      split at hstep
      · rename_i hasleep
        cases hstep
        unfold State.notifyDispatcher
        rw [if_pos hasleep]
        exact ⟨⟨h.counted, h.cause, rfl⟩, rfl⟩
      · cases hstep

/-- No continuation of the run starts a generation. -/
theorem Refusing.execute (h : Refusing s) {actions : List (Action n)}
    (hrun : execute step s actions = some t) : t.workGeneration = s.workGeneration := by
  have hkept := execute_invariant (fun _ => True)
    (fun u => Refusing u ∧ u.workGeneration = s.workGeneration)
    (fun u a v _ hu hstep => ⟨(hu.1.next hstep).1, (hu.1.next hstep).2.trans hu.2⟩)
    (fun _ _ => trivial) ⟨h, rfl⟩ hrun
  exact hkept.2

/-! ## The runs -/

theorem Invariant.reports (h : Invariant s) (hd : s.dispatcher = .waiting)
    (hfinished : n ≤ s.workersFinished) (i : Fin n) :
    s.workerFailed = true ∨ (s.workers i).Reports s.workGeneration := by
  have hpositive := h.started (by rw [hd]; rfl)
  exact (h.workers i).reports hpositive (h.not_done (by rw [hd]; nofun) (by rw [hd]; nofun))
    (by rw [hd]; rfl) (h.paid (by rw [hd]; nofun) hpositive hfinished i).1

theorem inputTooLongError_empty : inputTooLongError "" = none := by
  decide

theorem Invariant.sound (h : Invariant s) : Sound s where
  once i := (h.workers i).published_le
  current := by
    split
    · exact h.restarted ‹_›
    · exact h.finished ‹_›
  progress hrunning hd hstuck := by
    obtain ⟨hfinished, hwaiting⟩ := h.progress hd hstuck
    refine ⟨hfinished, { s with dispatcher := .finished (dispatchResult s) }, dispatchResult s, ?_,
      rfl⟩
    simp [step, hrunning, dispatcherStep, hwaiting, hfinished]
  returned action t hstep hmoved hresult i := by
    obtain ⟨hd, hfinished, hanswer⟩ :=
      step_finished h.live hstep hmoved hresult nofun nofun
    unfold dispatchResult at hanswer
    split at hanswer
    · cases hanswer
    · rename_i hfailed
      split at hanswer
      · cases hanswer
      · rename_i hnone
        obtain ⟨hreturned, -⟩ | ⟨-, htoo⟩ := (h.reports hd hfinished i).resolve_left hfailed
        · exact hreturned
        · -- an error with the marker would have been found
          have hmiss := List.findSome?_eq_none_iff.1 hnone i (List.mem_finRange i)
          rw [hmiss] at htoo
          cases htoo
  tooLong action t text hstep hmoved hresult := by
    obtain ⟨hd, hfinished, hanswer⟩ :=
      step_finished h.live hstep hmoved hresult nofun nofun
    unfold dispatchResult at hanswer
    split at hanswer
    · cases hanswer
    · rename_i hfailed
      refine ⟨Bool.eq_false_of_not_eq_true hfailed, ?_⟩
      split at hanswer
      · rename_i hsome
        obtain rfl := DispatchResult.inputTooLong.inj hanswer
        obtain ⟨i, -, herror⟩ := List.exists_of_findSome?_eq_some hsome
        obtain ⟨-, hempty⟩ | ⟨hraised, -⟩ := (h.reports hd hfinished i).resolve_left hfailed
        · rw [hempty, inputTooLongError_empty] at herror
          cases herror
        · exact ⟨i, _, hraised, herror⟩
      · cases hanswer
  refused hcause hfree _ _ hrun := Refusing.execute ⟨h.live, hcause, hfree⟩ hrun

/-- In every run in which no call inside an inner `catch` throws, every state
reached is sound. -/
theorem dispatch_sound {actions : List (Action n)}
    (hquiet : ∀ i, Action.worker i .handlerThrows ∉ actions)
    (hrun : execute step (State.init n) actions = some s) : Sound s :=
  (init_invariant.execute hquiet hrun).sound

/-- One rank starts and is handed a request. -/
def handedOver : List (Action 1) :=
  [.worker 0 .proceed, .worker 0 .proceed, .dispatcher .proceed, .dispatcher (.call false true),
    .dispatcher .proceed, .dispatcher .proceed, .dispatcher .proceed, .dispatcher .proceed,
    .worker 0 .proceed]

/-- The request is handled and the call returns. -/
def handled : List (Action 1) :=
  handedOver ++ [.worker 0 (.returned true), .worker 0 .proceed, .dispatcher .proceed]

theorem dispatch_sound_handled : ∃ s, execute step (State.init 1) handled = some s ∧
    s.dispatcher = .finished (.returned true) ∧ Sound s := by
  have hquiet : ∀ i, Action.worker i .handlerThrows ∉ handled := by decide
  exact ⟨_, rfl, rfl, dispatch_sound hquiet rfl⟩

/-- The request throws and so does the first call of the `catch`: the worker
leaves without a completion, the dispatcher stays blocked. -/
theorem lost_completion : ∃ s, execute step (State.init 1)
      (handedOver ++ [.worker 0 (.throws (some "error")), .worker 0 .handlerThrows,
        .worker 0 .proceed, .worker 0 .proceed, .dispatcher .proceed]) = some s ∧
    s.dispatcher = .asleep ∧ (∀ i move, workerStep s i move = none) ∧ s.workersFinished = 0 ∧
    ¬Sound s := by
  have hstuck : ∀ {s : State 1}, (s.workers 0).pc = .exited →
      ∀ i move, workerStep s i move = none := by
    intro s hpc i move
    obtain rfl : i = 0 := Subsingleton.elim i 0
    unfold workerStep
    dsimp only
    rw [hpc]
  refine ⟨_, rfl, rfl, hstuck rfl, rfl, fun hsound => ?_⟩
  have hfinished := (hsound.progress rfl (Or.inr rfl) (hstuck rfl)).1
  cases hfinished

end Progress

end EdgeLLM.Ports.Coordinator
