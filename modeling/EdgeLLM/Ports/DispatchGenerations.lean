import EdgeLLM.Ports.RequestDispatch

/-!
# Generations and completions

While the dispatcher collects the completions of a generation, each worker has
published its completion for it or still owes it.  A worker owes one from the
bump of the generation until it publishes, whatever happens in between: it may
be about to take the generation, be handling it, or be leaving its loop.

An exception inside an inner `catch` breaks this.  The outer `catch` compares
generations to learn whether a completion is owed, and the worker has already
taken the current one.
-/

namespace EdgeLLM.Ports.Coordinator

open Verified

/-! ## Debts -/

/-- The worker counts in `mLiveWorkers`. -/
def Worker.live (w : Worker) : Nat :=
  match w.pc with
  | .starting | .joining | .startupFailed | .reporting => 0
  | .exitRecording _ | .exitPublishing | .exitNotifying | .exited => 0
  | _ => 1

/-- The worker owes a completion for generation `g`. -/
def Worker.owes (g : Nat) (w : Worker) : Nat :=
  match w.pc with
  | .atLoop | .asleep | .notifying | .unwinding => if w.localGeneration < g then 1 else 0
  | .running | .refused | .caught _ | .failing _ | .recording | .publishing => 1
  | .exitRecording generationPending => if generationPending then 1 else 0
  | .exitPublishing => 1
  | _ => 0

/-- The completions published for generation `g`. -/
def Worker.published (g : Nat) (w : Worker) : Nat := w.completed.count g

/-- Where `localGeneration` stands, the last generation bumped being `g`. -/
def Worker.Position (g : Nat) (w : Worker) : Prop :=
  match w.pc with
  | .starting | .joining | .startupFailed | .reporting => g = 0 ∧ w.localGeneration = 0
  | .atLoop | .asleep | .notifying | .unwinding =>
    w.localGeneration = g ∨ w.localGeneration + 1 = g
  | .running | .refused | .caught _ | .failing _ | .recording | .publishing =>
    w.localGeneration = g
  | .exitRecording generationPending => generationPending = true → w.localGeneration + 1 = g
  | .exitPublishing => w.localGeneration + 1 = g
  | .leaving | .exitNotifying | .exited => True

/-- The request was handled, or is too long and the error says so. -/
def Worker.Reports (g : Nat) (w : Worker) : Prop :=
  ((g, Outcome.returned true) ∈ w.outcomes ∧ w.error = "") ∨
    ((g, Outcome.raised (some w.error)) ∈ w.outcomes ∧ (inputTooLongError w.error).isSome)

/-- What the task buffers say of generation `g`. -/
def Worker.Report (g : Nat) (failed : Bool) (w : Worker) : Prop :=
  match w.pc with
  | .running => w.error = ""
  | .caught thrown => (g, Outcome.raised thrown) ∈ w.outcomes
  | .atLoop | .asleep | .notifying | .unwinding =>
    if w.localGeneration < g then w.error = "" else failed = true ∨ w.Reports g
  | .publishing => failed = true ∨ w.Reports g
  | .exitPublishing => failed = true
  | .exitRecording generationPending => generationPending = false → failed = true ∨ w.Reports g
  | .exitNotifying | .exited => failed = true ∨ w.Reports g
  | _ => True

/-- The dispatcher waits for the completions of the generation it bumped. -/
def DispatcherPc.collecting : DispatcherPc → Bool
  | .notifying | .waiting | .asleep => true
  | _ => false

/-! ## The invariant -/

/-- What holds of each worker. -/
structure WorkerOk (g : Nat) (failed done : Bool) (d : DispatcherPc) (w : Worker) : Prop where
  account : w.owes g + w.published g = if g = 0 then 0 else 1
  past : ∀ k ∈ w.completed, k ≤ g
  position : w.Position g
  quiet : d.collecting = false → w.owes g = 0
  leaving : w.pc = .leaving → done = true
  awake : w.pc = .asleep → d ≠ .notifying → w.owes g = 0
  cleared : d = .reset → w.error = ""
  report : d.collecting = true → w.Report g failed

/-- What holds of every state reached. -/
structure Invariant {n : Nat} (s : State n) : Prop where
  workers : ∀ i, WorkerOk s.workGeneration s.workerFailed s.workersDone s.dispatcher (s.workers i)
  live : s.liveWorkers = total Worker.live s.workers
  finished : s.dispatcher ≠ .reset →
    s.workersFinished = total (Worker.published s.workGeneration) s.workers
  restarted : s.dispatcher = .reset → s.workersFinished = 0
  held : s.workMutexHeld = true → s.liveWorkers = n
  done : s.workersDone = true → s.dispatcher = .stopping ∨ s.dispatcher = .stopped
  started : s.dispatcher.collecting = true → 0 < s.workGeneration
  sleeping : s.dispatcher = .asleep → s.workersFinished < n ∨
    ∃ i, (s.workers i).pc = .notifying ∨ (s.workers i).pc = .exitNotifying

section Workers

variable {n : Nat} {s t : State n} {i : Fin n} {g : Nat} {failed done : Bool} {d : DispatcherPc}
variable {w : Worker}

theorem Worker.Report.mono {failed' : Bool} (hfailed : failed = true → failed' = true)
    (h : w.Report g failed) : w.Report g failed' := by
  unfold Worker.Report at h ⊢
  cases hpc : w.pc <;> simp only [hpc] at h ⊢
  case running => exact h
  case caught thrown => exact h
  case atLoop | asleep | notifying | unwinding =>
    by_cases hlt : w.localGeneration < g
    · rwa [if_pos hlt] at h ⊢
    · rw [if_neg hlt] at h ⊢
      exact h.imp_left hfailed
  case publishing | exitNotifying | exited => exact h.imp_left hfailed
  case exitPublishing => exact hfailed h
  case exitRecording generationPending => exact fun hp => (h hp).imp_left hfailed

theorem WorkerOk.mono {failed' : Bool} (hfailed : failed = true → failed' = true)
    (h : WorkerOk g failed done d w) : WorkerOk g failed' done d w :=
  { h with report := fun hd => (h.report hd).mono hfailed }

theorem WorkerOk.published_le (h : WorkerOk g failed done d w) : w.published g ≤ 1 := by
  have haccount := h.account
  split at haccount <;> omega

/-- A move of one worker keeps the invariant when it keeps that worker's part
of it and the counters follow. -/
theorem Invariant.move (h : Invariant s) {w : Worker}
    (hworkers : t.workers = Function.update s.workers i w)
    (hgeneration : t.workGeneration = s.workGeneration) (hdispatcher : t.dispatcher = s.dispatcher)
    (hfailed : s.workerFailed = true → t.workerFailed = true)
    (hdone : t.workersDone = s.workersDone)
    (hok : WorkerOk s.workGeneration t.workerFailed s.workersDone s.dispatcher w)
    (hlive : t.liveWorkers + (s.workers i).live = s.liveWorkers + w.live)
    (hheld : s.workMutexHeld = true → t.liveWorkers = s.liveWorkers)
    (hfinished : t.workersFinished + (s.workers i).published s.workGeneration =
      s.workersFinished + w.published s.workGeneration)
    (hsleeping : s.dispatcher = .asleep → t.workersFinished < n ∨
      ∃ j, (t.workers j).pc = .notifying ∨ (t.workers j).pc = .exitNotifying) : Invariant t := by
  have hlive' := total_update Worker.live s.workers i w
  have hpublished := total_update (Worker.published s.workGeneration) s.workers i w
  have hworkersOk : ∀ j, WorkerOk s.workGeneration t.workerFailed s.workersDone s.dispatcher
      (t.workers j) := by
    intro j
    rw [hworkers]
    by_cases hj : j = i
    · subst hj
      rw [Function.update_self]
      exact hok
    · rw [Function.update_of_ne hj]
      exact (h.workers j).mono hfailed
  constructor
  · rw [hgeneration, hdispatcher, hdone]
    exact hworkersOk
  · rw [hworkers]
    have := h.live
    omega
  · intro hreset
    rw [hdispatcher] at hreset
    have := h.finished hreset
    rw [hworkers, hgeneration]
    omega
  · intro hreset
    rw [hdispatcher] at hreset
    -- nobody owes a completion, so this worker published none
    have hzero := h.restarted hreset
    have hquiet : s.dispatcher.collecting = false := by rw [hreset]; rfl
    have hold := (h.workers i).account
    rw [(h.workers i).quiet hquiet] at hold
    have hnew := hok.account
    rw [hok.quiet hquiet] at hnew
    omega
  · intro hmutex
    have hmutex' : s.workMutexHeld = true := by
      unfold State.workMutexHeld at hmutex ⊢
      rwa [hdispatcher] at hmutex
    rw [hheld hmutex']
    exact h.held hmutex'
  · rw [hdone, hdispatcher]
    exact h.done
  · rw [hdispatcher, hgeneration]
    exact h.started
  · rw [hdispatcher]
    exact hsleeping

/-! ## Steps of a worker -/

variable {failed' : Bool} {w' : Worker}

/-- A change of a worker that publishes nothing and leaves its debt as it is. -/
theorem WorkerOk.change (hok : WorkerOk g failed done d w) (hcompleted : w'.completed = w.completed)
    (howes : w'.owes g = w.owes g) (hposition : w'.Position g)
    (hleaving : w'.pc = .leaving → done = true)
    (hawake : w'.pc = .asleep → d ≠ .notifying → w'.owes g = 0)
    (hcleared : d = .reset → w'.error = "") (hreport : d.collecting = true → w'.Report g failed') :
    WorkerOk g failed' done d w' where
  account := by
    rw [howes, Worker.published, hcompleted]
    exact hok.account
  past := by
    rw [hcompleted]
    exact hok.past
  position := hposition
  quiet hd := by
    rw [howes]
    exact hok.quiet hd
  leaving := hleaving
  awake := hawake
  cleared := hcleared
  report := hreport

/-- A worker in debt is being waited for. -/
theorem WorkerOk.collecting (hok : WorkerOk g failed done d w) (howes : w.owes g = 1) :
    d.collecting = true := by
  by_contra hd
  have hquiet := hok.quiet (Bool.eq_false_of_not_eq_true hd)
  omega

theorem WorkerOk.ne_reset (hok : WorkerOk g failed done d w) (howes : w.owes g = 1) :
    d ≠ .reset := by
  rintro rfl
  have hcollecting := hok.collecting howes
  cases hcollecting

/-- The worker that is to notify the sleeping dispatcher is another one. -/
theorem Invariant.sleeping_update (h : Invariant s)
    (hnotifying : (s.workers i).pc ≠ .notifying ∧ (s.workers i).pc ≠ .exitNotifying)
    (hasleep : s.dispatcher = .asleep) : s.workersFinished < n ∨
      ∃ j, (Function.update s.workers i w' j).pc = .notifying ∨
        (Function.update s.workers i w' j).pc = .exitNotifying := by
  refine (h.sleeping hasleep).imp id fun ⟨j, hj⟩ => ⟨j, ?_⟩
  have hne : j ≠ i := by
    rintro rfl
    exact hj.elim hnotifying.1 hnotifying.2
  rwa [Function.update_of_ne hne]

/-- A worker that is not about to notify the dispatcher changes; the failure
flag may be raised. -/
theorem Invariant.setWorker (h : Invariant s) {reports : Nat}
    (hok : WorkerOk s.workGeneration failed' s.workersDone s.dispatcher w')
    (hfailed : s.workerFailed = true → failed' = true)
    (hcompleted : w'.completed = (s.workers i).completed) (hlive : w'.live = (s.workers i).live)
    (hnotifying : (s.workers i).pc ≠ .notifying ∧ (s.workers i).pc ≠ .exitNotifying) :
    Invariant { s.setWorker i w' with
      workerFailed := failed', workerStartupReports := reports } := by
  have hpublished : w'.published s.workGeneration = (s.workers i).published s.workGeneration := by
    rw [Worker.published, hcompleted, Worker.published]
  apply Invariant.move (t := { s.setWorker i w' with
    workerFailed := failed', workerStartupReports := reports }) (i := i) (w := w')
    h rfl rfl rfl hfailed rfl hok
  · exact congrArg (s.liveWorkers + ·) hlive.symm
  · exact fun _ => rfl
  · exact congrArg (s.workersFinished + ·) hpublished.symm
  · exact h.sleeping_update hnotifying

theorem Invariant.notifyDispatcher (h : Invariant s) :
    Invariant s.notifyDispatcher ∧ s.notifyDispatcher.dispatcher ≠ .asleep ∧
      s.notifyDispatcher.workers = s.workers := by
  unfold State.notifyDispatcher
  split
  · rename_i hasleep
    refine ⟨?_, by simp, rfl⟩
    constructor
    · intro j
      have hj := h.workers j
      rw [hasleep] at hj
      exact { hj with
              quiet := nofun
              awake := fun hpc _ => hj.awake hpc nofun
              cleared := nofun
              report := fun _ => hj.report rfl }
    · exact h.live
    · intro _
      exact h.finished (by rw [hasleep]; nofun)
    · nofun
    · nofun
    · intro hdone
      have := h.done hdone
      rw [hasleep] at this
      simp at this
    · intro _
      exact h.started (by rw [hasleep]; rfl)
    · nofun
  · rename_i hawake
    exact ⟨h, hawake, rfl⟩

theorem Invariant.terminate (h : Invariant s) : Invariant { s with terminated := true } :=
  ⟨h.workers, h.live, h.finished, h.restarted, h.held, h.done, h.started, h.sleeping⟩

/-- Publishing pays the debt. -/
theorem Invariant.publish (h : Invariant s) {onLast next : WorkerPc} {generation : Nat}
    (hgeneration : generation = s.workGeneration) (howes : (s.workers i).owes s.workGeneration = 1)
    (hlast : onLast = .notifying ∨ onLast = .exitNotifying)
    (hnext : ∀ pc completed, pc = onLast ∨ pc = next →
      let w := { s.workers i with pc := pc, completed := completed }
      w.owes s.workGeneration = 0 ∧ w.Position s.workGeneration ∧ w.pc ≠ .leaving ∧
        w.Report s.workGeneration s.workerFailed ∧ w.live = (s.workers i).live) :
    Invariant (publishWorkerCompletion s i generation onLast next) := by
  subst hgeneration
  have hw := h.workers i
  have haccount := hw.account
  have hcollecting := hw.collecting howes
  have hpos := h.started hcollecting
  rw [if_neg (by omega), howes] at haccount
  unfold publishWorkerCompletion
  set pc : WorkerPc := if s.workersFinished + 1 = n then onLast else next with hpc
  have hcase : pc = onLast ∨ pc = next := by
    rw [hpc]
    split
    · exact Or.inl rfl
    · exact Or.inr rfl
  obtain ⟨howes', hposition, hleaving, hreport, hlive⟩ :=
    hnext pc (s.workGeneration :: (s.workers i).completed) hcase
  have hpublished : ({ s.workers i with
      pc := pc, completed := s.workGeneration :: (s.workers i).completed } : Worker).published
      s.workGeneration = (s.workers i).published s.workGeneration + 1 := by
    unfold Worker.published
    rw [List.count_cons_self]
  let w : Worker :=
    { s.workers i with pc := pc, completed := s.workGeneration :: (s.workers i).completed }
  apply Invariant.move (t := { s.setWorker i w with workersFinished := s.workersFinished + 1 })
    (i := i) (w := w) h rfl rfl rfl id rfl
  · constructor
    · rw [howes', hpublished, if_neg (by omega)]
      omega
    · intro k hk
      obtain rfl | hk := List.mem_cons.1 hk
      · exact Nat.le_refl _
      · exact hw.past k hk
    · exact hposition
    · exact fun _ => howes'
    · exact fun hpc' => absurd hpc' hleaving
    · exact fun _ _ => howes'
    · exact fun hreset => absurd hreset (hw.ne_reset howes)
    · exact fun _ => hreport
  · rw [hlive]
    rfl
  · exact fun _ => rfl
  · rw [hpublished]
    change s.workersFinished + 1 + _ = _
    omega
  · intro hasleep
    by_cases hall : s.workersFinished + 1 = n
    · right
      refine ⟨i, ?_⟩
      simp only [State.setWorker, Function.update_self]
      change pc = .notifying ∨ pc = .exitNotifying
      rw [hpc, if_pos hall]
      exact hlast
    · left
      change s.workersFinished + 1 < n
      have hle : s.workersFinished + 1 ≤ n := by
        have hfinished := h.finished (hw.ne_reset howes)
        have hone := total_eq_card fun j => (h.workers j).published_le
        have hle := total_le_card fun j => (h.workers j).published_le
        by_contra hlt
        have hzero := hone (by omega) i
        omega
      omega

theorem Invariant.takeGeneration (h : Invariant s) (hpc : (s.workers i).pc = .atLoop) :
    Invariant (takeGeneration s i) := by
  have hw := h.workers i
  have hposition := hw.position
  have hreport := hw.report
  simp only [Worker.Position, Worker.Report, hpc] at hposition hreport
  have howes : (s.workers i).owes s.workGeneration =
      if (s.workers i).localGeneration < s.workGeneration then 1 else 0 := by
    simp [Worker.owes, hpc]
  unfold Coordinator.takeGeneration
  dsimp only
  split
  · rename_i hdone
    -- the coordinator is being destroyed, no generation is collected
    have hquiet : s.dispatcher.collecting = false := by
      obtain hstopping | hstopped := h.done hdone
      · rw [hstopping]
        rfl
      · rw [hstopped]
        rfl
    refine h.setWorker (hw.change rfl ?_ trivial (fun _ => hdone) nofun hw.cleared ?_) id rfl ?_ ?_
    · rw [hw.quiet hquiet]
      rfl
    · simp [Worker.Report]
    · simp [Worker.live, hpc]
    · simp [hpc]
  · split
    · rename_i hlt
      rw [if_pos hlt] at howes
      refine h.setWorker (hw.change rfl ?_ rfl nofun nofun hw.cleared ?_) id rfl ?_ ?_
      · rw [howes]
        rfl
      · intro hcollecting
        have herror := hreport hcollecting
        rwa [if_pos hlt] at herror
      · simp [Worker.live, hpc]
      · simp [hpc]
    · rename_i hlt
      rw [if_neg hlt] at howes
      have howes' : ({ s.workers i with pc := .asleep } : Worker).owes s.workGeneration = 0 := by
        simp [Worker.owes, hlt]
      refine h.setWorker (hw.change rfl ?_ hposition nofun (fun _ _ => howes') hw.cleared ?_) id
        rfl ?_ ?_
      · rw [howes, howes']
      · exact hreport
      · simp [Worker.live, hpc]
      · simp [hpc]

/-- The exception of a `try` block is remembered. -/
theorem Invariant.raise (h : Invariant s) {thrown : Thrown}
    (hpc : (s.workers i).pc = .running ∨ (s.workers i).pc = .refused ∨
      (s.workers i).pc = .failing false) : Invariant (raise s i thrown) := by
  have hw := h.workers i
  have hposition : (s.workers i).localGeneration = s.workGeneration := by
    have hposition := hw.position
    obtain hpc | hpc | hpc := hpc <;> simpa only [Worker.Position, hpc] using hposition
  have howes : (s.workers i).owes s.workGeneration = 1 := by
    obtain hpc | hpc | hpc := hpc <;> simp [Worker.owes, hpc]
  have hlive : (s.workers i).live = 1 := by
    obtain hpc | hpc | hpc := hpc <;> simp [Worker.live, hpc]
  refine h.setWorker (hw.change rfl ?_ hposition nofun nofun hw.cleared ?_) id rfl ?_ ?_
  · rw [howes]
    rfl
  · intro _
    exact hposition ▸ List.mem_cons_self
  · rw [hlive]
    rfl
  · obtain hpc | hpc | hpc := hpc <;> simp [hpc]

/-- Only the error of an input that is too long goes unrecorded. -/
theorem Invariant.handleThrown (h : Invariant s) {thrown : Thrown}
    (hpc : (s.workers i).pc = .caught thrown) : Invariant (handleThrown s i thrown) := by
  have hw := h.workers i
  have hposition := hw.position
  have hreport := hw.report
  have howes : (s.workers i).owes s.workGeneration = 1 := by
    simp [Worker.owes, hpc]
  simp only [Worker.Position, Worker.Report, hpc] at hposition hreport
  have hreset := hw.ne_reset howes
  have hlive : (s.workers i).live = 1 := by
    simp [Worker.live, hpc]
  unfold Coordinator.handleThrown
  dsimp only
  refine h.setWorker (hw.change rfl ?_ ?_ ?_ ?_ (fun h => absurd h hreset) ?_) id rfl ?_ ?_
  · rw [howes]
    split <;> rfl
  · split <;> exact hposition
  · split <;> nofun
  · split <;> nofun
  · intro hcollecting
    split
    · rename_i htoo
      obtain ⟨hsome, htoo⟩ := htoo
      obtain ⟨text, rfl⟩ := Option.isSome_iff_exists.1 hsome
      exact Or.inr (Or.inr ⟨hreport hcollecting, htoo⟩)
    · trivial
  · rw [hlive]
    split <;> rfl
  · simp [hpc]

theorem Invariant.notified (h : Invariant s) (hawake : s.dispatcher ≠ .asleep)
    (hpc : (s.workers i).pc = .notifying) : Invariant (s.goto i .atLoop) := by
  have hw := h.workers i
  have hposition := hw.position
  have hreport := hw.report
  simp only [Worker.Position, Worker.Report, hpc] at hposition hreport
  refine h.move rfl rfl rfl id rfl (i := i) (w := { s.workers i with pc := .atLoop })
    (hw.change rfl ?_ hposition nofun nofun hw.cleared hreport) ?_ (fun _ => rfl) rfl
    (fun hasleep => absurd hasleep hawake)
  · simp [Worker.owes, hpc]
  · exact congrArg (s.liveWorkers + ·) (by simp [Worker.live, hpc])

theorem Invariant.exitNotified (h : Invariant s) (hawake : s.dispatcher ≠ .asleep)
    (hpc : (s.workers i).pc = .exitNotifying) : Invariant (s.goto i .exited) := by
  have hw := h.workers i
  have hreport := hw.report
  simp only [Worker.Report, hpc] at hreport
  refine h.move rfl rfl rfl id rfl (i := i) (w := { s.workers i with pc := .exited })
    (hw.change rfl ?_ trivial nofun nofun hw.cleared hreport) ?_ (fun _ => rfl) rfl
    (fun hasleep => absurd hasleep hawake)
  · simp [Worker.owes, hpc]
  · exact congrArg (s.liveWorkers + ·) (by simp [Worker.live, hpc])

theorem Invariant.exit (h : Invariant s)
    (hok : WorkerOk s.workGeneration s.workerFailed s.workersDone s.dispatcher w')
    (hfree : ¬s.workMutexHeld = true) (hcompleted : w'.completed = (s.workers i).completed)
    (hlive : (s.workers i).live = 1) (hlive' : w'.live = 0)
    (hnotifying : (s.workers i).pc ≠ .notifying ∧ (s.workers i).pc ≠ .exitNotifying) :
    Invariant { s.setWorker i w' with liveWorkers := s.liveWorkers - 1 } := by
  apply Invariant.move (t := { s.setWorker i w' with liveWorkers := s.liveWorkers - 1 }) (i := i)
    (w := w') h rfl rfl rfl id rfl hok
  · have hle := le_total Worker.live s.workers i
    rw [← h.live, hlive] at hle
    rw [hlive, hlive']
    exact Nat.sub_add_cancel hle
  · exact fun hheld => absurd hheld hfree
  · rw [Worker.published, Worker.published, hcompleted]
    rfl
  · exact h.sleeping_update hnotifying

/-- No step of a worker breaks the invariant, except a throw in an inner `catch`. -/
theorem workerStep_invariant (h : Invariant s) {move : Move} (hmove : move ≠ .handlerThrows)
    (hstep : workerStep s i move = some t) : Invariant t := by
  have hw := h.workers i
  have hposition := hw.position
  have hreport := hw.report
  have hpositive := h.started
  unfold workerStep at hstep
  dsimp only at hstep
  split at hstep
  all_goals rename_i hpc
  all_goals simp only [Worker.Position, Worker.Report, hpc] at hposition hreport
  -- startup
  · cases hstep
    refine h.setWorker (hw.change rfl ?_ hposition nofun nofun hw.cleared ?_) id rfl ?_ ?_
    all_goals simp [Worker.owes, Worker.live, Worker.Report, hpc]
  · cases hstep
    refine h.setWorker (hw.change rfl ?_ hposition nofun nofun hw.cleared ?_) id rfl ?_ ?_
    all_goals simp [Worker.owes, Worker.live, Worker.Report, hpc]
  · split at hstep
    · cases hstep
    · rename_i hfree
      cases hstep
      refine h.move rfl rfl rfl id rfl (i := i) (w := { s.workers i with pc := .atLoop })
        (hw.change rfl ?_ ?_ nofun nofun hw.cleared ?_) ?_ ?_ rfl (h.sleeping_update ?_)
      · simp [Worker.owes, hpc, hposition]
      · exact Or.inl (hposition.2.trans hposition.1.symm)
      · intro hcollecting
        have := hpositive hcollecting
        omega
      · simp [Worker.live, hpc]
      · exact fun hheld => absurd hheld hfree
      · simp [hpc]
  · cases hstep
    refine h.setWorker (hw.change rfl ?_ hposition nofun nofun hw.cleared ?_) (fun _ => rfl) rfl
      ?_ ?_
    all_goals simp [Worker.owes, Worker.live, Worker.Report, hpc]
  · split at hstep
    · cases hstep
    · cases hstep
      refine h.setWorker (hw.change rfl ?_ trivial nofun nofun hw.cleared ?_) id rfl ?_ ?_
      · simp [Worker.owes, hpc]
      · intro hcollecting
        have := hpositive hcollecting
        omega
      · simp [Worker.live, hpc]
      · simp [hpc]
  -- the loop
  · split at hstep
    · cases hstep
    · cases hstep
      exact h.takeGeneration hpc
  · cases hstep
    refine h.setWorker (hw.change rfl ?_ hposition nofun nofun hw.cleared hreport) id rfl ?_ ?_
    all_goals simp [Worker.owes, Worker.live, hpc]
  -- the `try` block
  · cases hstep
    refine h.setWorker (hw.change rfl ?_ hposition nofun nofun hw.cleared ?_) id rfl ?_ ?_
    · simp [Worker.owes, hpc]
    · intro hcollecting
      exact Or.inr (Or.inl ⟨hposition ▸ List.mem_cons_self, hreport hcollecting⟩)
    · simp [Worker.live, hpc]
    · simp [hpc]
  · cases hstep
    refine h.setWorker (hw.change rfl ?_ hposition nofun nofun hw.cleared ?_) id rfl ?_ ?_
    all_goals simp [Worker.owes, Worker.live, Worker.Report, hpc]
  · cases hstep
    exact h.raise (Or.inl hpc)
  · cases hstep
    have howes : (s.workers i).owes s.workGeneration = 1 := by simp [Worker.owes, hpc]
    refine h.setWorker (hw.change rfl ?_ hposition nofun nofun
      (fun hreset => absurd hreset (hw.ne_reset howes)) ?_) id rfl ?_ ?_
    all_goals simp [Worker.owes, Worker.live, Worker.Report, hpc]
  · cases hstep
    exact h.raise (Or.inr (Or.inl hpc))
  -- the inner `catch`
  · cases hstep
    exact h.handleThrown hpc
  · exact absurd rfl hmove
  · cases hstep
    refine h.setWorker (hw.change rfl ?_ hposition nofun nofun hw.cleared ?_) id rfl ?_ ?_
    all_goals simp [Worker.owes, Worker.live, Worker.Report, hpc]
  · cases hstep
    exact h.raise (Or.inr (Or.inr hpc))
  · exact absurd rfl hmove
  · cases hstep
    refine h.setWorker (hw.change rfl ?_ hposition nofun nofun hw.cleared ?_) (fun _ => rfl) rfl
      ?_ ?_
    all_goals simp [Worker.owes, Worker.live, Worker.Report, hpc]
  -- the completion
  · cases hstep
    have howes : (s.workers i).owes s.workGeneration = 1 := by simp [Worker.owes, hpc]
    have hreports := hreport (hw.collecting howes)
    apply h.publish hposition howes (Or.inl rfl)
    rintro pc completed (rfl | rfl)
    all_goals
      refine ⟨?_, Or.inl hposition, nofun, ?_, ?_⟩
      · simp [Worker.owes, hposition]
      · change if (s.workers i).localGeneration < s.workGeneration then _ else _
        rw [if_neg (by omega)]
        exact hreports
      · simp [Worker.live, hpc]
  · cases hstep
    obtain ⟨hwoken, hawake, hworkers⟩ := h.notifyDispatcher
    exact hwoken.notified hawake (by rw [hworkers, hpc])
  -- the outer `catch`
  · split at hstep
    · cases hstep
    · rename_i hfree
      cases hstep
      refine h.exit (hw.change rfl ?_ ?_ nofun nofun hw.cleared ?_) hfree rfl ?_ rfl ?_
      · simp [Worker.owes, hpc]
      · intro hlt
        have := of_decide_eq_true hlt
        change (s.workers i).localGeneration + 1 = s.workGeneration
        omega
      · intro hcollecting hle
        have hreports := hreport hcollecting
        rwa [if_neg (of_decide_eq_false hle)] at hreports
      · simp [Worker.live, hpc]
      · simp [hpc]
  · rename_i generationPending
    cases hstep
    cases generationPending with
    | true =>
      refine h.setWorker (hw.change rfl ?_ (hposition rfl) nofun nofun hw.cleared ?_)
        (fun _ => rfl) rfl ?_ ?_
      all_goals simp [Worker.owes, Worker.live, Worker.Report, hpc]
    | false =>
      refine h.setWorker (hw.change rfl ?_ trivial nofun nofun hw.cleared ?_)
        (fun _ => rfl) rfl ?_ ?_
      all_goals simp [Worker.owes, Worker.live, Worker.Report, hpc]
  · cases hstep
    have howes : (s.workers i).owes s.workGeneration = 1 := by simp [Worker.owes, hpc]
    have hreports := hreport (hw.collecting howes)
    apply h.publish hposition howes (Or.inr rfl)
    rintro pc completed (rfl | rfl)
    all_goals
      refine ⟨rfl, trivial, nofun, Or.inl hreports, ?_⟩
      simp [Worker.live, hpc]
  · cases hstep
    obtain ⟨hwoken, hawake, hworkers⟩ := h.notifyDispatcher
    exact hwoken.exitNotified hawake (by rw [hworkers, hpc])
  -- the end of the loop
  · split at hstep
    · cases hstep
    · rename_i hfree
      cases hstep
      have hdone := h.done (hw.leaving hpc)
      refine h.exit (hw.change rfl ?_ trivial nofun nofun hw.cleared ?_) hfree rfl ?_ rfl ?_
      · simp [Worker.owes, hpc]
      · intro hcollecting
        obtain hstopping | hstopped := hdone
        · rw [hstopping] at hcollecting
          cases hcollecting
        · rw [hstopped] at hcollecting
          cases hcollecting
      · simp [Worker.live, hpc]
      · simp [hpc]
  all_goals first
    | (cases hstep; exact h.terminate)
    | cases hstep

/-! ## Steps of the dispatcher -/

variable {d' : DispatcherPc}

theorem Worker.live_le : w.live ≤ 1 := by
  unfold Worker.live
  split <;> omega

/-- Nobody owes a completion: the dispatcher goes on outside of a collection. -/
theorem WorkerOk.rest (hok : WorkerOk g failed done d w) (howes : w.owes g = 0)
    (hcollecting : d'.collecting = false) (hreset : d' ≠ .reset) : WorkerOk g failed done d' w :=
  { hok with
    quiet := fun _ => howes
    awake := fun _ _ => howes
    cleared := fun h => absurd h hreset
    report := fun h => by rw [hcollecting] at h; cases h }

/-- The dispatcher moves while no completion is owed. -/
theorem Invariant.rest (h : Invariant s) (howes : ∀ i, (s.workers i).owes s.workGeneration = 0)
    (hwas : s.dispatcher ≠ .reset) (hdone : s.workersDone = true → d' = .stopping ∨ d' = .stopped)
    (hcollecting : d'.collecting = false) (hreset : d' ≠ .reset)
    (hchecked : d' = .checked → s.liveWorkers = n) : Invariant { s with dispatcher := d' } where
  workers i := (h.workers i).rest (howes i) hcollecting hreset
  live := h.live
  finished _ := h.finished hwas
  restarted hd := absurd hd hreset
  held hheld := by
    have hd : d' = .checked ∨ d' = .reset := of_decide_eq_true hheld
    exact hchecked (hd.resolve_right hreset)
  done := hdone
  started hd := by
    rw [hcollecting] at hd
    cases hd
  sleeping hd := by
    change d' = .asleep at hd
    rw [hd] at hcollecting
    cases hcollecting

theorem Invariant.not_done (h : Invariant s) (hd : s.dispatcher ≠ .stopping)
    (hd' : s.dispatcher ≠ .stopped) : ¬s.workersDone = true := by
  intro hdone
  exact (h.done hdone).elim hd hd'

theorem WorkerOk.notify (hok : WorkerOk g failed done d w) :
    WorkerOk g failed done d (if w.pc = .asleep then { w with pc := .atLoop } else w) := by
  split
  · rename_i hpc
    have hposition := hok.position
    have hreport := hok.report
    simp only [Worker.Position, Worker.Report, hpc] at hposition hreport
    refine hok.change rfl ?_ hposition nofun nofun hok.cleared hreport
    simp [Worker.owes, hpc]
  · exact hok

theorem live_notify : (if w.pc = .asleep then { w with pc := .atLoop } else w).live = w.live := by
  split
  · rename_i hpc
    simp [Worker.live, hpc]
  · rfl

theorem published_notify :
    (if w.pc = .asleep then { w with pc := .atLoop } else w).published g = w.published g := by
  split <;> rfl

theorem not_asleep_notify :
    (if w.pc = .asleep then { w with pc := .atLoop } else w).pc ≠ .asleep := by
  split
  · nofun
  · assumption

/-- The buffers of a worker nobody waits for are cleared. -/
theorem WorkerOk.cleared' (hok : WorkerOk g failed done .checked w) (hd' : d' = .reset) :
    WorkerOk g failed done d' { w with status := 0, error := "" } := by
  have howes := hok.quiet rfl
  subst hd'
  exact ⟨hok.account, hok.past, hok.position, fun _ => howes, hok.leaving, fun _ _ => howes,
    fun _ => rfl, nofun⟩

/-- The completions are in: no worker owes one any more. -/
theorem Invariant.paid (h : Invariant s) (hd : s.dispatcher ≠ .reset) (hpositive : 0 < s.workGeneration)
    (hfinished : n ≤ s.workersFinished) (i : Fin n) :
    (s.workers i).owes s.workGeneration = 0 ∧ (s.workers i).published s.workGeneration = 1 := by
  have htotal := h.finished hd
  have hle := total_le_card fun j => (h.workers j).published_le
  have hone := total_eq_card (fun j => (h.workers j).published_le) (by omega) i
  have haccount := (h.workers i).account
  rw [if_neg (by omega)] at haccount
  omega

/-- At the bump of the generation each worker is about to look at it. -/
theorem WorkerOk.bump (hok : WorkerOk g failed false .reset w) (hlive : w.live = 1) :
    WorkerOk (g + 1) failed false .notifying w ∧ w.owes (g + 1) = 1 := by
  have howes := hok.quiet rfl
  have hposition := hok.position
  have herror := hok.cleared rfl
  have hcount : w.published (g + 1) = 0 := by
    apply List.count_eq_zero.2
    intro hmem
    have := hok.past _ hmem
    omega
  have hpc : w.pc = .atLoop ∨ w.pc = .asleep ∨ w.pc = .notifying ∨ w.pc = .unwinding := by
    have hleaving := hok.leaving
    cases hpc : w.pc <;> simp [Worker.live, Worker.owes, hpc] at hlive howes hleaving ⊢
  have hlocal : w.localGeneration = g := by
    obtain hpc | hpc | hpc | hpc := hpc <;>
      simp only [Worker.owes, Worker.Position, hpc, ite_eq_right_iff] at howes hposition <;>
      omega
  have hdebt : w.owes (g + 1) = 1 := by
    obtain hpc | hpc | hpc | hpc := hpc <;> simp [Worker.owes, hpc, hlocal]
  refine ⟨?_, hdebt⟩
  constructor
  · rw [hdebt, hcount, if_neg (Nat.succ_ne_zero g)]
  · intro k hk
    exact Nat.le_succ_of_le (hok.past k hk)
  · obtain hpc | hpc | hpc | hpc := hpc <;> simp [Worker.Position, hpc, hlocal]
  · nofun
  · exact hok.leaving
  · exact fun _ hne => absurd rfl hne
  · nofun
  · intro _
    obtain hpc | hpc | hpc | hpc := hpc <;> simp [Worker.Report, hpc, hlocal, herror]

theorem Invariant.notifyWorkers (h : Invariant s)
    (hok : ∀ i, WorkerOk s.workGeneration s.workerFailed s.workersDone d' (s.notifyWorkers.workers i))
    (hdone : s.workersDone = true → d' = .stopping ∨ d' = .stopped)
    (hwas : s.dispatcher ≠ .reset) (hreset : d' ≠ .reset) (hchecked : d' ≠ .checked)
    (hasleep : d' ≠ .asleep) (hpositive : d'.collecting = true → 0 < s.workGeneration) :
    Invariant { s.notifyWorkers with dispatcher := d' } where
  workers := hok
  live := h.live.trans (total_congr fun _ => live_notify).symm
  finished _ := (h.finished hwas).trans (total_congr fun _ => published_notify).symm
  restarted hd := absurd hd hreset
  held hheld := by
    have hd : d' = .checked ∨ d' = .reset := of_decide_eq_true hheld
    exact absurd hd (not_or_intro hchecked hreset)
  done := hdone
  started := hpositive
  sleeping hd := absurd hd hasleep

theorem Invariant.clearTask (h : Invariant s) (hd : s.dispatcher = .checked) :
    Invariant { clearTask s with workersFinished := 0, dispatcher := .reset } where
  workers i := by
    have hok := h.workers i
    rw [hd] at hok
    exact hok.cleared' rfl
  live := h.live.trans (total_congr fun _ => rfl).symm
  finished hne := absurd rfl hne
  restarted _ := rfl
  held _ := h.held (by rw [State.workMutexHeld, hd]; rfl)
  done hdone := absurd hdone (h.not_done (by rw [hd]; nofun) (by rw [hd]; nofun))
  started := nofun
  sleeping := nofun

theorem Invariant.bump (h : Invariant s) (hd : s.dispatcher = .reset) :
    Invariant { s with workGeneration := s.workGeneration + 1, dispatcher := .notifying } := by
  have hlive : ∀ i, (s.workers i).live = 1 := by
    apply total_eq_card (fun _ => Worker.live_le)
    rw [← h.live]
    exact h.held (by rw [State.workMutexHeld, hd]; rfl)
  have hdone : s.workersDone = false :=
    Bool.eq_false_of_not_eq_true (h.not_done (by rw [hd]; nofun) (by rw [hd]; nofun))
  have hbump : ∀ i, WorkerOk (s.workGeneration + 1) s.workerFailed s.workersDone .notifying
      (s.workers i) ∧ (s.workers i).owes (s.workGeneration + 1) = 1 := by
    intro i
    have hok := h.workers i
    rw [hd, hdone] at hok
    rw [hdone]
    exact hok.bump (hlive i)
  constructor
  · exact fun i => (hbump i).1
  · exact h.live
  · intro _
    have hzero := h.restarted hd
    have htotal : total (Worker.published (s.workGeneration + 1)) s.workers = 0 := by
      apply total_eq_zero.2
      intro j
      have haccount := (hbump j).1.account
      rw [(hbump j).2, if_neg (Nat.succ_ne_zero _)] at haccount
      omega
    exact hzero.trans htotal.symm
  · nofun
  · nofun
  · exact fun hdone' => absurd hdone' (by rw [hdone]; nofun)
  · exact fun _ => Nat.succ_pos _
  · nofun

/-- The dispatcher blocks: not all completions are in. -/
theorem Invariant.block (h : Invariant s) (hd : s.dispatcher = .waiting)
    (hmissing : s.workersFinished < n) : Invariant { s with dispatcher := .asleep } where
  workers i := by
    have hok := h.workers i
    rw [hd] at hok
    exact { hok with
            quiet := nofun
            awake := fun hpc _ => hok.awake hpc nofun
            cleared := nofun
            report := fun _ => hok.report rfl }
  live := h.live
  finished _ := h.finished (by rw [hd]; nofun)
  restarted := nofun
  held := nofun
  done hdone := absurd hdone (h.not_done (by rw [hd]; nofun) (by rw [hd]; nofun))
  started _ := h.started (by rw [hd]; rfl)
  sleeping _ := Or.inl hmissing

theorem Invariant.finish (h : Invariant s) (hd : s.dispatcher = .closing) :
    Invariant { s with workersDone := true, dispatcher := .stopping } where
  workers i := by
    have hok := h.workers i
    have howes := hok.quiet (by rw [hd]; rfl)
    exact { hok with
            quiet := fun _ => howes
            leaving := fun _ => rfl
            awake := fun _ _ => howes
            cleared := nofun
            report := nofun }
  live := h.live
  finished _ := h.finished (by rw [hd]; nofun)
  restarted := nofun
  held := nofun
  done _ := Or.inl rfl
  started := nofun
  sleeping := nofun

/-- Every step of the dispatcher keeps the invariant. -/
theorem dispatcherStep_invariant (h : Invariant s) {move : DispatcherMove}
    (hstep : dispatcherStep s move = some t) : Invariant t := by
  have hquiet : s.dispatcher.collecting = false →
      ∀ i, (s.workers i).owes s.workGeneration = 0 := fun hd i => (h.workers i).quiet hd
  have hdone : s.dispatcher ≠ .stopping → s.dispatcher ≠ .stopped → ∀ {d'}, s.workersDone = true →
      d' = DispatcherPc.stopping ∨ d' = .stopped :=
    fun hd hd' _ hdone => absurd hdone (h.not_done hd hd')
  unfold dispatcherStep at hstep
  split at hstep
  all_goals rename_i hd
  any_goals rw [hd] at hquiet hdone
  -- startup
  · split at hstep
    · cases hstep
      refine h.rest (hquiet rfl) (by rw [hd]; nofun) (hdone nofun nofun) ?_ ?_ ?_
      · split <;> rfl
      · split <;> nofun
      · split <;> nofun
    · cases hstep
  -- the call
  · cases hstep
    refine h.rest (hquiet rfl) (by rw [hd]; nofun) (hdone nofun nofun) ?_ ?_ ?_
    all_goals split
    all_goals try split
    all_goals first | rfl | nofun
  · cases hstep
    refine h.rest (hquiet rfl) (by rw [hd]; nofun) (hdone nofun nofun) ?_ ?_ ?_
    · split <;> rfl
    · split <;> nofun
    · split
      · nofun
      · rename_i hready
        exact fun _ => Decidable.not_not.1 (not_or.1 hready).2
  · cases hstep
    exact h.rest (hquiet rfl) (by rw [hd]; nofun) (hdone nofun nofun) rfl nofun nofun
  · cases hstep
    exact h.clearTask hd
  · cases hstep
    exact h.bump hd
  -- the collection
  · cases hstep
    refine h.notifyWorkers (fun i => ?_) (hdone nofun nofun) (by rw [hd]; nofun) nofun nofun nofun
      (fun _ => h.started (by rw [hd]; rfl))
    have hok := (h.workers i).notify
    rw [hd] at hok
    exact { hok with
            quiet := nofun
            awake := fun hpc => absurd hpc not_asleep_notify
            cleared := nofun
            report := fun _ => hok.report rfl }
  · cases hstep
    split
    · rename_i hall
      have hpaid := h.paid (by rw [hd]; nofun) (h.started (by rw [hd]; rfl)) hall
      exact h.rest (fun i => (hpaid i).1) (by rw [hd]; nofun) (hdone nofun nofun) rfl nofun nofun
    · rename_i hmissing
      exact h.block hd (Nat.lt_of_not_le hmissing)
  · cases hstep
    exact h.rest (hquiet rfl) (by rw [hd]; nofun) (hdone nofun nofun) rfl nofun nofun
  -- destruction
  · cases hstep
    exact h.rest (hquiet rfl) (by rw [hd]; nofun) (hdone nofun nofun) rfl nofun nofun
  · cases hstep
    exact h.finish hd
  · cases hstep
    refine h.notifyWorkers (fun i => ?_) (fun _ => Or.inr rfl) (by rw [hd]; nofun) nofun nofun nofun
      nofun
    have hok := (h.workers i).notify
    exact hok.rest (hok.quiet (by rw [hd]; rfl)) rfl nofun
  · cases hstep

theorem init_invariant : Invariant (State.init n) where
  workers _ := ⟨rfl, nofun, ⟨rfl, rfl⟩, fun _ => rfl, nofun, nofun, nofun, nofun⟩
  live := (total_eq_zero.2 fun _ => rfl).symm
  finished _ := (total_eq_zero.2 fun _ => rfl).symm
  restarted := nofun
  held := nofun
  done := nofun
  started := nofun
  sleeping := nofun

/-- Every step keeps the invariant, except a throw in an inner `catch`. -/
theorem step_invariant (h : Invariant s) {action : Action n}
    (hquiet : ∀ i, action ≠ .worker i .handlerThrows) (hstep : step s action = some t) :
    Invariant t := by
  unfold step at hstep
  split at hstep
  · cases hstep
  · cases action with
    | worker i move =>
      apply workerStep_invariant h _ hstep
      rintro rfl
      exact hquiet i rfl
    | dispatcher move => exact dispatcherStep_invariant h hstep
    | wakeWorker i =>
      dsimp only at hstep
      split at hstep
      · rename_i hpc
        cases hstep
        have hw := h.workers i
        have hposition := hw.position
        have hreport := hw.report
        simp only [Worker.Position, Worker.Report, hpc] at hposition hreport
        refine h.setWorker (hw.change rfl ?_ hposition nofun nofun hw.cleared hreport) id rfl ?_ ?_
        all_goals simp [Worker.owes, Worker.live, hpc]
      · cases hstep
    | wakeDispatcher =>
      dsimp only at hstep
      split at hstep
      · cases hstep
        exact h.notifyDispatcher.1
      · cases hstep

theorem Invariant.execute {as : List (Action n)} (h : Invariant s)
    (hquiet : ∀ i, Action.worker i .handlerThrows ∉ as) (hrun : execute step s as = some t) :
    Invariant t := by
  refine execute_invariant (fun a => ∀ i, a ≠ .worker i .handlerThrows) Invariant
    (fun s a t ha hs hstep => step_invariant hs ha hstep) ?_ h hrun
  rintro a ha i rfl
  exact hquiet i ha

end Workers

end EdgeLLM.Ports.Coordinator
