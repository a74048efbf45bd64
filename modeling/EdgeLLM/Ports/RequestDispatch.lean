import EdgeLLM.Verified.Executions
import EdgeLLM.Verified.WordSearch

/-!
# Dispatching a request to the local ranks

Each local rank has a worker thread.  The dispatcher writes the task, resets
the completion counter and bumps the generation; a worker takes the generation,
handles the request and publishes its completion.  Two mutexes guard this:
`mWorkMutex` the generation and the live workers, `mDoneMutex` the completions
and the failure flag.

A step is one section under a mutex, or one call between two of them.
-/

namespace EdgeLLM.Ports.Coordinator

open Verified

/-- What a `catch` sees: a `std::exception` with its text, or anything else. -/
abbrev Thrown := Option String

/-- How the `try` block of one generation ended. -/
inductive Outcome where
  | returned (succeeded : Bool)
  | raised (thrown : Thrown)

/-- Where a worker thread is. -/
inductive WorkerPc where
  /-- Before `cudaSetDevice`, and after it. -/
  | starting
  | joining
  /-- In the `catch` of the initialisation, before and after `recordWorkerFailure`. -/
  | startupFailed
  | reporting
  /-- At the top of the loop, and blocked on `mWorkCv`. -/
  | atLoop
  | asleep
  /-- In the `try` of a generation, before `handleRequest` returns, and after it
  returned `false`. -/
  | running
  | refused
  /-- In an inner `catch`. -/
  | caught (thrown : Thrown)
  /-- About to call `recordWorkerFailure`, in the `try` or in an inner `catch`. -/
  | failing (inHandler : Bool)
  | recording
  | publishing
  /-- The last completion is published, `mDoneCv` not yet notified. -/
  | notifying
  /-- In an outer `catch`. -/
  | unwinding
  | exitRecording (generationPending : Bool)
  | exitPublishing
  | exitNotifying
  /-- Past the loop, before `mLiveWorkers` is decremented. -/
  | leaving
  | exited
deriving DecidableEq

/-- A worker with the task buffers of its rank.  No step reads `outcomes` and
`completed`: they record, with its generation, how each `try` block ended, and
the generations whose completion was published. -/
structure Worker where
  pc : WorkerPc
  localGeneration : Nat
  status : Nat
  error : String
  outcomes : List (Nat × Outcome)
  completed : List Nat

/-! ## The coordinator -/

/-- How `dispatchRequest` ends. -/
inductive DispatchResult where
  | returned (succeeded : Bool)
  | inputTooLong (text : List Char)
  /-- `prepareRankRequests` threw. -/
  | threw
deriving DecidableEq

/-- Where the dispatcher thread is. -/
inductive DispatcherPc where
  /-- In `startWorkers`, waiting for the reports. -/
  | startup
  | idle
  /-- In `dispatchRequest`, before `mWorkMutex` is locked. -/
  | called
  /-- Holding `mWorkMutex`, before and after `mWorkersFinished` is reset. -/
  | checked
  | reset
  /-- The generation is bumped, `mWorkCv` not yet notified. -/
  | notifying
  /-- At the wait for the completions, and blocked on `mDoneCv`. -/
  | waiting
  | asleep
  | finished (result : DispatchResult)
  /-- In `stopWorkers`, before and after `mWorkersDone` is set. -/
  | closing
  | stopping
  | stopped
deriving DecidableEq

/-- `terminated` once an exception left a thread or a `noexcept` function. -/
structure State (n : Nat) where
  workers : Fin n → Worker
  dispatcher : DispatcherPc
  workGeneration : Nat
  workersFinished : Nat
  workerFailed : Bool
  workersDone : Bool
  liveWorkers : Nat
  workerStartupReports : Nat
  terminated : Bool

namespace State

variable {n : Nat}

/-- Before the workers start. -/
def init (n : Nat) : State n where
  workers _ :=
    { pc := .starting, localGeneration := 0, status := 0, error := "", outcomes := [],
      completed := [] }
  dispatcher := .startup
  workGeneration := 0
  workersFinished := 0
  workerFailed := false
  workersDone := false
  liveWorkers := 0
  workerStartupReports := 0
  terminated := false

/-- The dispatcher holds `mWorkMutex` between two of its steps. -/
def workMutexHeld (s : State n) : Bool :=
  s.dispatcher = .checked ∨ s.dispatcher = .reset

def setWorker (s : State n) (i : Fin n) (w : Worker) : State n :=
  { s with workers := Function.update s.workers i w }

/-- The worker moves to `pc`; nothing else changes. -/
def goto (s : State n) (i : Fin n) (pc : WorkerPc) : State n :=
  s.setWorker i { s.workers i with pc := pc }

/-- `mWorkCv.notify_all` -/
def notifyWorkers (s : State n) : State n :=
  { s with workers := fun i =>
      if (s.workers i).pc = .asleep then { s.workers i with pc := .atLoop } else s.workers i }

/-- `mDoneCv.notify_one` -/
def notifyDispatcher (s : State n) : State n :=
  if s.dispatcher = .asleep then { s with dispatcher := .waiting } else s

end State

/-! ## Steps of a worker -/

/-- What happens next in a worker: the section or call at hand goes through,
`handleRequest` returns, a call throws, or a call inside an inner `catch` throws. -/
inductive Move where
  | proceed
  | returned (succeeded : Bool)
  | throws (thrown : Thrown)
  | handlerThrows
deriving DecidableEq

def tooLongMarker : List Char := "EDGELLM_INPUT_TOO_LONG:".toList

/-- The text from the marker on. -/
def inputTooLongError (error : String) : Option (List Char) :=
  (find tooLongMarker error.toList).map fun position => error.toList.drop position

section WorkerStep

variable {n : Nat}

/-- The `try` of the current generation is left by an exception. -/
def raise (s : State n) (i : Fin n) (thrown : Thrown) : State n :=
  let w := s.workers i
  s.setWorker i { w with
    pc := .caught thrown
    outcomes := (w.localGeneration, .raised thrown) :: w.outcomes }

/-- The section of `publishWorkerCompletion`; the notification follows. -/
def publishWorkerCompletion (s : State n) (i : Fin n) (generation : Nat)
    (onLast next : WorkerPc) : State n :=
  let allWorkersFinished := s.workersFinished + 1 = n
  let w := s.workers i
  { s.setWorker i { w with
      pc := if allWorkersFinished then onLast else next
      completed := generation :: w.completed } with
    workersFinished := s.workersFinished + 1 }

/-- An inner `catch` up to `recordWorkerFailure`: that one is not called for an
input that is too long. -/
def handleThrown (s : State n) (i : Fin n) (thrown : Thrown) : State n :=
  let error := thrown.getD "unknown handleRequest failure"
  let tooLong := thrown.isSome ∧ (inputTooLongError error).isSome
  s.setWorker i { s.workers i with
    status := 0
    error := error
    pc := if tooLong then .publishing else .failing true }

/-- The section at the top of the loop. -/
def takeGeneration (s : State n) (i : Fin n) : State n :=
  let w := s.workers i
  if s.workersDone then s.goto i .leaving
  else if w.localGeneration < s.workGeneration then
    s.setWorker i { w with pc := .running, localGeneration := s.workGeneration }
  else s.goto i .asleep

/-- One step of worker `i`; `none` where it cannot move so. -/
def workerStep (s : State n) (i : Fin n) (move : Move) : Option (State n) :=
  let w := s.workers i
  match w.pc, move with
  | .starting, .proceed => some (s.goto i .joining)
  | .starting, .throws _ => some (s.goto i .startupFailed)
  | .joining, .proceed =>
    if s.workMutexHeld then none
    else some { s.goto i .atLoop with
      workerStartupReports := s.workerStartupReports + 1
      liveWorkers := s.liveWorkers + 1 }
  | .startupFailed, .proceed => some { s.goto i .reporting with workerFailed := true }
  | .reporting, .proceed =>
    if s.workMutexHeld then none
    else some { s.goto i .exited with workerStartupReports := s.workerStartupReports + 1 }
  | .atLoop, .proceed => if s.workMutexHeld then none else some (takeGeneration s i)
  | .atLoop, .throws _ => some (s.goto i .unwinding)
  | .running, .returned true =>
    some (s.setWorker i { w with
      pc := .publishing
      status := 1
      outcomes := (w.localGeneration, .returned true) :: w.outcomes })
  | .running, .returned false =>
    some (s.setWorker i { w with
      pc := .refused
      status := 0
      outcomes := (w.localGeneration, .returned false) :: w.outcomes })
  | .running, .throws thrown => some (raise s i thrown)
  | .refused, .proceed =>
    some (s.setWorker i { w with pc := .failing false, error := "handleRequest returned failure" })
  | .refused, .throws thrown => some (raise s i thrown)
  | .caught thrown, .proceed => some (handleThrown s i thrown)
  | .caught _, .handlerThrows => some (s.goto i .unwinding)
  | .failing _, .proceed => some (s.goto i .recording)
  | .failing false, .throws thrown => some (raise s i thrown)
  | .failing true, .handlerThrows => some (s.goto i .unwinding)
  | .recording, .proceed => some { s.goto i .publishing with workerFailed := true }
  | .publishing, .proceed =>
    some (publishWorkerCompletion s i w.localGeneration .notifying .atLoop)
  | .notifying, .proceed => some (s.notifyDispatcher.goto i .atLoop)
  | .unwinding, .proceed =>
    if s.workMutexHeld then none
    else some { s.goto i (.exitRecording (w.localGeneration < s.workGeneration)) with
      liveWorkers := s.liveWorkers - 1 }
  | .exitRecording generationPending, .proceed =>
    some { s.goto i (if generationPending then .exitPublishing else .exited) with
      workerFailed := true }
  -- the completion is owed for the first generation the worker did not take
  | .exitPublishing, .proceed =>
    some (publishWorkerCompletion s i (w.localGeneration + 1) .exitNotifying .exited)
  | .exitNotifying, .proceed => some (s.notifyDispatcher.goto i .exited)
  | .leaving, .proceed =>
    if s.workMutexHeld then none
    else some { s.goto i .exited with liveWorkers := s.liveWorkers - 1 }
  -- a throw that nothing catches, or that leaves a `noexcept` function
  | .joining, .throws _ | .startupFailed, .throws _ | .reporting, .throws _
  | .recording, .throws _ | .publishing, .throws _ | .notifying, .throws _
  | .unwinding, .throws _ | .exitRecording _, .throws _ | .exitPublishing, .throws _
  | .exitNotifying, .throws _ | .leaving, .throws _ => some { s with terminated := true }
  | _, _ => none

end WorkerStep

/-- What happens next in the dispatcher's thread: its section or call goes
through, `dispatchRequest` is called, `prepareRankRequests` throws, or the
coordinator is destroyed. -/
inductive DispatcherMove where
  | proceed
  | call (boundaryHook prepared : Bool)
  | throws
  | stop
deriving DecidableEq

section DispatcherStep

variable {n : Nat}

/-- What `dispatchRequest` answers once the completions are in. -/
def dispatchResult (s : State n) : DispatchResult :=
  if s.workerFailed then .returned false
  else
    match (List.finRange n).findSome? fun i => inputTooLongError (s.workers i).error with
    | some text => .inputTooLong text
    | none => .returned true

/-- `prepareRankRequests` and the clearing of the errors. -/
def clearTask (s : State n) : State n :=
  { s with workers := fun i => { s.workers i with status := 0, error := "" } }

/-- One step of the dispatcher; `none` where it cannot move so. -/
def dispatcherStep (s : State n) (move : DispatcherMove) : Option (State n) :=
  match s.dispatcher, move with
  | .startup, .proceed =>
    if s.workerStartupReports = n then
      some { s with
        dispatcher := if s.workerFailed = false ∧ s.liveWorkers = n then .idle else .closing }
    else none
  | .idle, .call boundaryHook prepared =>
    some { s with
      dispatcher :=
        if boundaryHook then .finished .threw
        else if s.workerFailed ∨ ¬prepared then .finished (.returned false)
        else .called }
  | .called, .proceed =>
    some { s with
      dispatcher :=
        if s.workerFailed ∨ s.liveWorkers ≠ n then .finished (.returned false) else .checked }
  | .checked, .throws => some { s with dispatcher := .finished .threw }
  | .checked, .proceed =>
    some { clearTask s with workersFinished := 0, dispatcher := .reset }
  | .reset, .proceed =>
    some { s with workGeneration := s.workGeneration + 1, dispatcher := .notifying }
  | .notifying, .proceed => some { s.notifyWorkers with dispatcher := .waiting }
  | .waiting, .proceed =>
    some { s with
      dispatcher := if n ≤ s.workersFinished then .finished (dispatchResult s) else .asleep }
  | .finished _, .proceed => some { s with dispatcher := .idle }
  | .idle, .stop => some { s with dispatcher := .closing }
  | .closing, .proceed => some { s with workersDone := true, dispatcher := .stopping }
  | .stopping, .proceed => some { s.notifyWorkers with dispatcher := .stopped }
  | _, _ => none

end DispatcherStep

/-- Who moves.  A wait on a condition variable may also end by itself. -/
inductive Action (n : Nat) where
  | worker (i : Fin n) (move : Move)
  | dispatcher (move : DispatcherMove)
  | wakeWorker (i : Fin n)
  | wakeDispatcher
deriving DecidableEq

/-- One step of the system; there is none after `std::terminate`. -/
def step {n : Nat} (s : State n) (action : Action n) : Option (State n) :=
  if s.terminated then none
  else
    match action with
    | .worker i move => workerStep s i move
    | .dispatcher move => dispatcherStep s move
    | .wakeWorker i => if (s.workers i).pc = .asleep then some (s.goto i .atLoop) else none
    | .wakeDispatcher => if s.dispatcher = .asleep then some s.notifyDispatcher else none

end EdgeLLM.Ports.Coordinator
