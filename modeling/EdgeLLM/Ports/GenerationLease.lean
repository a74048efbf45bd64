import EdgeLLM.Verified.Executions
import EdgeLLM.Verified.FifoSlot

/-!
# Generation leases of the server

A request reserves a lease, builds the native request in a worker thread, and
then either generates in a worker thread or streams: a thread advances the
native iterator, item by item, for the response that wraps the stream.  The
coroutines await those threads and may be cancelled at every await.

Two admissions grant leases: the controller has one slot and a queue in front
of it, the gate counts.

A step is what the event loop runs between two awaits, or the end of a call in
a thread.
-/

namespace EdgeLLM.Ports.Lease

open Verified

/-! ## One request -/

/-- Where the coroutines of a request are. -/
inductive Pc where
  | arriving
  /-- In `reserve`, at the semaphore. -/
  | waiting
  /-- `reserve` raised. -/
  | refused
  /-- In `prepare_request`: at the shielded worker of `_run_sync`, and at the wait
  for it after a cancellation. -/
  | preparing
  | preparingCancelled
  /-- The same in `generate`. -/
  | generating
  | generatingCancelled
  /-- The response sends while the stream is not started. -/
  | sendingHead
  /-- In `_iterate_sync`: at the shielded `next_task`, and at the wait for both
  threads after a cancellation. -/
  | nexting
  | nextCancelled
  /-- The stream is parked at its `yield`, the response sends. -/
  | parked
  /-- In the `finally` of `stream`, at `_close_stream`. -/
  | closing
  /-- The response sends what follows the stream. -/
  | sendingTail
  /-- The response has ended, the stream is still parked; then it is finalised. -/
  | abandoned
  | finalizing
  | done
deriving DecidableEq

/-- A request with its lease, its threads and its native iterator.  `releases`
counts the calls of the admission's `release`; no step reads it. -/
structure Request where
  streaming : Bool
  pc : Pc
  granted : Bool
  released : Bool
  releases : Nat
  /-- The worker of `_run_sync` runs. -/
  worker : Bool
  /-- The thread of `next_task` runs. -/
  next : Bool
  /-- The thread of `close_task` runs, and the one of the `finally`. -/
  cancelClose : Bool
  finalClose : Bool
  /-- The native iterator is started and neither exhausted nor closed. -/
  iterator : Bool
  /-- `CancellableIterator._closing` -/
  iteratorClosing : Bool

namespace Request

def init : Request where
  streaming := false
  pc := .arriving
  granted := false
  released := false
  releases := 0
  worker := false
  next := false
  cancelClose := false
  finalClose := false
  iterator := false
  iteratorClosing := false

/-- A lease is granted and not yet released. -/
def live (q : Request) : Bool := q.granted && !q.released

/-- Something started for the request can still run. -/
def running (q : Request) : Bool :=
  q.worker || q.next || q.cancelClose || q.finalClose || q.iterator

def release (q : Request) : Request :=
  if q.released then q else { q with released := true, releases := q.releases + 1 }

/-- The request ends and its lease is released. -/
def finish (q : Request) : Request := { q.release with pc := .done }

/-- `CancellableIterator.close` returns: a thread inside `next` closes in its place. -/
def closeIterator (q : Request) : Request :=
  { q with iteratorClosing := true, iterator := q.iterator && q.next }

end Request

/-- What happens to a request that holds a lease, or held one. -/
inductive Event where
  /-- A thread ends; the iterator's has an item or not. -/
  | workerEnds
  | nextEnds (item : Bool)
  | cancelCloseEnds
  | finalCloseEnds
  /-- What is awaited is done, well or with an exception. -/
  | resume (ok : Bool)
  /-- A cancellation arrives at an await. -/
  | cancel
  /-- One arrives at an await that cleans up after a cancellation, or in the `finally`. -/
  | cancelAgain
  /-- The response asks the parked stream for the next item, or closes it. -/
  | sent
  | aclose
  /-- The response ends while the stream is parked; the stream is finalised later. -/
  | leave
  | finalize
deriving DecidableEq

/-- One step of a request; `none` where it cannot happen. -/
def requestStep (q : Request) (event : Event) : Option Request :=
  match q.pc, event with
  | _, .workerEnds => if q.worker then some { q with worker := false } else none
  | _, .nextEnds item =>
    if q.next then
      some { q with next := false, iterator := q.iterator && item && !q.iteratorClosing }
    else none
  | _, .cancelCloseEnds =>
    if q.cancelClose then some { q.closeIterator with cancelClose := false } else none
  | _, .finalCloseEnds =>
    if q.finalClose then some { q.closeIterator with finalClose := false } else none
  -- `prepare_request`
  | .preparing, .resume ok =>
    if q.worker then none
    else if !ok then some q.finish
    else if q.streaming then some { q with pc := .sendingHead }
    else some { q with pc := .generating, worker := true }
  | .preparing, .cancel => some { q with pc := .preparingCancelled }
  | .preparingCancelled, .resume _ => if q.worker then none else some q.finish
  | .preparingCancelled, .cancelAgain => some q.finish
  -- `generate`
  | .generating, .resume _ => if q.worker then none else some q.finish
  | .generating, .cancel => some { q with pc := .generatingCancelled }
  | .generatingCancelled, .resume _ => if q.worker then none else some q.finish
  | .generatingCancelled, .cancelAgain => some q.finish
  -- the response and `stream`; without an iterator its `finally` only releases
  | .sendingHead, .resume ok =>
    if ok then some { q with pc := .nexting, iterator := true, next := true }
    else some { q.release with pc := .sendingTail }
  | .sendingHead, .cancel => some q.finish
  | .nexting, .resume _ =>
    if q.next then none
    else if q.iterator then some { q with pc := .parked }
    else some { q with pc := .closing, finalClose := true }
  | .nexting, .cancel => some { q with pc := .nextCancelled, cancelClose := true }
  | .nextCancelled, .resume _ =>
    if q.next ∨ q.cancelClose then none
    else some { q with pc := .closing, finalClose := true }
  | .nextCancelled, .cancelAgain => some { q with pc := .closing, finalClose := true }
  | .parked, .sent => some { q with pc := .nexting, next := true }
  | .parked, .aclose => some { q with pc := .closing, finalClose := true }
  | .parked, .leave => some { q.release with pc := .abandoned }
  -- an exception of `_close_stream` skips the release of the `finally`
  | .closing, .resume ok =>
    if q.finalClose then none
    else if ok then some { q.release with pc := .sendingTail }
    else some { q with pc := .sendingTail }
  | .closing, .cancelAgain => some q.finish
  -- `_ReleasingStreamingResponse` releases in its `finally`
  | .sendingTail, .resume _ | .sendingTail, .cancel => some q.finish
  | .abandoned, .finalize => some { q with pc := .finalizing, finalClose := true }
  | .finalizing, .resume _ => if q.finalClose then none else some q.finish
  | .finalizing, .cancelAgain => some q.finish
  | _, _ => none

/-- A lease is granted, the worker of `prepare_request` starts. -/
def Request.grant (q : Request) : Request :=
  { q with pc := .preparing, granted := true, worker := true }

/-! ## The controller -/

/-- A task that wants the slot. -/
inductive Holder where
  | request (r : Nat)
  | closer
deriving DecidableEq

inductive CloserPc where
  | idle
  | waiting
  | returned
deriving DecidableEq

/-- `_AdmissionController` -/
structure Controller where
  maxQueued : Nat
  semaphore : FifoSlot Holder
  active : Nat
  waiting : Nat
  isClosing : Bool
  drained : Bool
  closer : CloserPc

namespace Controller

def init (maxQueued : Nat) : Controller where
  maxQueued := maxQueued
  semaphore := FifoSlot.free
  active := 0
  waiting := 0
  isClosing := false
  drained := false
  closer := .idle

/-- `Semaphore.acquire`, up to its wait. -/
def acquire (c : Controller) (holder : Holder) : Controller :=
  { c with semaphore := c.semaphore.acquire holder }

/-- `Semaphore.release` -/
def releaseSlot (c : Controller) : Controller := { c with semaphore := c.semaphore.release }

/-- A waiter is cancelled or times out. -/
def giveUp (c : Controller) (holder : Holder) : Controller :=
  { c with semaphore := c.semaphore.giveUp holder }

def release (c : Controller) : Controller := { c with active := 0 }.releaseSlot

end Controller

structure ControllerState where
  requests : Nat → Request
  controller : Controller

inductive ControllerAction where
  | arrive (r : Nat) (streaming : Bool)
  /-- A request that was given the slot goes on, or gives up. -/
  | wake (r : Nat)
  | giveUp (r : Nat)
  | request (r : Nat) (event : Event)
  /-- `close`: called, given the slot, cancelled. -/
  | close
  | closeWake
  | closeCancel

/-- The requests with one of them replaced. -/
def setRequest (requests : Nat → Request) (r : Nat) (q : Request) : Nat → Request :=
  Function.update requests r q

namespace ControllerState

def init (maxQueued : Nat) : ControllerState where
  requests _ := Request.init
  controller := Controller.init maxQueued

/-- `reserve`, up to the semaphore. -/
def arrive (s : ControllerState) (r : Nat) (streaming : Bool) : ControllerState :=
  let q := { s.requests r with streaming := streaming }
  let c := s.controller
  if c.isClosing ∨ c.maxQueued + 1 ≤ c.active + c.waiting then
    { s with requests := setRequest s.requests r { q with pc := .refused } }
  else
    { requests := setRequest s.requests r { q with pc := .waiting }
      controller := { c with waiting := c.waiting + 1 }.acquire (.request r) }

/-- `reserve` with the slot in hand. -/
def wake (s : ControllerState) (r : Nat) : ControllerState :=
  let c := { s.controller with waiting := s.controller.waiting - 1 }
  if c.isClosing then
    { requests := setRequest s.requests r { s.requests r with pc := .refused }
      controller := c.releaseSlot }
  else
    { requests := setRequest s.requests r (s.requests r).grant
      controller := { c with active := 1 } }

/-- One step of the server; `none` where it cannot happen. -/
def step (s : ControllerState) (action : ControllerAction) : Option ControllerState :=
  let c := s.controller
  match action with
  | .arrive r streaming =>
    if (s.requests r).pc = .arriving then some (s.arrive r streaming) else none
  | .wake r =>
    if (s.requests r).pc = .waiting ∧ c.semaphore.holder = some (.request r) then some (s.wake r)
    else none
  | .giveUp r =>
    if (s.requests r).pc = .waiting then
      some { requests := setRequest s.requests r { s.requests r with pc := .refused }
             controller := { c with waiting := c.waiting - 1 }.giveUp (.request r) }
    else none
  | .request r event =>
    (requestStep (s.requests r) event).map fun q =>
      { requests := setRequest s.requests r q
        controller := if (s.requests r).releases < q.releases then c.release else c }
  | .close =>
    if c.closer = .idle then
      some { s with controller := { c with isClosing := true, closer := .waiting }.acquire .closer }
    else none
  | .closeWake =>
    if c.closer = .waiting ∧ c.semaphore.holder = some .closer then
      some { s with controller := { c with drained := true, closer := .returned } }
    else none
  | .closeCancel =>
    if c.closer = .waiting then
      some { s with controller := { c with closer := .idle }.giveUp .closer }
    else none

end ControllerState

/-! ## The gate -/

/-- `_IFBAdmissionGate` -/
structure Gate where
  limit : Nat
  active : Nat
  isClosing : Bool
  /-- The event of this name is set. -/
  drained : Bool
  closer : CloserPc

def Gate.init (maxQueued maxConcurrency : Nat) : Gate where
  limit := maxQueued + max 1 maxConcurrency
  active := 0
  isClosing := false
  drained := true
  closer := .idle

def Gate.release (g : Gate) : Gate :=
  { g with active := g.active - 1, drained := g.drained || g.active - 1 = 0 }

structure GateState where
  requests : Nat → Request
  gate : Gate

inductive GateAction where
  | arrive (r : Nat) (streaming : Bool)
  | request (r : Nat) (event : Event)
  | close
  | closeWake
  | closeCancel

namespace GateState

def init (maxQueued maxConcurrency : Nat) : GateState where
  requests _ := Request.init
  gate := Gate.init maxQueued maxConcurrency

/-- `reserve` -/
def arrive (s : GateState) (r : Nat) (streaming : Bool) : GateState :=
  let q := { s.requests r with streaming := streaming }
  if s.gate.isClosing ∨ s.gate.limit ≤ s.gate.active then
    { s with requests := setRequest s.requests r { q with pc := .refused } }
  else
    { requests := setRequest s.requests r q.grant
      gate := { s.gate with active := s.gate.active + 1, drained := false } }

/-- One step of the server; `none` where it cannot happen. -/
def step (s : GateState) (action : GateAction) : Option GateState :=
  match action with
  | .arrive r streaming =>
    if (s.requests r).pc = .arriving then some (s.arrive r streaming) else none
  | .request r event =>
    (requestStep (s.requests r) event).map fun q =>
      { requests := setRequest s.requests r q
        gate := if (s.requests r).releases < q.releases then s.gate.release else s.gate }
  | .close =>
    if s.gate.closer = .idle then
      some { s with gate := { s.gate with isClosing := true, closer := .waiting } }
    else none
  | .closeWake =>
    if s.gate.closer = .waiting ∧ s.gate.drained then
      some { s with gate := { s.gate with closer := .returned } }
    else none
  | .closeCancel =>
    if s.gate.closer = .waiting then some { s with gate := { s.gate with closer := .idle } }
    else none

end GateState

end EdgeLLM.Ports.Lease
