import Mathlib.Data.Nat.Bitwise
import EdgeLLM.Verified.Executions

/-!
# The command ring

`CommandQueue` carries commands from any number of threads to the actor.  A
producer claims a position with a compare-and-swap and then publishes its
command in the cell of that position; the actor alone pops.  The number in a cell
says whether it can be written at a position, read at it, or neither.

Every atomic access is a step of its own, so a run is any interleaving of the
producers and the actor.  Beside the source's fields a state records the commands
in the order of their claims and those that `pop` has returned.
-/

namespace EdgeLLM.Ports.CommandQueue

open Verified

/-! ## The constructor -/

/-- The loop of `ceilToPowerOfTwo`. -/
def doubleUntil (value : Nat) : Nat → Nat → Nat
  | 0, rounded => rounded
  | fuel + 1, rounded => if rounded < value then doubleUntil value fuel (rounded <<< 1) else rounded

/-- The largest power of two of an `int32_t`. -/
def kMaxPowerOfTwo : Nat := 1 <<< 30

/-- `ceilToPowerOfTwo`; thirty doublings reach the largest power of two. -/
def ceilToPowerOfTwo (value : Int) : Except String Nat :=
  if value ≤ 1 then .ok 1
  else if value > kMaxPowerOfTwo then
    .error "ceilToPowerOfTwo: no power of two of this size fits in int32_t"
  else .ok (doubleUntil value.toNat 30 1)

/-- Smallest ring the sequence protocol can express. -/
def kMinCapacity : Nat := 2

/-- `mCapacity`, with the check of the constructor. -/
def ringCapacity (capacity : Int) : Except String Nat := do
  let rounded ← ceilToPowerOfTwo capacity
  if capacity > 0 then .ok (max kMinCapacity rounded)
  else .error "CommandQueue capacity must be positive."

/-! ## The ring -/

/-- Where a thread is in `push`. -/
inductive Producer (α : Type) where
  | idle
  /-- About to load `mEnqueuePos`. -/
  | loading (command : α)
  /-- About to read the sequence of the cell of `position`. -/
  | reading (command : α) (position : Nat)
  /-- The cell is free for this lap: about to claim the position. -/
  | claiming (command : α) (position : Nat)
  /-- About to move the command into the cell. -/
  | claimed (command : α) (position : Nat)
  /-- About to publish. -/
  | filled (position : Nat)

/-- Where the actor is in `pop`. -/
inductive Consumer (α : Type) where
  | idle
  /-- The sequence says that the cell is readable. -/
  | ready (position : Nat)
  /-- About to advance `mDequeuePos`. -/
  | took (position : Nat) (command : Option α)
  /-- About to hand the cell back. -/
  | advanced (position : Nat) (command : Option α)

/-- The queue, the threads that push and the actor. -/
structure Ring (ι α : Type) where
  capacity : Nat
  sequence : Nat → Nat
  command : Nat → Option α
  enqueuePos : Nat
  dequeuePos : Nat
  producers : ι → Producer α
  consumer : Consumer α
  /-- The commands in the order of their claims. -/
  claims : List α
  /-- What `pop` has returned. -/
  popped : List α

variable {ι α : Type} [DecidableEq ι]

namespace Ring

/-- A ring of `cells` cells: cell `i` is writable at position `i`. -/
def start (ι α : Type) (cells : Nat) : Ring ι α where
  capacity := cells
  sequence := fun index => index
  command := fun _ => none
  enqueuePos := 0
  dequeuePos := 0
  producers := fun _ => .idle
  consumer := .idle
  claims := []
  popped := []

/-- `position & mMask`. -/
def index (s : Ring ι α) (position : Nat) : Nat := position &&& (s.capacity - 1)

/-- Move one producer. -/
def setProducer (s : Ring ι α) (i : ι) (p : Producer α) : Ring ι α :=
  { s with producers := Function.update s.producers i p }

end Ring

/-- Who moves.  A weak compare-and-swap may fail although the position matches. -/
inductive Action (ι α : Type) where
  | push (i : ι) (command : α)
  | load (i : ι)
  | readSequence (i : ι)
  | claim (i : ι) (spurious : Bool)
  | fill (i : ι)
  | publish (i : ι)
  | pop
  | take
  | advance
  | release

namespace Ring

/-- The steps of `push`.  A producer that is back in `idle` after `readSequence` has
returned false. -/
def stepProducer (s : Ring ι α) (i : ι) : Action ι α → Option (Ring ι α)
  | .push _ command =>
    match s.producers i with
    | .idle => some (s.setProducer i (.loading command))
    | _ => none
  | .load _ =>
    match s.producers i with
    | .loading command => some (s.setProducer i (.reading command s.enqueuePos))
    | _ => none
  | .readSequence _ =>
    match s.producers i with
    | .reading command position =>
      let delta : Int := (s.sequence (s.index position) : Int) - (position : Int)
      -- the cell still holds an unconsumed command: the ring is full
      if delta < 0 then some (s.setProducer i .idle)
      else if delta = 0 then some (s.setProducer i (.claiming command position))
      -- another producer moved ahead
      else some (s.setProducer i (.loading command))
    | _ => none
  | .claim _ spurious =>
    match s.producers i with
    | .claiming command position =>
      if s.enqueuePos = position ∧ spurious = false then
        some { s.setProducer i (.claimed command position) with
          enqueuePos := position + 1, claims := s.claims ++ [command] }
      else some (s.setProducer i (.reading command s.enqueuePos))
    | _ => none
  | .fill _ =>
    match s.producers i with
    | .claimed command position =>
      some { s.setProducer i (.filled position) with
        command := Function.update s.command (s.index position) (some command) }
    | _ => none
  | .publish _ =>
    match s.producers i with
    | .filled position =>
      some { s.setProducer i .idle with
        sequence := Function.update s.sequence (s.index position) (position + 1) }
    | _ => none
  | _ => none

/-- The steps of `pop`.  An actor that is still in `idle` after `pop` has returned
the null pointer. -/
def stepConsumer (s : Ring ι α) : Action ι α → Option (Ring ι α)
  | .pop =>
    match s.consumer with
    | .idle =>
      let position := s.dequeuePos
      if (s.sequence (s.index position) : Int) - ((position + 1 : Nat) : Int) ≠ 0 then some s
      else some { s with consumer := .ready position }
    | _ => none
  | .take =>
    match s.consumer with
    | .ready position =>
      some { s with
        command := Function.update s.command (s.index position) none
        consumer := .took position (s.command (s.index position)) }
    | _ => none
  | .advance =>
    match s.consumer with
    | .took position command =>
      some { s with dequeuePos := position + 1, consumer := .advanced position command }
    | _ => none
  | .release =>
    match s.consumer with
    | .advanced position command =>
      some { s with
        sequence := Function.update s.sequence (s.index position) (position + s.capacity)
        consumer := .idle
        popped := s.popped ++ command.toList }
    | _ => none
  | _ => none

/-- One atomic step. -/
def step (s : Ring ι α) (a : Action ι α) : Option (Ring ι α) :=
  match a with
  | .push i _ | .load i | .readSequence i | .claim i _ | .fill i | .publish i => s.stepProducer i a
  | .pop | .take | .advance | .release => s.stepConsumer a

end Ring

end EdgeLLM.Ports.CommandQueue
