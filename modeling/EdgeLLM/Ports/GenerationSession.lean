import EdgeLLM.Ports.ExecutionRow
import EdgeLLM.Verified.Checked

/-!
# A generation session

One batch from its founding to its teardown: `primeFromPrefill`, `advance`, the
fused and the stepped admission, batch eviction, and the finalizer of the
stream channels.  Each operation is a `Checked` computation: what it has done
before it fails stays done.

What the decoder, the device and the other ranks contribute to a step (sampled
tokens, which call fails) is an input of the operation.
-/

namespace EdgeLLM.Ports.Generation

open Verified
open Utf8 (Bytes)

/-- Why an operation of a session fails, one constructor per place. -/
inductive SessionFailure where
  | cancellationSync
  | prepareDecodeStep
  | decodeStep
  | completeDecodeStep
  | tokenCallback
  | batchEvict
  -- `appendSlot`
  | emptyBatch
  | emptyPrompt
  | prefillStartRange
  | originalIndexLive
  | originalIndexCollected
  -- `RuntimeStepper`
  | admissionPending
  -- `prefillSeated`
  | seatNotLive
  | prefillThrew
  | finalizeThrew

/-- `BatchResult`, as far as the session fills it. -/
structure BatchResult where
  tokenIds : List Token
  rawBatchedInputIds : List Token
  generateLength : Nat
  actualIterations : Nat
  terminalReason : FinishReason

/-- The generation session with its context.  `released` holds the channels of
evicted slots, which their consumers still have; `attached` counts the channels
attached so far. -/
structure GenerationSession where
  rows : List ExecutionRow := []
  mPending : Option Nat := none
  hasGuidedDecoding : Bool := false
  generationRound : Nat := 0
  completedBatches : List (Int × BatchResult) := []
  released : List StreamChannel := []
  attached : Nat := 0

/-- A computation of the session. -/
abbrev SessionM (α : Type) : Type := Checked SessionFailure GenerationSession α

/-- What a request asks of its stream channel, and whether its consumer has
cancelled before the sequence has a slot. -/
structure ChannelSettings where
  streamInterval : Int := 1
  skipSpecialTokens : Bool := true
  cancelled : Bool := false

/-- A channel as the consumer submits it. -/
def ChannelSettings.channel (settings : ChannelSettings) : StreamChannel :=
  let channel := (({} : StreamChannel).setStreamInterval
    settings.streamInterval).setSkipSpecialTokens settings.skipSpecialTokens
  if settings.cancelled then channel.cancel else channel

@[simp] theorem ChannelSettings.pushed_channel (settings : ChannelSettings) :
    settings.channel.pushed = [] := by
  rw [channel]
  split <;> rfl

@[simp] theorem ChannelSettings.mFinished_channel (settings : ChannelSettings) :
    settings.channel.mFinished = false := by
  rw [channel]
  split <;> rfl

/-- `SlotSeed`: what one sequence brings to a batch. -/
structure SlotSeed where
  promptTokenIds : List Token
  prefillStart : Nat := 0
  stopStrings : List Bytes := []
  channel : Option ChannelSettings := none
  originalIndex : Int := 0
  hasGrammar : Bool := false
  guidedReasoningEnded : Bool := false

namespace SlotSeed

/-- The part of the prompt that this batch must compute. -/
def workingTokens (seed : SlotSeed) : List Token :=
  seed.promptTokenIds.drop seed.prefillStart

/-- The channel of a seed, attached. -/
def attachedChannel (seed : SlotSeed) : Option StreamChannel :=
  seed.channel.map fun settings => settings.channel.attach seed.originalIndex

/-- The row that `beginGeneration` sets up for a founding sequence.  The
offsets are seeded only where there is a channel. -/
def founderRow (seed : SlotSeed) (skipSpecialTokens : Bool) : ExecutionRow where
  rawBatchedInputIds := seed.promptTokenIds
  tokenIds := seed.workingTokens
  batchIndex := seed.originalIndex
  guidedReasoningEnded := seed.guidedReasoningEnded
  hasGrammar := seed.hasGrammar
  stopStrings := seed.stopStrings
  slotStream :=
    { channel := seed.attachedChannel
      skipSpecialTokens := skipSpecialTokens
      sentTokenCount := if seed.channel.isSome then seed.workingTokens.length else 0
      lastEmittedTokenCount := if seed.channel.isSome then seed.workingTokens.length else 0
      maxStopLen := longestStop seed.stopStrings }

/-- The row that `appendSlot` and `seatSlot` set up for a joining sequence. -/
def joinerRow (seed : SlotSeed) (skipSpecialTokens : Bool) : ExecutionRow where
  rawBatchedInputIds := seed.promptTokenIds
  tokenIds := seed.workingTokens
  batchIndex := seed.originalIndex
  stopStrings := seed.stopStrings
  slotStream :=
    { channel := seed.attachedChannel
      skipSpecialTokens := skipSpecialTokens
      sentTokenCount := seed.workingTokens.length
      lastEmittedTokenCount := seed.workingTokens.length
      maxStopLen := longestStop seed.stopStrings }

end SlotSeed

/-- The tokens of a decode step: none, one sampled token for each slot, or the
tokens accepted for each slot. -/
inductive StepTokens where
  | none
  | sampled (tokenIds : Nat → Token)
  | accepted (tokenIds : Nat → List Token)

/-- The tokens of a decode step, appended to slot `i`. -/
def StepTokens.append (cfg : SessionConfig) (tokens : StepTokens) (i : Nat) (row : ExecutionRow) :
    ExecutionRow :=
  match tokens with
  | .none => row
  | .sampled tokenIds => row.appendSampled (tokenIds i)
  | .accepted tokenIds => row.appendAccepted cfg (tokenIds i)

/-- How the seated prefill of a joiner ends; a failing one may have appended
its token before. -/
inductive PrefillOutcome where
  | prefilled (token : Token)
  | failed (token : Option Token)
  | threw (token : Option Token)

/-- How `finalizeSequenceAdmission` ends. -/
inductive FinalizeOutcome where
  | finalized
  | failed
  | threw

/-- What comes from outside in one `advance`. -/
structure AdvanceInput where
  /-- Which slots the root rank reports as cancelled; `none` when the exchange
  fails. -/
  rootCancelled : Option (Nat → Bool) := some fun _ => false
  prepared : Bool := true
  tokens : StepTokens
  decoded : Bool := true
  completed : Bool := true
  callbacksReturned : Bool := true
  evicted : Bool := true

/-- What comes from outside in `primeFromPrefill`. -/
structure PrimeInput where
  rootCancelled : Option (Nat → Bool) := some fun _ => false
  evicted : Bool := true

/-- `AdmitDecision`, once the admission is reserved. -/
inductive AdmitDecision where
  | kAdmitted
  | kFailed

namespace GenerationSession

/-! ## Passes over the batch -/

/-- A pass over the slots. -/
def eachRow (f : ExecutionRow → ExecutionRow) : SessionM Unit :=
  Checked.modify fun s => { s with rows := s.rows.map f }

/-- A pass that reads its slot's number. -/
def eachRowIdx (f : Nat → ExecutionRow → ExecutionRow) : SessionM Unit :=
  Checked.modify fun s => { s with rows := s.rows.mapIdx f }

/-- One slot. -/
def onRow (slot : Nat) (f : ExecutionRow → ExecutionRow) : SessionM Unit :=
  Checked.modify fun s => { s with rows := s.rows.modify slot f }

/-- `finished`: no slot is left to decode. -/
def finished (s : GenerationSession) : Bool :=
  s.rows.all ExecutionRow.finished

/-- Cancellations of the consumers, then those of the root rank. -/
def observeCancellations (rootCancelled : Option (Nat → Bool)) : SessionM Unit := do
  eachRow ExecutionRow.applyCancellation
  match rootCancelled with
  | none => Checked.fail .cancellationSync
  | some states => eachRowIdx fun i row => row.synchronizeCancellation (states i)

/-- The result that an evicted slot is filed with. -/
def resultOf (generationRound : Nat) (row : ExecutionRow) : BatchResult where
  tokenIds := row.tokenIds
  rawBatchedInputIds := row.rawBatchedInputIds
  generateLength := row.currentGenerateLength
  actualIterations := generationRound
  terminalReason := row.slotStream.terminalReason

/-- The compaction of `performBatchEvict`: finished slots are filed and dropped,
the others keep their order. -/
def compact (s : GenerationSession) : GenerationSession :=
  let gone := s.rows.filter ExecutionRow.finished
  let kept := s.rows.filter fun row => !row.finished
  { s with
    rows := kept
    hasGuidedDecoding := kept.any ExecutionRow.hasGrammar
    completedBatches := s.completedBatches ++
      gone.map fun row => (row.batchIndex, resultOf s.generationRound row)
    released := s.released ++ gone.filterMap fun row => row.slotStream.channel }

def performBatchEvict (evicted : Bool) : SessionM Unit := do
  Checked.check (evicted = true) .batchEvict
  Checked.modify fun s => if s.rows.any ExecutionRow.finished then s.compact else s

/-- Detokenization, thinking latch and finish states of a batch. -/
def decodeAndFinish (cfg : SessionConfig) : SessionM Unit := do
  eachRow (ExecutionRow.decode cfg.tokenizer)
  let hasGuidedDecoding ← Checked.read GenerationSession.hasGuidedDecoding
  eachRow (ExecutionRow.updateThinkingDone cfg hasGuidedDecoding)
  eachRow (ExecutionRow.updateFinishStates cfg)

/-- Whether a partly finished batch is evicted right after its prefill. -/
def supportsPartialPrefillEviction (cfg : SessionConfig) : Bool :=
  (cfg.managed && !cfg.isMTP) || cfg.mHasActionRequest

def primeFromPrefill (cfg : SessionConfig) (input : PrimeInput) : SessionM Unit := do
  if cfg.isDiffusionBackbone then pure ()
  else do
    observeCancellations input.rootCancelled
    decodeAndFinish cfg
    eachRow ExecutionRow.emit
    let s ← Checked.read id
    if s.rows ≠ [] ∧ (supportsPartialPrefillEviction cfg ∨ s.finished) then
      performBatchEvict input.evicted
    else pure ()

def advance (cfg : SessionConfig) (input : AdvanceInput) : SessionM Unit := do
  observeCancellations input.rootCancelled
  Checked.check (input.prepared = true) .prepareDecodeStep
  -- a decode step that fails may have appended tokens before
  eachRowIdx (input.tokens.append cfg)
  Checked.check (input.decoded = true) .decodeStep
  decodeAndFinish cfg
  Checked.check (input.completed = true) .completeDecodeStep
  eachRow ExecutionRow.emit
  Checked.check (input.callbacksReturned = true) .tokenCallback
  Checked.modify fun s => { s with generationRound := s.generationRound + 1 }
  performBatchEvict input.evicted

/-! ## Admission -/

/-- `seatSlot` with `appendSlot`: the new row is the last one. -/
def seatSlot (seed : SlotSeed) (skipSpecialTokens : Bool) : SessionM Nat := do
  let s ← Checked.read id
  Checked.check (s.rows ≠ []) .emptyBatch
  Checked.check (seed.promptTokenIds ≠ []) .emptyPrompt
  Checked.check (seed.prefillStart < seed.promptTokenIds.length) .prefillStartRange
  Checked.check (∀ row ∈ s.rows, row.batchIndex ≠ seed.originalIndex) .originalIndexLive
  Checked.check (∀ result ∈ s.completedBatches, result.1 ≠ seed.originalIndex)
    .originalIndexCollected
  Checked.modify fun s =>
    { s with
      rows := s.rows ++ [seed.joinerRow skipSpecialTokens]
      attached := s.attached + (if seed.channel.isSome then 1 else 0) }
  pure s.rows.length

/-- What `prefillSeated` does with the lookahead token, the same as the pipeline
of a step but for the detokenization. -/
def finishLookahead (cfg : SessionConfig) (row : ExecutionRow) (lookaheadToken : Token) :
    ExecutionRow :=
  let row := row.updateThinkingDoneForToken cfg lookaheadToken
  if row.finished then row
  else if row.isEffectiveEos cfg lookaheadToken then row.finishWith .kEndId
  else if cfg.maxGenerateLength ≤ row.currentGenerateLength then row.finishWith .kLength
  else row

/-- What `prefillSeated` does to the row of the joiner. -/
def seatedRow (cfg : SessionConfig) (outcome : PrefillOutcome) (finalize : FinalizeOutcome)
    (row : ExecutionRow) : ExecutionRow :=
  match outcome with
  | .threw token => (token.map row.appendSampled).getD row
  | .failed token =>
    -- the slot stays, terminal from birth
    ((token.map row.appendSampled).getD row).finishWith .kError
  | .prefilled token =>
    let row := row.appendSampled token
    if cfg.managed then
      match finalize with
      | .threw => row
      | .failed => row.finishWith .kError
      | .finalized => finishLookahead cfg row token
    else finishLookahead cfg row token

/-- How `prefillSeated` returns. -/
def seatedExit (cfg : SessionConfig) (outcome : PrefillOutcome) (finalize : FinalizeOutcome) :
    Except SessionFailure AdmitDecision :=
  match outcome with
  | .threw _ => .error .prefillThrew
  | .failed _ => .ok .kFailed
  | .prefilled _ =>
    if cfg.managed then
      match finalize with
      | .threw => .error .finalizeThrew
      | .failed => .ok .kFailed
      | .finalized => .ok .kAdmitted
    else .ok .kAdmitted

def prefillSeated (cfg : SessionConfig) (slot : Nat) (outcome : PrefillOutcome)
    (finalize : FinalizeOutcome) : SessionM AdmitDecision := do
  let s ← Checked.read id
  Checked.check (0 < slot ∧ slot < s.rows.length) .seatNotLive
  onRow slot (seatedRow cfg outcome finalize)
  Checked.ofExcept (seatedExit cfg outcome finalize)

/-- The fused admission: seat the sequence and run its prefill. -/
def seatAdmission (cfg : SessionConfig) (seed : SlotSeed) (skipSpecialTokens : Bool)
    (outcome : PrefillOutcome) (finalize : FinalizeOutcome) : SessionM AdmitDecision := do
  let slot ← seatSlot seed skipSpecialTokens
  prefillSeated cfg slot outcome finalize

/-- `RuntimeStepper::admit`, once the admission is reserved. -/
def stepperAdmit (seed : SlotSeed) (skipSpecialTokens : Bool) : SessionM Unit := do
  let s ← Checked.read id
  Checked.check (s.mPending = none) .admissionPending
  let slot ← seatSlot seed skipSpecialTokens
  Checked.modify fun s => { s with mPending := some slot }

/-- `RuntimeStepper::prefill`: the tick of the pending admission, or of the
founders.  A joiner that is terminal is filed in this tick. -/
def stepperPrefill (cfg : SessionConfig) (outcome : PrefillOutcome) (finalize : FinalizeOutcome)
    (input : PrimeInput) : SessionM Unit := do
  let s ← Checked.read id
  match s.mPending with
  | none => primeFromPrefill cfg input
  | some slot => do
      Checked.modify fun s => { s with mPending := none }
      let _ ← prefillSeated cfg slot outcome finalize
      let s ← Checked.read id
      if (s.rows.map ExecutionRow.finished).getD slot false then performBatchEvict input.evicted
      else pure ()

/-! ## Runs -/

/-- One operation on a running session. -/
inductive Op where
  | advance (input : AdvanceInput)
  | seatAdmission (seed : SlotSeed) (skipSpecialTokens : Bool) (outcome : PrefillOutcome)
      (finalize : FinalizeOutcome)
  | stepperAdmit (seed : SlotSeed) (skipSpecialTokens : Bool)
  | stepperPrefill (outcome : PrefillOutcome) (finalize : FinalizeOutcome) (input : PrimeInput)
  /-- The consumer of slot `i` cancels. -/
  | cancel (i : Nat)
  /-- `takeCompletedAtOrAbove`. -/
  | takeCompleted (firstIndex : Int)

/-- One operation. -/
def call (cfg : SessionConfig) : Op → SessionM Unit
  | .advance input => do
      let s ← Checked.read id
      Checked.check (s.mPending = none) .admissionPending
      GenerationSession.advance cfg input
  | .seatAdmission seed skip outcome finalize => do
      let _ ← GenerationSession.seatAdmission cfg seed skip outcome finalize
      pure ()
  | .stepperAdmit seed skip => GenerationSession.stepperAdmit seed skip
  | .stepperPrefill outcome finalize input =>
    GenerationSession.stepperPrefill cfg outcome finalize input
  | .cancel i =>
    onRow i fun row =>
      { row with slotStream := { row.slotStream with
          channel := row.slotStream.channel.map StreamChannel.cancel } }
  | .takeCompleted firstIndex =>
    Checked.modify fun s =>
      { s with completedBatches := s.completedBatches.filter fun r => decide (r.1 < firstIndex) }

/-- The callers give the session up after a failed step; a failed admission
only rejects the newcomer. -/
def Op.fatal : Op → Bool
  | .advance _ | .stepperPrefill _ _ _ => true
  | _ => false

/-- Operations until the first one that ends the session. -/
def steps (cfg : SessionConfig) : List Op → GenerationSession → GenerationSession
  | [], s => s
  | op :: rest, s =>
    match call cfg op s with
    | (.ok _, s') => steps cfg rest s'
    | (.error _, s') => if op.fatal then s' else steps cfg rest s'

/-- A founding sequence: its seed, the token that the prefill samples for it
(none with a diffusion backbone), and whether its grammar failed to compile. -/
structure Founder where
  seed : SlotSeed
  firstToken : Option Token
  guideFailed : Bool := false

/-- The row of a founder after the prefill. -/
def Founder.row (founder : Founder) (skipSpecialTokens : Bool) : ExecutionRow :=
  let row := founder.seed.founderRow skipSpecialTokens
  let row := if founder.guideFailed then row.finishWith .kError else row
  (founder.firstToken.map row.appendSampled).getD row

/-- The session that `beginGeneration` founds. -/
def found (founders : List Founder) (skipSpecialTokens : Bool) : GenerationSession where
  rows := founders.map fun founder => founder.row skipSpecialTokens
  hasGuidedDecoding := founders.any fun founder => founder.seed.hasGrammar
  attached := (founders.filter fun founder => founder.seed.channel.isSome).length

/-- A whole run up to its teardown: the prefill's post-pass, then operations;
without a post-pass the session is torn down right after its founding. -/
def run (cfg : SessionConfig) (founders : List Founder) (skipSpecialTokens : Bool) :
    Option (PrimeInput × List Op) → GenerationSession
  | none => found founders skipSpecialTokens
  | some (input, ops) =>
    match primeFromPrefill cfg input (found founders skipSpecialTokens) with
    | (.ok _, s) => steps cfg ops s
    | (.error _, s) => s

/-- `StreamChannelFinalizer` at teardown. -/
def finalize (cfg : SessionConfig) (s : GenerationSession) : GenerationSession :=
  { s with rows := s.rows.map (ExecutionRow.finalize cfg.tokenizer) }

/-- Every channel that was attached to a slot. -/
def channels (s : GenerationSession) : List StreamChannel :=
  s.released ++ s.rows.filterMap fun row => row.slotStream.channel

end GenerationSession

end EdgeLLM.Ports.Generation
