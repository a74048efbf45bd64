import EdgeLLM.Ports.StopStrings
import EdgeLLM.Ports.Tokenizer

/-!
# One row of the batch

What the per-iteration pipeline does to one slot: cancellation, the tokens of
the step, detokenization with stop matching, the thinking latch, the finish
states and the chunks.  Every pass of the source loops over the slots and
touches one slot at a time, so a pass over the batch maps one of these
functions over the rows.
-/

namespace EdgeLLM.Ports.Generation

open Utf8

/-- What a generation session never changes: its tokenizer, its request and the
limits of its batch. -/
structure SessionConfig where
  tokenizer : Tokenizer
  maxGenerateLength : Nat
  /-- `beginGeneration` refuses a request without room for a token. -/
  maxGenerateLength_pos : 0 < maxGenerateLength := by decide
  ignoreEos : Bool := false
  enableThinking : Bool := false
  mEndOfChannelId : Token := -1
  mEndOfThinkId : Token := -1
  mStartOfChannelId : Token := -1
  mStartOfThinkId : Token := -1
  /-- The request of this original index runs an action trajectory. -/
  actionRow : Int → Bool := fun _ => false
  mHasActionRequest : Bool := false
  mTrajFutureStartId : Token := -1
  managed : Bool := false
  isMTP : Bool := false
  isDiffusionBackbone : Bool := false

/-- One row of the per-slot vectors of `DecodingInferenceContext`, as far as a
generation session reads them. -/
structure ExecutionRow where
  rawBatchedInputIds : List Token := []
  tokenIds : List Token
  currentGenerateLength : Nat := 0
  finished : Bool := false
  batchIndex : Int := 0
  thinkingDone : Bool := false
  guidedReasoningEnded : Bool := false
  /-- The slot has a matcher in the runtime's `GuidedDecoder`. -/
  hasGrammar : Bool := false
  stopStrings : List Bytes := []
  slotStream : SlotStreamState := {}

namespace ExecutionRow

/-- Latch a finish reason. -/
def finishWith (row : ExecutionRow) (reason : FinishReason) : ExecutionRow :=
  { row with
    finished := true
    slotStream := { row.slotStream with terminalReason := reason } }

/-- `applyCancellationToFinishStates`. -/
def applyCancellation (row : ExecutionRow) : ExecutionRow :=
  match row.slotStream.channel with
  | none => row
  | some channel =>
    -- first writer wins: a natural finish keeps its reason
    if row.finished then row
    else if channel.mCancelled then row.finishWith .kCancelled
    else row

/-- `synchronizeCancellationStates`, with what the root rank broadcast. -/
def synchronizeCancellation (row : ExecutionRow) (rootCancelled : Bool) : ExecutionRow :=
  if rootCancelled && !row.finished then row.finishWith .kCancelled else row

/-! ## The tokens of a step -/

def updateThinkingDoneForToken (cfg : SessionConfig) (row : ExecutionRow) (tokenId : Token) :
    ExecutionRow :=
  if !cfg.enableThinking || row.thinkingDone then row
  else if tokenId = cfg.mEndOfChannelId ∨ tokenId = cfg.mEndOfThinkId then
    { row with thinkingDone := true }
  else if row.currentGenerateLength = 1 ∧ tokenId ≠ cfg.mStartOfChannelId ∧
      tokenId ≠ cfg.mStartOfThinkId then
    { row with thinkingDone := true }
  else row

theorem updateThinkingDoneForToken_eq (cfg : SessionConfig) (row : ExecutionRow) (tokenId : Token) :
    ∃ done, row.updateThinkingDoneForToken cfg tokenId = { row with thinkingDone := done } := by
  rw [updateThinkingDoneForToken]
  split
  · exact ⟨row.thinkingDone, rfl⟩
  · split
    · exact ⟨true, rfl⟩
    · split
      · exact ⟨true, rfl⟩
      · exact ⟨row.thinkingDone, rfl⟩

/-- The end-token rule: in thinking mode a secondary end token does not count
until thinking is done. -/
def isEffectiveEos (cfg : SessionConfig) (row : ExecutionRow) (tokenId : Token) : Bool :=
  !cfg.ignoreEos && cfg.tokenizer.isEosToken tokenId &&
    !(cfg.enableThinking && tokenId != cfg.tokenizer.getEosId && !row.thinkingDone)

def shouldStopAfterAcceptedToken (cfg : SessionConfig) (row : ExecutionRow) (tokenId : Token) :
    Bool × ExecutionRow :=
  let row := row.updateThinkingDoneForToken cfg tokenId
  (row.isEffectiveEos cfg tokenId || decide (cfg.maxGenerateLength ≤ row.currentGenerateLength),
    row)

/-- One generated token. -/
def appendToken (row : ExecutionRow) (token : Token) : ExecutionRow :=
  { row with
    tokenIds := row.tokenIds ++ [token]
    currentGenerateLength := row.currentGenerateLength + 1 }

/-- `appendSampledTokens`, for one slot. -/
def appendSampled (row : ExecutionRow) (token : Token) : ExecutionRow :=
  if row.finished then row else row.appendToken token

/-- The loop of `appendAcceptedTokens` over the accepted tokens of one slot. -/
def acceptTokens (cfg : SessionConfig) : List Token → ExecutionRow → ExecutionRow
  | [], row => row
  | token :: rest, row =>
    let decision := (row.appendToken token).shouldStopAfterAcceptedToken cfg token
    if decision.1 then decision.2 else acceptTokens cfg rest decision.2

/-- `appendAcceptedTokens`, for one slot. -/
def appendAccepted (cfg : SessionConfig) (row : ExecutionRow) (accepted : List Token) :
    ExecutionRow :=
  if row.finished then row else acceptTokens cfg accepted row

/-! ## Detokenization -/

/-- The stream interval of the channel holds the new tokens back. -/
def gateClosed (row : ExecutionRow) : Bool :=
  match row.slotStream.channel with
  | none => false
  | some channel =>
    !row.finished &&
      decide (row.tokenIds.length - row.slotStream.sentTokenCount < channel.mStreamInterval)

/-- Streaming slots read the policy from their channel. -/
def skipSpecial (row : ExecutionRow) : Bool :=
  match row.slotStream.channel with
  | some channel => channel.mSkipSpecialTokens
  | none => row.slotStream.skipSpecialTokens

/-- The new text of the slot: `emitDelta`, and the flush of a final slot. -/
def newText (tok : Tokenizer) (row : ExecutionRow) (s : SlotStreamState) :
    Bytes × SlotStreamState :=
  let out := emitDelta s tok row.tokenIds row.skipSpecial
  if row.finished && !out.2.pendingBytes.isEmpty then
    let flushed := emitDeltaFlush out.2
    (out.1 ++ flushed.1, flushed.2)
  else out

/-- A stop match may override an end token or the length limit, but neither a
cancellation nor an error. -/
def stopActive (row : ExecutionRow) : Bool :=
  !row.stopStrings.isEmpty && row.slotStream.terminalReason != .kCancelled &&
    row.slotStream.terminalReason != .kError

/-- `decodePerSlot`, for one slot. -/
def decode (tok : Tokenizer) (row : ExecutionRow) : ExecutionRow :=
  let s := { row.slotStream with stopMatchedThisIter := false, pendingEmitText := [] }
  if s.channel.isNone && row.stopStrings.isEmpty then
    { row with slotStream := s }
  else if row.gateClosed then
    { row with slotStream := s }
  else
    let delta := row.newText tok s
    if row.stopActive then
      let out := applyStopStringMatch (delta.2.stopMatchBuffer ++ delta.1) row.stopStrings
        delta.2.maxStopLen row.finished
      { row with slotStream := { delta.2 with
          stopMatchBuffer := out.2
          pendingEmitText := out.1.emitted
          stopMatchedThisIter := out.1.stopMatched } }
    else
      { row with slotStream := { delta.2 with pendingEmitText := delta.1 } }

/-! ## Finish states -/

/-- `updateThinkingDone`, for one slot. -/
def updateThinkingDone (cfg : SessionConfig) (hasGuidedDecoding : Bool) (row : ExecutionRow) :
    ExecutionRow :=
  if !cfg.enableThinking && !hasGuidedDecoding then row
  else
    match row.tokenIds.getLast? with
    | none => row
    | some tokenId =>
      let row := row.updateThinkingDoneForToken cfg tokenId
      if hasGuidedDecoding ∧ (tokenId = cfg.mEndOfChannelId ∨ tokenId = cfg.mEndOfThinkId) then
        { row with guidedReasoningEnded := true }
      else row

theorem updateThinkingDone_eq (cfg : SessionConfig) (hasGuidedDecoding : Bool)
    (row : ExecutionRow) :
    ∃ done ended, row.updateThinkingDone cfg hasGuidedDecoding =
      { row with thinkingDone := done, guidedReasoningEnded := ended } := by
  rw [updateThinkingDone]
  split
  · exact ⟨row.thinkingDone, row.guidedReasoningEnded, rfl⟩
  · split
    · exact ⟨row.thinkingDone, row.guidedReasoningEnded, rfl⟩
    · rename_i tokenId _
      obtain ⟨done, hdone⟩ := updateThinkingDoneForToken_eq cfg row tokenId
      rw [hdone]
      dsimp only
      split
      · exact ⟨done, true, rfl⟩
      · exact ⟨done, row.guidedReasoningEnded, rfl⟩

/-- The trajectory of an action request starts at the token before the last. -/
def atTrajectoryStart (cfg : SessionConfig) (row : ExecutionRow) : Bool :=
  decide (1 < row.tokenIds.length) && decide (0 ≤ cfg.mTrajFutureStartId) &&
    row.tokenIds.getD (row.tokenIds.length - 2) 0 == cfg.mTrajFutureStartId

/-- The last token ends the slot. -/
def atEnd (cfg : SessionConfig) (row : ExecutionRow) : Bool :=
  if cfg.mHasActionRequest && cfg.actionRow row.batchIndex then
    row.atTrajectoryStart cfg
  else
    match row.tokenIds.getLast? with
    | none => false
    | some lastToken => row.isEffectiveEos cfg lastToken

/-- The first loop of `updateFinishStates`, for one slot. -/
def updateFinishState (cfg : SessionConfig) (row : ExecutionRow) : ExecutionRow :=
  -- first writer wins: a cancellation may have come before
  if row.finished then row
  else if row.atEnd cfg then row.finishWith .kEndId
  else if cfg.maxGenerateLength ≤ row.currentGenerateLength then row.finishWith .kLength
  else row

theorem updateFinishState_cases (cfg : SessionConfig) (row : ExecutionRow) :
    row.updateFinishState cfg = row ∨
      ∃ reason, row.finished = false ∧ (reason = .kEndId ∨ reason = .kLength) ∧
        row.updateFinishState cfg = row.finishWith reason := by
  rw [updateFinishState]
  split
  · exact Or.inl rfl
  · rename_i hnot
    have hlive : row.finished = false := by simpa using hnot
    split
    · exact Or.inr ⟨.kEndId, hlive, Or.inl rfl, rfl⟩
    · split
      · exact Or.inr ⟨.kLength, hlive, Or.inr rfl, rfl⟩
      · exact Or.inl rfl

/-- The stop-string pass of `updateFinishStates`, for one slot. -/
def applyStopMatch (row : ExecutionRow) : ExecutionRow :=
  if row.slotStream.stopMatchedThisIter ∧ row.slotStream.terminalReason ≠ .kCancelled ∧
      row.slotStream.terminalReason ≠ .kError then
    row.finishWith .kStopWords
  else row

/-- `updateFinishStates`, for one slot. -/
def updateFinishStates (cfg : SessionConfig) (row : ExecutionRow) : ExecutionRow :=
  (row.updateFinishState cfg).applyStopMatch

/-! ## Chunks -/

/-- The held-back text that an end token or the length limit releases. -/
def releaseHeld (row : ExecutionRow) : SlotStreamState :=
  let s := row.slotStream
  if row.finished && (s.terminalReason == .kEndId || s.terminalReason == .kLength) then
    { s with
      pendingEmitText := s.pendingEmitText ++ s.stopMatchBuffer
      stopMatchBuffer := [] }
  else s

/-- The chunk of a slot. -/
def chunkOf (row : ExecutionRow) (s : SlotStreamState) : StreamChunk where
  tokenIds := (row.tokenIds.take s.sentTokenCount).drop s.lastEmittedTokenCount
  text := s.pendingEmitText
  promptTokenCount := row.rawBatchedInputIds.length
  finished := row.finished
  reason := if row.finished then s.terminalReason else .kNotFinished

/-- `emitChunks`, for one slot. -/
def emit (row : ExecutionRow) : ExecutionRow :=
  match row.slotStream.channel with
  | none => row
  | some channel =>
    let s := row.releaseHeld
    if s.pendingEmitText.isEmpty && !row.finished then
      { row with slotStream := s }
    else
      let channel := channel.push (row.chunkOf s)
      let channel := if row.finished then channel.finish s.terminalReason else channel
      { row with slotStream := { s with
          channel := some channel
          pendingEmitText := []
          lastEmittedTokenCount := s.sentTokenCount } }

/-- The terminal chunk that the finalizer builds for a slot. -/
def abortChunk (tok : Tokenizer) (row : ExecutionRow) (channel : StreamChannel) : StreamChunk where
  tokenIds := row.tokenIds.drop row.slotStream.lastEmittedTokenCount
  text :=
    let raw := tok.pieces channel.mSkipSpecialTokens
      (row.tokenIds.drop row.slotStream.sentTokenCount)
    let out := sanitizeUtf8Streaming raw row.slotStream.pendingBytes
    out.1 ++ sanitizeUtf8Flush out.2
  promptTokenCount := row.rawBatchedInputIds.length
  finished := true
  reason := .kError

/-- `StreamChannelFinalizer::~StreamChannelFinalizer`, for one slot. -/
def finalize (tok : Tokenizer) (row : ExecutionRow) : ExecutionRow :=
  match row.slotStream.channel with
  | none => row
  | some channel =>
    if channel.mFinished then row
    else
      { row with slotStream := { row.slotStream with
          pendingBytes := []
          channel := some ((channel.push (row.abortChunk tok channel)).finish .kError) } }

end ExecutionRow

end EdgeLLM.Ports.Generation
