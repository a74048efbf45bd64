import EdgeLLM.Ports.StopMatching

/-!
# What a stream delivers

The chunks of an open channel carry the decoded tokens and their text but for the
stop buffer.  The module says what the step that closes the channel, or the
finalizer, makes of it.
-/

namespace EdgeLLM.Ports.Generation

open Utf8
open Verified
open GenerationSession (shortSession)

/-- The slot came to an end of its own. -/
inductive EndsItself : FinishReason → Prop where
  | kEndId : EndsItself .kEndId
  | kLength : EndsItself .kLength
  | kStopWords : EndsItself .kStopWords

namespace ExecutionRow

/-- The channel is open and has the generated tokens up to `lastEmittedTokenCount`;
`given` is the text of the decoded tokens but for the stop buffer. -/
structure Streamed (tok : Tokenizer) (promptLength : Nat) (row : ExecutionRow)
    (channel : StreamChannel) (given : Bytes) : Prop where
  here : row.slotStream.channel = some channel
  notFinished : channel.mFinished = false
  prompt : row.tokenIds.length = promptLength + row.currentGenerateLength
  first : promptLength ≤ row.slotStream.lastEmittedTokenCount
  emitted : row.slotStream.lastEmittedTokenCount ≤ row.slotStream.sentTokenCount
  sent : row.slotStream.sentTokenCount ≤ row.tokenIds.length
  tokens : channel.tokens =
    (row.tokenIds.take row.slotStream.lastEmittedTokenCount).drop promptLength
  matching : row.Matching tok
    ((row.tokenIds.take row.slotStream.sentTokenCount).drop promptLength) given
  live : row.finished = false → row.slotStream.terminalReason = .kNotFinished

section Streamed

variable {tok : Tokenizer} {promptLength : Nat} {row : ExecutionRow} {channel : StreamChannel}
variable {given : Bytes}

theorem Streamed.generated (h : row.Streamed tok promptLength channel given) :
    row.generated = row.tokenIds.drop promptLength := by
  rw [ExecutionRow.generated, h.prompt, Nat.add_sub_cancel]

theorem Streamed.advances {row' : ExecutionRow} {added : List Token}
    (h : row.Streamed tok promptLength channel given) (hadvances : row.Advances row' added) :
    row'.Streamed tok promptLength channel given := by
  have hsent : row'.slotStream.sentTokenCount = row.slotStream.sentTokenCount := by
    rw [hadvances.slotStream]
  have hlast : row'.slotStream.lastEmittedTokenCount = row.slotStream.lastEmittedTokenCount := by
    rw [hadvances.slotStream]
  refine ⟨?_, h.notFinished, ?_, ?_, ?_, ?_, ?_, ?_, ?_⟩
  · rw [hadvances.slotStream]
    exact h.here
  · rw [hadvances.tokenIds, hadvances.count, List.length_append, h.prompt, Nat.add_assoc]
  · rw [hlast]
    exact h.first
  · rw [hlast, hsent]
    exact h.emitted
  · rw [hsent, hadvances.tokenIds, List.length_append]
    exact Nat.le_add_right_of_le h.sent
  · rw [hlast, hadvances.tokenIds, List.take_append_of_le_length (Nat.le_trans h.emitted h.sent)]
    exact h.tokens
  · rw [hsent, hadvances.tokenIds, List.take_append_of_le_length h.sent]
    exact h.matching.advances hadvances
  · intro hlive
    have hopen : row.finished = false := by
      by_contra hdead
      rw [(hadvances.dead (by simpa using hdead)).2] at hlive
      cases hlive
    exact (hadvances.live hlive).trans (h.live hopen)

/-- The text that is given out or held back after a decode. -/
def heard (tok : Tokenizer) (row : ExecutionRow) (given : Bytes) : Bytes :=
  given ++ row.slotStream.stopMatchBuffer ++ row.freshText tok

theorem Streamed.decoded_append (h : row.Streamed tok promptLength channel given) :
    (row.tokenIds.take row.slotStream.sentTokenCount).drop promptLength ++ row.undecoded =
      row.generated := by
  have hbehind : promptLength ≤ (row.tokenIds.take row.slotStream.sentTokenCount).length := by
    rw [List.length_take, Nat.min_eq_left h.sent]
    exact Nat.le_trans h.first h.emitted
  rw [undecoded, ← List.drop_append_of_le_length hbehind, List.take_append_drop, h.generated]

/-- The text of the generated tokens is what is heard and the flush of what a decode
leaves pending. -/
theorem Streamed.sanitized_eq (h : row.Streamed tok promptLength channel given) :
    sanitized (tok.pieces row.skipSpecial row.generated) =
      row.heard tok given ++ sanitizeUtf8Flush (row.freshPending tok) := by
  have hgrown : sanitizeUtf8Streaming (tok.pieces row.skipSpecial row.generated) [] =
      (given ++ row.slotStream.stopMatchBuffer ++ (sanitizeUtf8Streaming
          (tok.pieces row.skipSpecial row.undecoded) row.slotStream.pendingBytes).1,
        (sanitizeUtf8Streaming (tok.pieces row.skipSpecial row.undecoded)
          row.slotStream.pendingBytes).2) := by
    rw [← h.decoded_append, Tokenizer.pieces_append, sanitizeUtf8Streaming_append, h.matching.text]
  rw [sanitized, hgrown, heard, freshText, freshPending]
  cases row.finished with
  | false => simp
  | true => simp [sanitizeUtf8Flush]

theorem emit_finished (hchannel : row.slotStream.channel = some channel)
    (hfinished : row.finished = true) : ∃ closed, row.emit.slotStream.channel = some closed ∧
      closed.tokens = channel.tokens ++ (row.tokenIds.take row.slotStream.sentTokenCount).drop
        row.slotStream.lastEmittedTokenCount ∧
      closed.text = channel.text ++ (row.slotStream.pendingEmitText ++
        if row.slotStream.terminalReason = .kEndId ∨ row.slotStream.terminalReason = .kLength then
          row.slotStream.stopMatchBuffer else []) := by
  have hheld : row.releaseHeld.sentTokenCount = row.slotStream.sentTokenCount ∧
      row.releaseHeld.lastEmittedTokenCount = row.slotStream.lastEmittedTokenCount ∧
      row.releaseHeld.pendingEmitText = row.slotStream.pendingEmitText ++
        if row.slotStream.terminalReason = .kEndId ∨ row.slotStream.terminalReason = .kLength then
          row.slotStream.stopMatchBuffer
        else [] := by
    rw [releaseHeld, hfinished]
    cases row.slotStream.terminalReason <;> simp
  rcases emit_cases row with hsame | hpushed
  · cases hsame.2 with
    | inl hnone =>
      rw [hchannel] at hnone
      cases hnone
    | inr hquiet =>
      rw [hfinished] at hquiet
      cases hquiet.1
  · obtain ⟨pushed, hpush, hemit⟩ := hpushed
    rw [hchannel, Option.some.injEq] at hpush
    rw [hemit, ← hpush, hfinished]
    refine ⟨_, rfl, ?_, ?_⟩
    · rw [if_pos rfl, StreamChannel.tokens_finish, StreamChannel.tokens_push, chunkOf, hheld.1,
        hheld.2.1]
    · rw [if_pos rfl, StreamChannel.text_finish, StreamChannel.text_push, chunkOf, hheld.2.2]

/-- The chunk of a live slot, if there is one, carries the new tokens. -/
theorem emit_live (hchannel : row.slotStream.channel = some channel)
    (hlive : row.finished = false) :
    ∃ next, row.emit.slotStream.channel = some next ∧ next.mFinished = channel.mFinished ∧
      next.text = channel.text ++ row.slotStream.pendingEmitText ∧
      (row.emit.slotStream.lastEmittedTokenCount = row.slotStream.lastEmittedTokenCount ∧
          next.tokens = channel.tokens ∨
        row.emit.slotStream.lastEmittedTokenCount = row.slotStream.sentTokenCount ∧
          next.tokens = channel.tokens ++ (row.tokenIds.take row.slotStream.sentTokenCount).drop
            row.slotStream.lastEmittedTokenCount) := by
  rcases emit_cases row with hsame | hpushed
  · have hquiet : row.slotStream.pendingEmitText = [] := by
      rcases hsame.2 with hnone | hquiet
      · rw [hchannel] at hnone
        cases hnone
      · exact hquiet.2
    rw [hsame.1, hquiet, List.append_nil]
    exact ⟨channel, hchannel, rfl, rfl, Or.inl ⟨rfl, rfl⟩⟩
  · obtain ⟨pushed, hpush, hemit⟩ := hpushed
    rw [hchannel, Option.some.injEq] at hpush
    rw [hemit, ← hpush, hlive, releaseHeld_live hlive]
    refine ⟨_, rfl, rfl, ?_, Or.inr ⟨rfl, ?_⟩⟩
    · rw [if_neg Bool.false_ne_true, StreamChannel.text_push]
      rfl
    · rw [if_neg Bool.false_ne_true, StreamChannel.tokens_push]
      rfl

/-! ## A step that goes on -/

@[simp] theorem lastEmittedTokenCount_decode (tok : Tokenizer) (row : ExecutionRow) :
    (row.decode tok).slotStream.lastEmittedTokenCount = row.slotStream.lastEmittedTokenCount := by
  cases hdecodes : row.decodes with
  | false => rw [decode_held tok (Or.inl hdecodes)]
  | true =>
    cases hgated : row.gateClosed with
    | true => rw [decode_held tok (Or.inr hgated)]
    | false => rw [decode_eq tok hdecodes hgated]

theorem Streamed.decodes (h : row.Streamed tok promptLength channel given) : row.decodes = true := by
  rw [ExecutionRow.decodes, h.here]
  rfl

theorem Streamed.stopActive_live (h : row.Streamed tok promptLength channel given)
    (hlive : row.finished = false) : row.stopActive = !row.stopStrings.isEmpty := by
  rw [stopActive, h.live hlive]
  cases row.stopStrings.isEmpty <;> rfl

theorem Streamed.decode (h : row.Streamed tok promptLength channel channel.text)
    (hlive : row.finished = false)
    (hunmatched : (row.decode tok).slotStream.stopMatchedThisIter = false) :
    (row.decode tok).Streamed tok promptLength channel
      (channel.text ++ (row.decode tok).slotStream.pendingEmitText) := by
  cases hgated : row.gateClosed with
  | true =>
    have hkept := h.matching.decode_held (Or.inr hgated)
    rw [hkept.2, List.append_nil]
    rw [decode_held tok (Or.inr hgated)] at hkept ⊢
    exact ⟨h.here, h.notFinished, h.prompt, h.first, h.emitted, h.sent, h.tokens, hkept.1, h.live⟩
  | false =>
    have hgoes : (row.matchOutcome tok).1.stopMatched = false := by
      rw [decode_eq tok h.decodes hgated] at hunmatched
      exact hunmatched
    have hdecoded := h.matching.decode h.decodes hgated hlive (h.stopActive_live hlive) hgoes
    rw [h.decoded_append, h.generated] at hdecoded
    rw [decode_eq tok h.decodes hgated] at hdecoded ⊢
    refine ⟨h.here, h.notFinished, h.prompt, h.first, Nat.le_trans h.emitted h.sent,
      Nat.le_refl _, h.tokens, ?_, h.live⟩
    dsimp only
    rw [List.take_length]
    exact hdecoded

theorem Streamed.emit
    (h : row.Streamed tok promptLength channel (channel.text ++ row.slotStream.pendingEmitText))
    (hlive : row.finished = false) : ∃ next, row.emit.Streamed tok promptLength next next.text := by
  obtain ⟨next, hnext, hfinished, htext, htokens⟩ := emit_live h.here hlive
  obtain ⟨hsent, hpending, hlongest, -, hbuffer⟩ := emit_keeps row
  have hview := view_emit row
  have hids : row.emit.tokenIds = row.tokenIds := congrArg FinishView.tokenIds hview
  have hcount : row.emit.currentGenerateLength = row.currentGenerateLength :=
    congrArg FinishView.currentGenerateLength hview
  have hreason : row.emit.slotStream.terminalReason = row.slotStream.terminalReason :=
    congrArg FinishView.terminalReason hview
  have hstops : row.emit.stopStrings = row.stopStrings := congrArg FinishView.stopStrings hview
  have hall := List.take_append_drop row.slotStream.lastEmittedTokenCount
    (row.tokenIds.take row.slotStream.sentTokenCount)
  rw [List.take_take, Nat.min_eq_left h.emitted] at hall
  have hbehind : promptLength ≤
      (row.tokenIds.take row.slotStream.lastEmittedTokenCount).length := by
    rw [List.length_take, Nat.min_eq_left (Nat.le_trans h.emitted h.sent)]
    exact h.first
  refine ⟨next, hnext, hfinished.trans h.notFinished, ?_, ?_, ?_, ?_, ?_, ⟨?_, ?_, ?_, ?_⟩, ?_⟩
  · rw [hids, hcount]
    exact h.prompt
  · cases htokens with
    | inl hsame => rw [hsame.1]; exact h.first
    | inr hnew => rw [hnew.1]; exact Nat.le_trans h.first h.emitted
  · rw [hsent]
    rcases htokens with hsame | hnew
    · rw [hsame.1]; exact h.emitted
    · rw [hnew.1]
  · rw [hsent, hids]
    exact h.sent
  · rw [hids]
    rcases htokens with hsame | hnew
    · rw [hsame.1, hsame.2]; exact h.tokens
    · rw [hnew.1, hnew.2, h.tokens, ← List.drop_append_of_le_length hbehind, hall]
  · rw [skipSpecial_emit, hids, hsent, htext, hbuffer hlive, hpending]
    exact h.matching.text
  · rw [hstops, htext, hbuffer hlive]
    exact h.matching.held
  · rw [hstops, hbuffer hlive]
    exact h.matching.idle
  · rw [hstops, hlongest]
    exact h.matching.longest
  · rw [finished_emit, hreason]
    exact h.live

theorem advances_decodeAndFinish (cfg : SessionConfig) (guided : Bool) (row : ExecutionRow) :
    (row.decode cfg.tokenizer).Advances (row.decodeAndFinish cfg guided) [] ∧
      (row.decode cfg.tokenizer).Settles (row.decodeAndFinish cfg guided).finished
        (row.decodeAndFinish cfg guided).slotStream.terminalReason :=
  advances_settles cfg guided (row.decode cfg.tokenizer)

/-- A step that leaves the slot live keeps its channel in order. -/
theorem Streamed.step_live {cfg : SessionConfig}
    (h : row.Streamed cfg.tokenizer promptLength channel channel.text) (guided : Bool)
    (hlive : (row.decodeAndFinish cfg guided).finished = false) :
    ∃ next, (row.decodeAndFinish cfg guided).emit.Streamed cfg.tokenizer promptLength next
      next.text := by
  have hview := view_decode cfg.tokenizer row
  obtain ⟨hadvances, hsettles⟩ := advances_decodeAndFinish cfg guided row
  have hdecodedLive : (row.decode cfg.tokenizer).finished = false := by
    by_contra hdead
    have hstays := (hadvances.dead (by simpa using hdead)).2
    rw [hlive] at hstays
    cases hstays
  have hrowLive : row.finished = false :=
    (congrArg FinishView.finished hview).symm.trans hdecodedLive
  have hreason : (row.decode cfg.tokenizer).slotStream.terminalReason = .kNotFinished :=
    (congrArg FinishView.terminalReason hview).trans (h.live hrowLive)
  have hunmatched := (hsettles.live hdecodedLive hreason).2.1 hlive
  have hpending : (row.decodeAndFinish cfg guided).slotStream.pendingEmitText =
      (row.decode cfg.tokenizer).slotStream.pendingEmitText := by
    rw [hadvances.slotStream]
  have hnext := (h.decode hrowLive hunmatched).advances hadvances
  rw [← hpending] at hnext
  exact hnext.emit hlive

/-! ## The step that closes the channel -/

/-- What a closed channel has to hold, by the reason its slot ended for: every token,
and the whole text, cut before the earliest stop string where the slot stopped on
one.  After a cancellation or failure the text is a prefix. -/
def Complete (stops : List Bytes) (generated : List Token) (text : Bytes)
    (channel : StreamChannel) : FinishReason → Prop
  | .kEndId | .kLength => channel.tokens = generated ∧ channel.text = text
  | .kStopWords => channel.tokens = generated ∧ channel.text = cut stops text
  | _ => channel.text <+: text

section Complete

variable {stops : List Bytes} {generated : List Token} {text : Bytes}
variable {closed : StreamChannel} {reason : FinishReason}

theorem complete_whole (hreason : reason = .kEndId ∨ reason = .kLength) :
    Complete stops generated text closed reason ↔
      closed.tokens = generated ∧ closed.text = text := by
  rcases hreason with rfl | rfl <;> exact Iff.rfl

theorem complete_cancelled (hreason : reason = .kCancelled ∨ reason = .kError) :
    Complete stops generated text closed reason ↔ closed.text <+: text := by
  rcases hreason with rfl | rfl <;> exact Iff.rfl

theorem Complete.unique {channel' : StreamChannel}
    (h : Complete stops generated text channel reason)
    (h' : Complete stops generated text channel' reason) (hends : EndsItself reason) :
    channel'.tokens = channel.tokens ∧ channel'.text = channel.text := by
  cases hends with
  | kEndId => exact ⟨h'.1.trans h.1.symm, h'.2.trans h.2.symm⟩
  | kLength => exact ⟨h'.1.trans h.1.symm, h'.2.trans h.2.symm⟩
  | kStopWords => exact ⟨h'.1.trans h.1.symm, h'.2.trans h.2.symm⟩

end Complete

/-- All of the output of the slot was delivered. -/
def Delivers (tok : Tokenizer) (row : ExecutionRow) (channel : StreamChannel) : Prop :=
  Complete row.stopStrings row.generated (sanitized (tok.pieces row.skipSpecial row.generated))
    channel row.slotStream.terminalReason

/-- When the decode that ends a slot loses nothing.  A slot that was ended before it
needs nothing more, unless it was cancelled or failed: then the text held back is
skipped.  For a live slot the stream interval must not hold tokens back, and no
incomplete character may be left over, unless a stop string was found before it. -/
def DeliversAll (tok : Tokenizer) (row : ExecutionRow) (given : Bytes) : Prop :=
  if row.finished then
    row.slotStream.terminalReason = .kCancelled ∨ row.slotStream.terminalReason = .kError →
      row.freshText tok <+: row.slotStream.stopMatchBuffer ++ row.freshText tok
  else if row.gateClosed then
    row.undecoded = [] ∧ row.slotStream.pendingBytes = []
  else
    row.freshPending tok = [] ∨ ∃ pos, earliest row.stopStrings (row.heard tok given) = some pos ∧
      earliest row.stopStrings
        (row.heard tok given ++ sanitizeUtf8Flush (row.freshPending tok)) = some pos

theorem finished_decode (tok : Tokenizer) (row : ExecutionRow) :
    (row.decode tok).finished = row.finished :=
  congrArg FinishView.finished (view_decode tok row)

theorem terminalReason_decode (tok : Tokenizer) (row : ExecutionRow) :
    (row.decode tok).slotStream.terminalReason = row.slotStream.terminalReason :=
  congrArg FinishView.terminalReason (view_decode tok row)

/-- Nothing is held back when the slot has ended. -/
theorem Streamed.ended (h : row.Streamed tok promptLength channel given)
    (hfinished : row.finished = true) : row.gateClosed = false ∧ row.freshPending tok = [] := by
  rw [gateClosed, h.here, freshPending, hfinished]
  exact ⟨rfl, rfl⟩

theorem Streamed.sent_decode (h : row.Streamed tok promptLength channel given) :
    row.slotStream.lastEmittedTokenCount ≤ (row.decode tok).slotStream.sentTokenCount ∧
      (row.gateClosed = false →
        (row.decode tok).slotStream.sentTokenCount = row.tokenIds.length) := by
  cases hgated : row.gateClosed with
  | true =>
    rw [decode_held tok (Or.inr hgated)]
    exact ⟨h.emitted, (fun hfalse => by cases hfalse)⟩
  | false =>
    rw [decode_eq tok h.decodes hgated]
    exact ⟨Nat.le_trans h.emitted h.sent, fun _ => rfl⟩

theorem Streamed.close {cfg : SessionConfig} {guided : Bool} {closed : StreamChannel}
    (h : row.Streamed cfg.tokenizer promptLength channel given)
    (hfinished : (row.decodeAndFinish cfg guided).finished = true)
    (hclosed : (row.decodeAndFinish cfg guided).emit.slotStream.channel = some closed) :
    closed.tokens = (row.tokenIds.take
        (row.decode cfg.tokenizer).slotStream.sentTokenCount).drop promptLength ∧
      closed.text = channel.text ++ ((row.decode cfg.tokenizer).slotStream.pendingEmitText ++
        if (row.decodeAndFinish cfg guided).slotStream.terminalReason = .kEndId ∨
            (row.decodeAndFinish cfg guided).slotStream.terminalReason = .kLength then
          (row.decode cfg.tokenizer).slotStream.stopMatchBuffer else []) := by
  have hadvances := (advances_decodeAndFinish cfg guided row).1
  have hids : (row.decodeAndFinish cfg guided).tokenIds = row.tokenIds := by
    rw [hadvances.tokenIds, List.append_nil]
    exact congrArg FinishView.tokenIds (view_decode cfg.tokenizer row)
  have hchannel : (row.decodeAndFinish cfg guided).slotStream.channel = some channel := by
    rw [channel_decodeAndFinish]
    exact h.here
  have hstream := hadvances.slotStream
  obtain ⟨closed', hclosed', htokens, htext⟩ := emit_finished hchannel hfinished
  rw [hclosed, Option.some.injEq] at hclosed'
  rw [← hclosed'] at htokens htext
  constructor
  · have hlast : (row.decodeAndFinish cfg guided).slotStream.lastEmittedTokenCount =
        row.slotStream.lastEmittedTokenCount := by
      rw [hstream, ← lastEmittedTokenCount_decode cfg.tokenizer row]
    have hsent : (row.decodeAndFinish cfg guided).slotStream.sentTokenCount =
        (row.decode cfg.tokenizer).slotStream.sentTokenCount := by
      rw [hstream]
    have hall := List.take_append_drop row.slotStream.lastEmittedTokenCount
      (row.tokenIds.take (row.decode cfg.tokenizer).slotStream.sentTokenCount)
    rw [List.take_take, Nat.min_eq_left h.sent_decode.1] at hall
    have hbehind : promptLength ≤
        (row.tokenIds.take row.slotStream.lastEmittedTokenCount).length := by
      rw [List.length_take, Nat.min_eq_left (Nat.le_trans h.emitted h.sent)]
      exact h.first
    rw [htokens, hids, hlast, hsent, h.tokens, ← List.drop_append_of_le_length hbehind, hall]
  · have hpending : (row.decodeAndFinish cfg guided).slotStream.pendingEmitText =
        (row.decode cfg.tokenizer).slotStream.pendingEmitText := by
      rw [hstream]
    have hbuffer : (row.decodeAndFinish cfg guided).slotStream.stopMatchBuffer =
        (row.decode cfg.tokenizer).slotStream.stopMatchBuffer := by
      rw [hstream]
    rw [htext, hpending, hbuffer]

/-- What a slot keeps through the rest of a step. -/
theorem step_keeps (cfg : SessionConfig) (guided : Bool) (row : ExecutionRow) :
    (row.decodeAndFinish cfg guided).emit.generated = row.generated ∧
      (row.decodeAndFinish cfg guided).emit.stopStrings = row.stopStrings ∧
      (row.decodeAndFinish cfg guided).emit.skipSpecial = row.skipSpecial := by
  have hadvances := (advances_decodeAndFinish cfg guided row).1
  have hdecode := view_decode cfg.tokenizer row
  have hemit := view_emit (row.decodeAndFinish cfg guided)
  have hids : (row.decodeAndFinish cfg guided).tokenIds = (row.decode cfg.tokenizer).tokenIds := by
    rw [hadvances.tokenIds, List.append_nil]
  have hcount : (row.decodeAndFinish cfg guided).currentGenerateLength =
      (row.decode cfg.tokenizer).currentGenerateLength := hadvances.count
  refine ⟨?_, ?_, ?_⟩
  · rw [generated_of_view hemit, ExecutionRow.generated, hids, hcount]
    exact generated_of_view hdecode
  · exact ((congrArg FinishView.stopStrings hemit).trans hadvances.stopStrings).trans
      (congrArg FinishView.stopStrings hdecode)
  · rw [skipSpecial_emit, ← skipSpecial_decode cfg.tokenizer row, skipSpecial, skipSpecial,
      hadvances.slotStream]

theorem Streamed.delivers_eq {cfg : SessionConfig}
    (h : row.Streamed cfg.tokenizer promptLength channel given) (guided : Bool)
    (closed : StreamChannel) : (row.decodeAndFinish cfg guided).emit.Delivers cfg.tokenizer closed ↔
      Complete row.stopStrings row.generated
        (row.heard cfg.tokenizer given ++ sanitizeUtf8Flush (row.freshPending cfg.tokenizer))
        closed (row.decodeAndFinish cfg guided).slotStream.terminalReason := by
  obtain ⟨hgenerated, hstops, hskip⟩ := step_keeps cfg guided row
  have hreason : (row.decodeAndFinish cfg guided).emit.slotStream.terminalReason =
      (row.decodeAndFinish cfg guided).slotStream.terminalReason :=
    congrArg FinishView.terminalReason (view_emit (row.decodeAndFinish cfg guided))
  rw [Delivers, hgenerated, hstops, hskip, hreason, h.sanitized_eq]

/-- What a decode that is not held back gives out, while the matcher is not off. -/
theorem Streamed.decode_open (h : row.Streamed tok promptLength channel given)
    (hopen : row.gateClosed = false) (hactive : row.stopActive = !row.stopStrings.isEmpty) :
    (row.decode tok).slotStream.stopMatchedThisIter =
        (earliest row.stopStrings (row.heard tok given)).isSome ∧
      ((row.decode tok).slotStream.stopMatchedThisIter = true →
        given ++ (row.decode tok).slotStream.pendingEmitText =
            cut row.stopStrings (row.heard tok given) ∧
          (row.decode tok).slotStream.stopMatchBuffer = []) ∧
      ((row.decode tok).slotStream.stopMatchedThisIter = false →
        given ++ ((row.decode tok).slotStream.pendingEmitText ++
            (row.decode tok).slotStream.stopMatchBuffer) = row.heard tok given ∧
          (row.finished = true → (row.decode tok).slotStream.stopMatchBuffer = [])) := by
  rw [decode_eq tok h.decodes hopen, heard]
  dsimp only
  cases hstops : row.stopStrings.isEmpty with
  | true =>
    have hnil := List.isEmpty_iff.1 hstops
    have hoff : row.stopActive = false := by rw [hactive, hstops]; rfl
    have hidle := h.matching.idle hnil
    rw [matchOutcome, hoff, if_neg Bool.false_ne_true, hidle, hnil]
    refine ⟨rfl, (fun hfalse => by cases hfalse), fun _ => ⟨?_, fun _ => rfl⟩⟩
    simp
  | false =>
    have hon : row.stopActive = true := by rw [hactive, hstops]; rfl
    have hmatched := h.matching.decode_matched hon
    refine ⟨hmatched.1, fun hmatch => hmatched.2 hmatch, ?_⟩
    intro hunmatched
    have hout := h.matching.decode_emitted hunmatched
    rw [if_pos hon] at hout
    refine ⟨?_, hout.2 hon⟩
    rw [hout.1, List.append_assoc]

section Close

variable {cfg : SessionConfig} {guided : Bool} {closed : StreamChannel}
variable (h : row.Streamed cfg.tokenizer promptLength channel channel.text)
variable (hclosed : (row.decodeAndFinish cfg guided).emit.slotStream.channel = some closed)

include h hclosed

/-- The stream interval holds tokens back when the slot ends. -/
theorem Streamed.delivers_gated (hlive : row.finished = false) (hgated : row.gateClosed = true)
    (hfinished : (row.decodeAndFinish cfg guided).finished = true) :
    (row.decodeAndFinish cfg guided).emit.Delivers cfg.tokenizer closed ↔
      row.DeliversAll cfg.tokenizer channel.text := by
  obtain ⟨htokens, htext⟩ := h.close hfinished hclosed
  have hsettles := (advances_decodeAndFinish cfg guided row).2
  have hheld := decode_held cfg.tokenizer (Or.inr hgated)
  have hreason : (row.decodeAndFinish cfg guided).slotStream.terminalReason = .kEndId ∨
      (row.decodeAndFinish cfg guided).slotStream.terminalReason = .kLength := by
    apply (hsettles.live ((finished_decode _ row).trans hlive)
      ((terminalReason_decode _ row).trans (h.live hlive))).2.2 hfinished
    rw [hheld]
  rw [if_pos hreason, hheld] at htext
  rw [hheld] at htokens
  dsimp only at htokens htext
  have hempty : row.undecoded = [] ↔ row.tokenIds.length ≤ row.slotStream.sentTokenCount :=
    List.drop_eq_nil_iff
  have hall : closed.tokens = row.generated ↔ row.undecoded = [] := by
    rw [htokens, h.generated, hempty]
    constructor
    · intro hsame
      have hlengths := congrArg List.length hsame
      rw [List.length_drop, List.length_drop, List.length_take] at hlengths
      have hfirst := Nat.le_trans h.first h.emitted
      have hprompt := h.prompt
      have hsent := h.sent
      omega
    · intro hlong
      rw [List.take_of_length_le hlong]
  rw [h.delivers_eq, complete_whole hreason, hall, DeliversAll, hlive, if_neg Bool.false_ne_true,
    if_pos hgated]
  apply and_congr_right
  intro hnone
  -- the bytes pending since the last decode are all that is missing
  have hidle : sanitizeUtf8Streaming (cfg.tokenizer.pieces row.skipSpecial row.undecoded)
      row.slotStream.pendingBytes = ([], row.slotStream.pendingBytes) := by
    have hheldBytes := sanitizeUtf8Streaming_held (cfg.tokenizer.pieces row.skipSpecial
      ((row.tokenIds.take row.slotStream.sentTokenCount).drop promptLength)) []
    rw [h.matching.text] at hheldBytes
    rw [hnone]
    exact hheldBytes
  rw [htext, heard, freshText, freshPending, hidle, hlive, ← sanitizeUtf8Flush_eq_nil]
  simp

/-- The slot was cancelled or failed before the decode. -/
theorem Streamed.delivers_cancelled (hcancelled : row.slotStream.terminalReason = .kCancelled ∨
      row.slotStream.terminalReason = .kError) (hfinished : row.finished = true) :
    (row.decodeAndFinish cfg guided).emit.Delivers cfg.tokenizer closed ↔
      row.DeliversAll cfg.tokenizer channel.text := by
  have hadvances := (advances_decodeAndFinish cfg guided row).1
  have hdecoded := (finished_decode cfg.tokenizer row).trans hfinished
  have hdecodedReason := terminalReason_decode cfg.tokenizer row
  have hreason : (row.decodeAndFinish cfg guided).slotStream.terminalReason =
      row.slotStream.terminalReason := by
    rw [← hdecodedReason]
    apply hadvances.cancelled hdecoded
    rw [hdecodedReason]
    exact hcancelled
  obtain ⟨-, htext⟩ := h.close (hadvances.dead hdecoded).2 hclosed
  rw [hreason] at htext
  obtain ⟨hopen, hnothing⟩ := h.ended hfinished
  have hoff : row.stopActive = false := by
    rw [stopActive]
    rcases hcancelled with heq | heq
    · rw [heq]; simp
    · rw [heq]; simp
  have hpending : (row.decode cfg.tokenizer).slotStream.pendingEmitText =
      row.freshText cfg.tokenizer := by
    rw [decode_eq cfg.tokenizer h.decodes hopen, matchOutcome, hoff, if_neg Bool.false_ne_true]
  have hends : ¬ (row.slotStream.terminalReason = .kEndId ∨
      row.slotStream.terminalReason = .kLength) := by
    rcases hcancelled with heq | heq
    · rw [heq]; decide
    · rw [heq]; decide
  rw [hpending, if_neg hends, List.append_nil] at htext
  rw [h.delivers_eq, hreason, complete_cancelled hcancelled, DeliversAll, hfinished, if_pos rfl,
    htext, heard, hnothing, List.append_assoc, List.append_assoc, List.prefix_append_right_inj]
  show _ <+: row.slotStream.stopMatchBuffer ++ (row.freshText cfg.tokenizer ++ []) ↔ _
  rw [List.append_nil]
  exact ⟨fun hbegins _ => hbegins, fun hbegins => hbegins hcancelled⟩

/-- A slot that ended before the decode, as a joiner that is terminal from birth. -/
theorem Streamed.delivers_final (hfinished : row.finished = true)
    (hcalm : ¬ (row.slotStream.terminalReason = .kCancelled ∨
      row.slotStream.terminalReason = .kError)) :
    (row.decodeAndFinish cfg guided).emit.Delivers cfg.tokenizer closed := by
  obtain ⟨hadvances, hsettles⟩ := advances_decodeAndFinish cfg guided row
  have hdecoded := (finished_decode cfg.tokenizer row).trans hfinished
  have hdecodedReason := terminalReason_decode cfg.tokenizer row
  obtain ⟨htokens, htext⟩ := h.close (hadvances.dead hdecoded).2 hclosed
  obtain ⟨hopen, hnothing⟩ := h.ended hfinished
  have hactive : row.stopActive = !row.stopStrings.isEmpty := by
    rw [not_or] at hcalm
    rw [stopActive, bne_iff_ne.2 hcalm.1, bne_iff_ne.2 hcalm.2, Bool.and_true, Bool.and_true]
  obtain ⟨hmatched, hcut, hwhole⟩ := h.decode_open hopen hactive
  rw [h.sent_decode.2 hopen, List.take_length, ← h.generated] at htokens
  rw [h.delivers_eq, hnothing]
  show Complete _ _ (row.heard cfg.tokenizer channel.text ++ []) closed _
  rw [List.append_nil]
  cases hstops : (row.decode cfg.tokenizer).slotStream.stopMatchedThisIter with
  | true =>
    have hreason : (row.decodeAndFinish cfg guided).slotStream.terminalReason = .kStopWords := by
      generalize (row.decodeAndFinish cfg guided).finished = finished at hsettles
      generalize (row.decodeAndFinish cfg guided).slotStream.terminalReason = reason at hsettles ⊢
      cases hsettles with
      | kept hunmatched =>
        rw [hdecodedReason] at hunmatched
        exact absurd (hunmatched hstops) hcalm
      | ended hlive =>
        rw [hdecoded] at hlive
        cases hlive
      | stopped => rfl
    rw [hreason]
    refine ⟨htokens, ?_⟩
    rw [htext, hreason, if_neg (by decide), List.append_nil]
    exact (hcut hstops).1
  | false =>
    obtain ⟨hall, hnone⟩ := hwhole hstops
    rw [hnone hfinished, List.append_nil] at hall
    rw [hnone hfinished, ite_self, List.append_nil, hall] at htext
    have hclean : cut row.stopStrings (row.heard cfg.tokenizer channel.text) =
        row.heard cfg.tokenizer channel.text := by
      apply cut_of_clean
      rw [← earliest_eq_none, ← Option.not_isSome_iff_eq_none, ← hmatched, hstops]
      exact Bool.false_ne_true
    cases (row.decodeAndFinish cfg guided).slotStream.terminalReason with
    | kEndId => exact ⟨htokens, htext⟩
    | kLength => exact ⟨htokens, htext⟩
    | kStopWords => exact ⟨htokens, htext.trans hclean.symm⟩
    | kNotFinished =>
      show closed.text <+: _
      rw [htext]
    | kCancelled =>
      show closed.text <+: _
      rw [htext]
    | kError =>
      show closed.text <+: _
      rw [htext]

/-- A live slot whose tokens are all decoded when it ends. -/
theorem Streamed.delivers_open (hlive : row.finished = false) (hopen : row.gateClosed = false)
    (hfinished : (row.decodeAndFinish cfg guided).finished = true) :
    (row.decodeAndFinish cfg guided).emit.Delivers cfg.tokenizer closed ↔
      row.DeliversAll cfg.tokenizer channel.text := by
  have hsettles := (advances_decodeAndFinish cfg guided row).2
  obtain ⟨hstopped, -, hends⟩ := hsettles.live ((finished_decode _ row).trans hlive)
    ((terminalReason_decode _ row).trans (h.live hlive))
  obtain ⟨htokens, htext⟩ := h.close hfinished hclosed
  obtain ⟨hmatched, hcut, hwhole⟩ := h.decode_open hopen (h.stopActive_live hlive)
  rw [h.sent_decode.2 hopen, List.take_length, ← h.generated] at htokens
  rw [h.delivers_eq, DeliversAll, hlive, if_neg Bool.false_ne_true, hopen,
    if_neg Bool.false_ne_true]
  cases hstops : (row.decode cfg.tokenizer).slotStream.stopMatchedThisIter with
  | true =>
    have hreason := hstopped.2 hstops
    rw [hreason, if_neg (by decide), List.append_nil, (hcut hstops).1] at htext
    rw [hstops] at hmatched
    obtain ⟨pos, hpos⟩ := Option.isSome_iff_exists.1 hmatched.symm
    have hcomplete : ∀ text : Bytes, Complete row.stopStrings row.generated text closed
        .kStopWords ↔ cut row.stopStrings (row.heard cfg.tokenizer channel.text) =
          cut row.stopStrings text := by
      intro text
      rw [← htext]
      exact and_iff_right htokens
    rw [hreason, hcomplete, cut_append hpos, hpos]
    constructor
    · exact fun hsame => Or.inr ⟨pos, rfl, hsame⟩
    · intro hall
      rcases hall with hnothing | hstays
      · rw [hnothing]
        show earliest row.stopStrings (row.heard cfg.tokenizer channel.text ++ []) = some pos
        rw [List.append_nil, hpos]
      · obtain ⟨pos', hfirst, hstays⟩ := hstays
        rw [hstays, hfirst]
  | false =>
    have hreason := hends hfinished hstops
    rw [if_pos hreason, (hwhole hstops).1] at htext
    have hnone : earliest row.stopStrings (row.heard cfg.tokenizer channel.text) = none := by
      rw [← Option.not_isSome_iff_eq_none, ← hmatched, hstops]
      exact Bool.false_ne_true
    rw [complete_whole hreason, hnone, htext, ← sanitizeUtf8Flush_eq_nil]
    simp [htokens]

/-- The step that ends a slot delivers all of its output exactly under `DeliversAll`. -/
theorem Streamed.delivers_iff (hfinished : (row.decodeAndFinish cfg guided).finished = true) :
    (row.decodeAndFinish cfg guided).emit.Delivers cfg.tokenizer closed ↔
      row.DeliversAll cfg.tokenizer channel.text := by
  cases hlive : row.finished with
  | true =>
    by_cases hcancelled : row.slotStream.terminalReason = .kCancelled ∨
        row.slotStream.terminalReason = .kError
    · exact h.delivers_cancelled hclosed hcancelled hlive
    · rw [DeliversAll, hlive, if_pos rfl]
      exact iff_of_true (h.delivers_final hclosed hlive hcancelled)
        fun hreason => absurd hreason hcancelled
  | false =>
    cases hgated : row.gateClosed with
    | true => exact h.delivers_gated hclosed hlive hgated hfinished
    | false => exact h.delivers_open hclosed hlive hgated hfinished

end Close

/-! ## The finalizer -/

/-- The text of the tokens decoded so far. -/
def decodedText (tok : Tokenizer) (row : ExecutionRow) : Bytes :=
  (sanitizeUtf8Streaming (tok.pieces row.skipSpecial
    ((row.tokenIds.take row.slotStream.sentTokenCount).drop
      (row.tokenIds.length - row.currentGenerateLength))) []).1

/-- The text that the finalizer adds: of the tokens still to be decoded, and the
flush. -/
def abortText (tok : Tokenizer) (row : ExecutionRow) : Bytes :=
  let out := sanitizeUtf8Streaming (tok.pieces row.skipSpecial row.undecoded)
    row.slotStream.pendingBytes
  out.1 ++ sanitizeUtf8Flush out.2

/-- The channel is open, and has a part of the decoded text. -/
structure Owing (tok : Tokenizer) (row : ExecutionRow) (channel : StreamChannel) : Prop where
  here : row.slotStream.channel = some channel
  notFinished : channel.mFinished = false
  behind : row.tokenIds.length - row.currentGenerateLength ≤ row.slotStream.sentTokenCount
  sent : row.slotStream.sentTokenCount ≤ row.tokenIds.length
  text : channel.text <+: row.decodedText tok
  pending :
    row.slotStream.pendingBytes = (sanitizeUtf8Streaming (tok.pieces row.skipSpecial
        ((row.tokenIds.take row.slotStream.sentTokenCount).drop
          (row.tokenIds.length - row.currentGenerateLength))) []).2 ∨
      row.slotStream.pendingBytes = [] ∧ row.slotStream.sentTokenCount = row.tokenIds.length

theorem Streamed.owing (h : row.Streamed tok promptLength channel channel.text) :
    row.Owing tok channel := by
  have hprompt : row.tokenIds.length - row.currentGenerateLength = promptLength := by
    rw [h.prompt, Nat.add_sub_cancel]
  refine ⟨h.here, h.notFinished, ?_, h.sent, ?_, Or.inl ?_⟩
  · rw [hprompt]
    exact Nat.le_trans h.first h.emitted
  · rw [decodedText, hprompt, h.matching.text]
    exact List.prefix_append _ _
  · rw [hprompt, h.matching.text]

theorem Owing.advances {row' : ExecutionRow} (h : row.Owing tok channel)
    (hadvances : row.Advances row' []) : row'.Owing tok channel := by
  have hids : row'.tokenIds = row.tokenIds := by
    rw [hadvances.tokenIds, List.append_nil]
  have hcount : row'.currentGenerateLength = row.currentGenerateLength := hadvances.count
  have hskip : row'.skipSpecial = row.skipSpecial := by
    rw [skipSpecial, skipSpecial, hadvances.slotStream]
  have hsent : row'.slotStream.sentTokenCount = row.slotStream.sentTokenCount := by
    rw [hadvances.slotStream]
  have hpending : row'.slotStream.pendingBytes = row.slotStream.pendingBytes := by
    rw [hadvances.slotStream]
  refine ⟨?_, h.notFinished, ?_, ?_, ?_, ?_⟩
  · rw [hadvances.slotStream]
    exact h.here
  · rw [hids, hcount, hsent]
    exact h.behind
  · rw [hids, hsent]
    exact h.sent
  · rw [decodedText, hids, hcount, hskip, hsent]
    exact h.text
  · rw [hids, hcount, hskip, hsent, hpending]
    exact h.pending

theorem Streamed.owing_decode (h : row.Streamed tok promptLength channel channel.text) :
    (row.decode tok).Owing tok channel := by
  have hskip := skipSpecial_decode tok row
  cases hgated : row.gateClosed with
  | true =>
    have howing := h.owing
    rw [decode_held tok (Or.inr hgated)]
    exact ⟨howing.here, howing.notFinished, howing.behind, howing.sent, howing.text, howing.pending⟩
  | false =>
    have hprompt : row.tokenIds.length - row.currentGenerateLength = promptLength := by
      rw [h.prompt, Nat.add_sub_cancel]
    have hfinal : sanitizeUtf8Streaming (tok.pieces row.skipSpecial row.generated) [] =
        (channel.text ++ row.slotStream.stopMatchBuffer ++ (sanitizeUtf8Streaming
            (tok.pieces row.skipSpecial row.undecoded) row.slotStream.pendingBytes).1,
          (sanitizeUtf8Streaming (tok.pieces row.skipSpecial row.undecoded)
            row.slotStream.pendingBytes).2) := by
      rw [← h.decoded_append, Tokenizer.pieces_append, sanitizeUtf8Streaming_append,
        h.matching.text]
    rw [h.generated] at hfinal
    refine ⟨?_, h.notFinished, ?_, ?_, ?_, ?_⟩
    · rw [channel_decode]
      exact h.here
    · rw [decode_eq tok h.decodes hgated]
      exact Nat.sub_le _ _
    · rw [decode_eq tok h.decodes hgated]
    · rw [decodedText, hskip, decode_eq tok h.decodes hgated]
      dsimp only
      rw [List.take_length, hprompt, hfinal]
      dsimp only
      rw [List.append_assoc]
      exact List.prefix_append _ _
    · rw [hskip, decode_eq tok h.decodes hgated]
      dsimp only
      rw [List.take_length, hprompt, hfinal, freshPending]
      cases row.finished with
      | true => exact Or.inr ⟨rfl, rfl⟩
      | false => exact Or.inl rfl

/-- The finalizer's text is a prefix exactly when the new text continues what was
delivered: the text held back is skipped. -/
theorem Owing.finalize (h : row.Owing tok channel) :
    ∃ closed, (row.finalize tok).slotStream.channel = some closed ∧ closed.mFinished = true ∧
      (closed.text <+: sanitized (tok.pieces row.skipSpecial row.generated) ↔ row.abortText tok <+:
          (row.decodedText tok).drop channel.text.length ++ row.abortText tok) := by
  have hskip : channel.mSkipSpecialTokens = row.skipSpecial := by
    rw [skipSpecial, h.here]
  have hchunk : (row.abortChunk tok channel).text = row.abortText tok := by
    rw [abortChunk, hskip]
    rfl
  have hclosed : (row.finalize tok).slotStream.channel =
      some ((channel.push (row.abortChunk tok channel)).finish .kError) := by
    rw [ExecutionRow.finalize, h.here]
    dsimp only
    rw [h.notFinished, if_neg Bool.false_ne_true]
  obtain ⟨rest, hrest⟩ := h.text
  have hgenerated : row.generated = (row.tokenIds.take row.slotStream.sentTokenCount).drop
      (row.tokenIds.length - row.currentGenerateLength) ++ row.undecoded := by
    have hbehind : row.tokenIds.length - row.currentGenerateLength ≤
        (row.tokenIds.take row.slotStream.sentTokenCount).length := by
      rw [List.length_take, Nat.min_eq_left h.sent]
      exact h.behind
    rw [undecoded, ← List.drop_append_of_le_length hbehind, List.take_append_drop, generated]
  refine ⟨_, hclosed, StreamChannel.mFinished_finish _ _, ?_⟩
  rw [StreamChannel.text_finish, StreamChannel.text_push, hchunk, ← hrest, List.drop_left]
  rcases h.pending with hpending | hall
  · have hwhole : sanitized (tok.pieces row.skipSpecial row.generated) =
        channel.text ++ (rest ++ row.abortText tok) := by
      rw [← List.append_assoc, hrest, sanitized, hgenerated, Tokenizer.pieces_append,
        sanitizeUtf8Streaming_append, ← hpending, decodedText, abortText, List.append_assoc]
    rw [hwhole, List.prefix_append_right_inj]
  · have hnothing : row.abortText tok = [] := by
      rw [abortText, undecoded, hall.1, hall.2, List.drop_length]
      rfl
    rw [hnothing, List.append_nil]
    apply iff_of_true _ List.nil_prefix
    have hpart : channel.text <+: row.decodedText tok := ⟨rest, hrest⟩
    apply hpart.trans
    rw [sanitized, hgenerated, Tokenizer.pieces_append, sanitizeUtf8Streaming_append,
      List.append_assoc]
    exact List.prefix_append _ _

end Streamed

/-! ## Along a life -/

/-- The channel of the row, if it is open, is in order. -/
def InOrder (tok : Tokenizer) (row : ExecutionRow) : Prop :=
  ∀ channel, row.slotStream.channel = some channel → channel.mFinished = false →
    ∃ promptLength, row.Streamed tok promptLength channel channel.text

section InOrder

variable {cfg : SessionConfig} {row : ExecutionRow}

theorem InOrder.advances {tok : Tokenizer} {row' : ExecutionRow} {added : List Token}
    (h : row.InOrder tok) (hadvances : row.Advances row' added) : row'.InOrder tok := by
  intro channel hchannel hopen
  rw [hadvances.slotStream] at hchannel
  obtain ⟨promptLength, hstreamed⟩ := h channel hchannel hopen
  exact ⟨promptLength, hstreamed.advances hadvances⟩

/-- An open channel was open before, and its slot is live. -/
theorem emit_open {row : ExecutionRow} {channel : StreamChannel}
    (hchannel : row.emit.slotStream.channel = some channel) (hopen : channel.mFinished = false) :
    row.finished = false ∧
      ∃ before, row.slotStream.channel = some before ∧ before.mFinished = false := by
  rcases emit_cases row with hsame | hpushed
  · rw [hsame.1] at hchannel
    rcases hsame.2 with hnone | hquiet
    · rw [hnone] at hchannel
      cases hchannel
    · exact ⟨hquiet.1, channel, hchannel, hopen⟩
  · obtain ⟨before, hbefore, hemit⟩ := hpushed
    rw [hemit, Option.some.injEq] at hchannel
    cases hlive : row.finished with
    | true =>
      rw [hlive, if_pos rfl] at hchannel
      rw [← hchannel, StreamChannel.mFinished_finish] at hopen
      cases hopen
    | false =>
      rw [hlive, if_neg Bool.false_ne_true] at hchannel
      rw [← hchannel, StreamChannel.mFinished_push] at hopen
      exact ⟨rfl, before, hbefore, hopen⟩

theorem InOrder.appended (h : row.InOrder cfg.tokenizer) (slotStep : SlotStep) :
    (slotStep.upTo cfg row .appended).InOrder cfg.tokenizer := by
  obtain ⟨added, htokens, -⟩ := advances_tokens cfg slotStep.tokens
    (row.observe slotStep.rootCancelled)
  exact (h.advances (advances_observe row slotStep.rootCancelled)).advances htokens

theorem InOrder.emitted (h : row.InOrder cfg.tokenizer) (slotStep : SlotStep) :
    (slotStep.upTo cfg row .emitted).InOrder cfg.tokenizer := by
  intro channel hchannel hopen
  obtain ⟨hlive, before, hbefore, hbeforeOpen⟩ := emit_open hchannel hopen
  rw [channel_decodeAndFinish] at hbefore
  obtain ⟨promptLength, hstreamed⟩ := h.appended slotStep before hbefore hbeforeOpen
  obtain ⟨next, hnext⟩ := hstreamed.step_live slotStep.guided hlive
  have hsame : channel = next := Option.some.inj (hchannel.symm.trans hnext.here)
  rw [hsame]
  exact ⟨promptLength, hnext⟩

theorem InOrder.cancel {tok : Tokenizer} (h : row.InOrder tok) : row.cancel.InOrder tok := by
  intro channel hchannel hopen
  obtain ⟨before, hbefore, hcancelled⟩ := Option.map_eq_some_iff.1
    (show row.slotStream.channel.map StreamChannel.cancel = some channel from hchannel)
  have hbeforeOpen : before.mFinished = false := by
    rw [← hcancelled] at hopen
    exact hopen
  obtain ⟨promptLength, hstreamed⟩ := h before hbefore hbeforeOpen
  have hskip := skipSpecial_cancel row
  refine ⟨promptLength, hchannel, hopen, hstreamed.prompt, hstreamed.first, hstreamed.emitted,
    hstreamed.sent, ?_, ⟨?_, ?_, ?_, ?_⟩, hstreamed.live⟩
  · rw [← hcancelled]
    exact hstreamed.tokens
  · rw [hskip, ← hcancelled]
    exact hstreamed.matching.text
  · rw [← hcancelled]
    exact hstreamed.matching.held
  · exact hstreamed.matching.idle
  · exact hstreamed.matching.longest

/-- A slot with a fresh channel whose offsets are behind its prompt. -/
theorem streamed_start {tok : Tokenizer} {channel : StreamChannel}
    (hfresh : channel.pushed = [] ∧ channel.mFinished = false)
    (hcount : row.currentGenerateLength = 0) (hlive : row.slotStream.terminalReason = .kNotFinished)
    (hstream : row.slotStream =
      { channel := some channel
        skipSpecialTokens := row.slotStream.skipSpecialTokens
        sentTokenCount := row.tokenIds.length
        lastEmittedTokenCount := row.tokenIds.length
        maxStopLen := longestStop row.stopStrings }) :
    row.Streamed tok row.tokenIds.length channel channel.text := by
  have htext : channel.text = [] := by rw [StreamChannel.text, hfresh.1]; rfl
  have htokens : channel.tokens = [] := by rw [StreamChannel.tokens, hfresh.1]; rfl
  have hsent : row.slotStream.sentTokenCount = row.tokenIds.length := by rw [hstream]
  have hlast : row.slotStream.lastEmittedTokenCount = row.tokenIds.length := by rw [hstream]
  refine ⟨?_, hfresh.2, ?_, ?_, ?_, ?_, ?_, ⟨?_, ?_, ?_, ?_⟩, fun _ => hlive⟩
  · rw [hstream]
  · rw [hcount, Nat.add_zero]
  · rw [hlast]
  · rw [hlast, hsent]
  · rw [hsent]
  · rw [htokens, hlast, List.take_length, List.drop_length]
  · rw [hsent, List.take_length, List.drop_length, htext, hstream]
    rfl
  · rw [htext, hstream]
    exact held_start row.stopStrings
  · intro _
    rw [hstream]
  · rw [hstream]

theorem inOrder_founderRow (tok : Tokenizer) (seed : SlotSeed) (skipSpecialTokens : Bool) :
    (seed.founderRow skipSpecialTokens).InOrder tok := by
  intro channel hchannel _
  obtain ⟨settings, hsettings, hattached⟩ := Option.map_eq_some_iff.1
    (show seed.channel.map _ = some channel from hchannel)
  have hsome : seed.channel.isSome = true := by rw [hsettings]; rfl
  refine ⟨_, @streamed_start (seed.founderRow skipSpecialTokens) tok channel ?_ rfl rfl ?_⟩
  · rw [← hattached]
    exact ⟨settings.pushed_channel, settings.mFinished_channel⟩
  · have hchannel' : seed.attachedChannel = some channel := hchannel
    rw [SlotSeed.founderRow, hsome, hchannel']
    rfl

theorem inOrder_joinerRow (tok : Tokenizer) (seed : SlotSeed) (skipSpecialTokens : Bool) :
    (seed.joinerRow skipSpecialTokens).InOrder tok := by
  intro channel hchannel _
  obtain ⟨settings, hsettings, hattached⟩ := Option.map_eq_some_iff.1
    (show seed.channel.map _ = some channel from hchannel)
  refine ⟨_, @streamed_start (seed.joinerRow skipSpecialTokens) tok channel ?_ rfl rfl ?_⟩
  · rw [← hattached]
    exact ⟨settings.pushed_channel, settings.mFinished_channel⟩
  · have hchannel' : seed.attachedChannel = some channel := hchannel
    rw [SlotSeed.joinerRow, hchannel']

theorem Fresh.inOrder (h : row.Fresh cfg) : row.InOrder cfg.tokenizer := by
  obtain ⟨founder, skip, -, hrow⟩ := h
  obtain ⟨added, hadvances⟩ := advances_founderRow founder skip
  rw [hrow]
  exact (inOrder_founderRow cfg.tokenizer founder.seed skip).advances hadvances

theorem inOrder_seatedRow (cfg : SessionConfig) (seed : SlotSeed) (skipSpecialTokens : Bool)
    (outcome : PrefillOutcome) (finalize : FinalizeOutcome) :
    (GenerationSession.seatedRow cfg outcome finalize
      (seed.joinerRow skipSpecialTokens)).InOrder cfg.tokenizer := by
  obtain ⟨added, hadvances⟩ := @advances_seatedRow cfg outcome finalize
    (seed.joinerRow skipSpecialTokens) rfl
  exact (inOrder_joinerRow cfg.tokenizer seed skipSpecialTokens).advances hadvances

/-- The open channel of every slot is in order at every step boundary. -/
theorem Lives.inOrder (h : row.Lives cfg) : row.InOrder cfg.tokenizer := by
  apply @Lives.induct cfg row (fun row => row.InOrder cfg.tokenizer) _ _ h
  · intro skip start hlegal
    cases start with
    | founded founder primed =>
      have hfresh : (founder.row skip).Fresh cfg := ⟨founder, skip, hlegal.1, rfl⟩
      show (if cfg.isDiffusionBackbone = true then _ else _ : ExecutionRow).InOrder _
      split
      · exact hfresh.inOrder
      · exact hfresh.inOrder.emitted primed
    | seated seed outcome finalize => exact inOrder_seatedRow cfg seed skip outcome finalize
  · intro row event ih
    cases event with
    | step slotStep => exact ih.emitted slotStep
    | cancel => exact ih.cancel

/-- So is what an operation that fails leaves of a slot. -/
theorem Torn.owing (h : Torn cfg row) {channel : StreamChannel}
    (hchannel : row.slotStream.channel = some channel) (hopen : channel.mFinished = false) :
    row.Owing cfg.tokenizer channel := by
  have hordered : ∀ row : ExecutionRow, row.InOrder cfg.tokenizer →
      row.slotStream.channel = some channel → row.Owing cfg.tokenizer channel := by
    intro row hrow hhere
    obtain ⟨promptLength, hstreamed⟩ := hrow channel hhere hopen
    exact hstreamed.owing
  have hstep : ∀ (row : ExecutionRow) (slotStep : SlotStep) (stage : Stage),
      row.InOrder cfg.tokenizer → (slotStep.upTo cfg row stage).slotStream.channel = some channel →
        (slotStep.upTo cfg row stage).Owing cfg.tokenizer channel := by
    intro row slotStep stage hrow hhere
    cases stage with
    | observed =>
      exact hordered _ (hrow.advances (advances_observe row slotStep.rootCancelled)) hhere
    | appended => exact hordered _ (hrow.appended slotStep) hhere
    | decoded =>
      have hready := (channel_decodeAndFinish cfg slotStep.guided
        (slotStep.upTo cfg row .appended)).symm.trans hhere
      obtain ⟨promptLength, hstreamed⟩ := hrow.appended slotStep channel hready hopen
      exact hstreamed.owing_decode.advances (advances_decodeAndFinish cfg slotStep.guided _).1
    | emitted => exact hordered _ (hrow.emitted slotStep) hhere
  cases h with
  | fresh hfresh => exact hordered _ hfresh.inOrder hchannel
  | pending hpending =>
    obtain ⟨seed, skip, hrow⟩ := hpending
    rw [hrow] at hchannel ⊢
    exact hordered _ (inOrder_joinerRow cfg.tokenizer seed skip) hchannel
  | seated seed skip outcome finalize =>
    exact hordered _ (inOrder_seatedRow cfg seed skip outcome finalize) hchannel
  | primed hfresh slotStep _ stage => exact hstep _ slotStep stage hfresh.inOrder hchannel
  | lives hlives => exact hordered _ hlives.inOrder hchannel
  | step hlives slotStep stage => exact hstep _ slotStep stage hlives.inOrder hchannel

end InOrder

end ExecutionRow

/-! ## Main results -/

/-- A step that ends a slot and closes its open channel. -/
structure Closing (cfg : SessionConfig) (row : ExecutionRow) (slotStep : SlotStep)
    (channel closed : StreamChannel) : Prop where
  before : row.Lives cfg ∨ row.Fresh cfg
  here : row.slotStream.channel = some channel
  notFinished : channel.mFinished = false
  finished : (slotStep.upTo cfg row .emitted).finished = true
  closed : (slotStep.upTo cfg row .emitted).slotStream.channel = some closed

theorem Closing.delivers_iff {cfg : SessionConfig} {row : ExecutionRow} {slotStep : SlotStep}
    {channel closed : StreamChannel} (h : Closing cfg row slotStep channel closed) :
    (slotStep.upTo cfg row .emitted).Delivers cfg.tokenizer closed ↔
      (slotStep.upTo cfg row .appended).DeliversAll cfg.tokenizer channel.text := by
  have hordered : row.InOrder cfg.tokenizer := by
    rcases h.before with hlives | hfresh
    · exact hlives.inOrder
    · exact hfresh.inOrder
  have hchannel : (slotStep.upTo cfg row .appended).slotStream.channel = some channel := by
    rw [GenerationSession.channel_upTo slotStep row (by decide)]
    exact h.here
  obtain ⟨promptLength, hstreamed⟩ := hordered.appended slotStep channel hchannel h.notFinished
  apply hstreamed.delivers_iff h.closed
  rw [← ExecutionRow.finished_emit]
  exact h.finished

/-- A sequence with a prompt of one token and a stream interval. -/
def intervalSeed (streamInterval : Int) (stops : List Bytes) : SlotSeed where
  promptTokenIds := [65]
  stopStrings := stops
  channel := some ⟨streamInterval, true, false⟩

/-- A founder of it. -/
def intervalFounder (streamInterval : Int) (stops : List Bytes) : SlotStart :=
  .founded ⟨intervalSeed streamInterval stops, some 66, false⟩ {}

/-- A step that samples a token. -/
def sampledStep (token : Token) : SlotEvent :=
  .step { tokens := .sampled token }

/-- What was delivered of a slot, its generated tokens, and its reason. -/
structure StreamOutcome where
  tokens : List Token
  text : Bytes
  generated : List Token
  reason : FinishReason
deriving DecidableEq

/-- The outcome of a slot with a channel. -/
def outcomeOf (start : SlotStart) (events : List SlotEvent) : Option StreamOutcome :=
  let row := life (shortSession false) true start events
  row.slotStream.channel.map fun channel =>
    ⟨channel.tokens, channel.text, row.generated, row.slotStream.terminalReason⟩

end EdgeLLM.Ports.Generation
