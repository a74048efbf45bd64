import EdgeLLM.Ports.Utf8Sanitizer

/-!
# Stream channels

The channel between the runtime and the consumer of one sequence, and the
streaming state of a slot.  A slot owns its channel here: the channel of an
evicted slot goes to whoever evicts it, so that what was pushed stays visible.
-/

namespace EdgeLLM.Ports.Generation

open Utf8 (Bytes)

/-- A token id. -/
abbrev Token : Type := Int

inductive FinishReason where
  | kNotFinished
  | kEndId
  | kLength
  | kCancelled
  | kError
  | kStopWords
deriving DecidableEq

/-- `StreamChunk`: one delta on a channel. -/
structure StreamChunk where
  tokenIds : List Token := []
  text : Bytes := []
  promptTokenCount : Int := -1
  finished : Bool := false
  reason : FinishReason := .kNotFinished

/-- `StreamChannel`.  `pushed` is every chunk pushed so far, popped or not. -/
structure StreamChannel where
  pushed : List StreamChunk := []
  mFinished : Bool := false
  mReason : FinishReason := .kNotFinished
  mCancelled : Bool := false
  mOriginalBatchIdx : Int := -1
  mStreamInterval : Nat := 1
  mSkipSpecialTokens : Bool := true

namespace StreamChannel

def push (channel : StreamChannel) (chunk : StreamChunk) : StreamChannel :=
  { channel with pushed := channel.pushed ++ [chunk] }

/-- `finish`: the first caller wins. -/
def finish (channel : StreamChannel) (r : FinishReason) : StreamChannel :=
  if channel.mFinished then channel else { channel with mFinished := true, mReason := r }

def cancel (channel : StreamChannel) : StreamChannel :=
  { channel with mCancelled := true }

/-- `setStreamInterval`: values below 1 are clamped to 1. -/
def setStreamInterval (channel : StreamChannel) (n : Int) : StreamChannel :=
  { channel with mStreamInterval := (max 1 n).toNat }

def setSkipSpecialTokens (channel : StreamChannel) (skip : Bool) : StreamChannel :=
  { channel with mSkipSpecialTokens := skip }

/-- `attachStreamChannel`, on a channel that is not attached yet. -/
def attach (channel : StreamChannel) (originalIdx : Int) : StreamChannel :=
  { channel with mOriginalBatchIdx := originalIdx }

/-- The tokens delivered so far. -/
def tokens (channel : StreamChannel) : List Token :=
  channel.pushed.flatMap StreamChunk.tokenIds

/-- The text delivered so far. -/
def text (channel : StreamChannel) : Bytes :=
  channel.pushed.flatMap StreamChunk.text

@[simp] theorem pushed_push (channel : StreamChannel) (chunk : StreamChunk) :
    (channel.push chunk).pushed = channel.pushed ++ [chunk] := rfl

@[simp] theorem pushed_finish (channel : StreamChannel) (r : FinishReason) :
    (channel.finish r).pushed = channel.pushed := by
  rw [finish]
  split <;> rfl

@[simp] theorem mFinished_finish (channel : StreamChannel) (r : FinishReason) :
    (channel.finish r).mFinished = true := by
  rw [finish]
  split
  · assumption
  · rfl

@[simp] theorem mFinished_push (channel : StreamChannel) (chunk : StreamChunk) :
    (channel.push chunk).mFinished = channel.mFinished := rfl

@[simp] theorem mSkipSpecialTokens_push (channel : StreamChannel) (chunk : StreamChunk) :
    (channel.push chunk).mSkipSpecialTokens = channel.mSkipSpecialTokens := rfl

@[simp] theorem mSkipSpecialTokens_finish (channel : StreamChannel) (r : FinishReason) :
    (channel.finish r).mSkipSpecialTokens = channel.mSkipSpecialTokens := by
  rw [finish]
  split <;> rfl

@[simp] theorem tokens_push (channel : StreamChannel) (chunk : StreamChunk) :
    (channel.push chunk).tokens = channel.tokens ++ chunk.tokenIds := by
  simp [tokens]

@[simp] theorem text_push (channel : StreamChannel) (chunk : StreamChunk) :
    (channel.push chunk).text = channel.text ++ chunk.text := by
  simp [text]

@[simp] theorem tokens_finish (channel : StreamChannel) (r : FinishReason) :
    (channel.finish r).tokens = channel.tokens := by
  rw [tokens, pushed_finish]
  rfl

@[simp] theorem text_finish (channel : StreamChannel) (r : FinishReason) :
    (channel.finish r).text = channel.text := by
  rw [text, pushed_finish]
  rfl

/-- Attached, still open: no terminal chunk was pushed. -/
structure Open (channel : StreamChannel) : Prop where
  notFinished : channel.mFinished = false
  chunks : ∀ chunk ∈ channel.pushed, chunk.finished = false

/-- Closed: finished, and the one terminal chunk is the last one pushed. -/
def Closed (channel : StreamChannel) : Prop :=
  channel.mFinished = true ∧ ∃ before last,
    channel.pushed = before ++ [last] ∧ last.finished = true ∧
      ∀ chunk ∈ before, chunk.finished = false

theorem Open.push {channel : StreamChannel} (h : channel.Open) {chunk : StreamChunk}
    (hchunk : chunk.finished = false) : (channel.push chunk).Open where
  notFinished := h.notFinished
  chunks := by
    intro c hc
    rw [pushed_push, List.mem_append, List.mem_singleton] at hc
    rcases hc with hold | heq
    · exact h.chunks c hold
    · rw [heq]; exact hchunk

theorem Open.close {channel : StreamChannel} (h : channel.Open) {chunk : StreamChunk}
    (hchunk : chunk.finished = true) (r : FinishReason) :
    ((channel.push chunk).finish r).Closed := by
  refine ⟨mFinished_finish _ r, channel.pushed, chunk, ?_, hchunk, h.chunks⟩
  rw [pushed_finish, pushed_push]

theorem Closed.count {channel : StreamChannel} (h : channel.Closed) :
    channel.pushed.countP StreamChunk.finished = 1 := by
  obtain ⟨-, before, last, hpushed, hlast, hbefore⟩ := h
  have hnone : before.countP StreamChunk.finished = 0 := by
    rw [List.countP_eq_zero]
    intro chunk hmem
    rw [hbefore chunk hmem]
    exact Bool.false_ne_true
  rw [hpushed, List.countP_append, List.countP_singleton, hnone, hlast]
  rfl

end StreamChannel

/-- `SlotStreamState`: detokenization and streaming of one slot. -/
structure SlotStreamState where
  channel : Option StreamChannel := none
  skipSpecialTokens : Bool := true
  sentTokenCount : Nat := 0
  lastEmittedTokenCount : Nat := 0
  pendingBytes : Bytes := []
  terminalReason : FinishReason := .kNotFinished
  stopMatchBuffer : Bytes := []
  maxStopLen : Nat := 0
  pendingEmitText : Bytes := []
  stopMatchedThisIter : Bool := false

end EdgeLLM.Ports.Generation
