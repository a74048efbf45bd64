import EdgeLLM.Ports.TerminalToken

/-!
# What the stop matcher sees

`decodePerSlot` appends the text of the tokens behind `sentTokenCount` to the
stop buffer of its slot.  The module follows the tokens and bytes that are fed to
the matcher along the life of a slot.
-/

namespace EdgeLLM.Ports.Generation

open Utf8
open Verified
open GenerationSession (shortSession)

namespace ExecutionRow

/-! ## One decode -/

/-- The text of the tokens `fed`: `emitted` was given out, the stop buffer keeps
the rest, and the bytes of an incomplete character are pending. -/
structure Matching (tok : Tokenizer) (row : ExecutionRow) (fed : List Token) (emitted : Bytes) :
    Prop where
  text : sanitizeUtf8Streaming (tok.pieces row.skipSpecial fed) [] =
    (emitted ++ row.slotStream.stopMatchBuffer, row.slotStream.pendingBytes)
  held : Held row.stopStrings (longestStop row.stopStrings) emitted row.slotStream.stopMatchBuffer
  idle : row.stopStrings = [] → row.slotStream.stopMatchBuffer = []
  longest : row.slotStream.maxStopLen = longestStop row.stopStrings

/-- The tokens behind `sentTokenCount`. -/
def undecoded (row : ExecutionRow) : List Token :=
  row.tokenIds.drop row.slotStream.sentTokenCount

/-- The text that a decode adds: that of the undecoded tokens, and the flush of a
finished slot. -/
def freshText (tok : Tokenizer) (row : ExecutionRow) : Bytes :=
  let out := sanitizeUtf8Streaming (tok.pieces row.skipSpecial row.undecoded)
    row.slotStream.pendingBytes
  out.1 ++ (if row.finished then sanitizeUtf8Flush out.2 else [])

/-- The bytes that a decode leaves pending. -/
def freshPending (tok : Tokenizer) (row : ExecutionRow) : Bytes :=
  if row.finished then []
  else (sanitizeUtf8Streaming (tok.pieces row.skipSpecial row.undecoded)
    row.slotStream.pendingBytes).2

/-- The outcome of the stop matcher in a decode, and its new buffer. -/
def matchOutcome (tok : Tokenizer) (row : ExecutionRow) : StopMatchOutcome × Bytes :=
  if row.stopActive then
    applyStopStringMatch (row.slotStream.stopMatchBuffer ++ row.freshText tok) row.stopStrings
      row.slotStream.maxStopLen row.finished
  else ({ emitted := row.freshText tok }, row.slotStream.stopMatchBuffer)

/-- The slot has a channel or stop strings. -/
def decodes (row : ExecutionRow) : Bool :=
  row.slotStream.channel.isSome || !row.stopStrings.isEmpty

section Decode

variable {tok : Tokenizer} {row : ExecutionRow} {fed : List Token} {emitted : Bytes}

theorem newText_eq (tok : Tokenizer) (row : ExecutionRow) (s : SlotStreamState)
    (hsent : s.sentTokenCount = row.slotStream.sentTokenCount)
    (hpending : s.pendingBytes = row.slotStream.pendingBytes) :
    row.newText tok s = (row.freshText tok, { s with
      sentTokenCount := row.tokenIds.length
      pendingBytes := row.freshPending tok }) := by
  rw [newText, emitDelta_eq, hsent, hpending, freshText, freshPending, undecoded]
  cases hfinished : row.finished with
  | false => simp
  | true =>
    dsimp only
    split
    · rfl
    · rename_i hempty
      have hnone : (sanitizeUtf8Streaming (tok.pieces row.skipSpecial
          (row.tokenIds.drop row.slotStream.sentTokenCount)) row.slotStream.pendingBytes).2 =
          [] := by simpa using hempty
      rw [hnone]
      simp [sanitizeUtf8Flush]

/-- A slot with neither a channel nor stop strings is not decoded, nor is one that
the stream interval holds back. -/
theorem decode_held (tok : Tokenizer) (hheld : row.decodes = false ∨ row.gateClosed = true) :
    row.decode tok = { row with slotStream := { row.slotStream with
      stopMatchedThisIter := false
      pendingEmitText := [] } } := by
  rw [decode]
  dsimp only
  split
  · rfl
  · rename_i hneeded
    rcases hheld with hnot | hgated
    · exfalso
      apply hneeded
      simpa [decodes] using hnot
    · rw [if_pos hgated]

theorem decode_eq (tok : Tokenizer) (hdecodes : row.decodes = true)
    (hopen : row.gateClosed = false) :
    row.decode tok = { row with slotStream := { row.slotStream with
      sentTokenCount := row.tokenIds.length
      pendingBytes := row.freshPending tok
      stopMatchBuffer := (row.matchOutcome tok).2
      pendingEmitText := (row.matchOutcome tok).1.emitted
      stopMatchedThisIter := (row.matchOutcome tok).1.stopMatched } } := by
  have hneeded : ¬ (row.slotStream.channel.isNone && row.stopStrings.isEmpty) = true := by
    intro hnot
    have hnone : row.decodes = false := by
      simp only [Bool.and_eq_true] at hnot
      rw [decodes, hnot.2]
      simpa using hnot.1
    rw [hdecodes] at hnone
    cases hnone
  have hnew := newText_eq tok row
    { row.slotStream with stopMatchedThisIter := false, pendingEmitText := [] } rfl rfl
  rw [decode]
  dsimp only at hnew ⊢
  rw [if_neg hneeded, hopen, if_neg Bool.false_ne_true, hnew, matchOutcome]
  cases row.stopActive <;> rfl

@[simp] theorem skipSpecial_decode (tok : Tokenizer) (row : ExecutionRow) :
    (row.decode tok).skipSpecial = row.skipSpecial := by
  have hskip : (row.decode tok).slotStream.skipSpecialTokens =
      row.slotStream.skipSpecialTokens := by
    cases hdecodes : row.decodes with
    | false => rw [decode_held tok (Or.inl hdecodes)]
    | true =>
      cases hgated : row.gateClosed with
      | true => rw [decode_held tok (Or.inr hgated)]
      | false => rw [decode_eq tok hdecodes hgated]
  rw [skipSpecial, skipSpecial, channel_decode, hskip]

/-- The text of the fed tokens grows by the text of the new ones. -/
theorem Matching.text_append (h : row.Matching tok fed emitted) (hlive : row.finished = false) :
    sanitizeUtf8Streaming (tok.pieces row.skipSpecial (fed ++ row.undecoded)) [] =
      (emitted ++ row.slotStream.stopMatchBuffer ++ row.freshText tok, row.freshPending tok) := by
  rw [Tokenizer.pieces_append, sanitizeUtf8Streaming_append, h.text, freshText, freshPending, hlive]
  simp

/-- A decode that stops has given out the text before the earliest stop string. -/
theorem Matching.decode_matched (h : row.Matching tok fed emitted)
    (hactive : row.stopActive = true) :
    (row.matchOutcome tok).1.stopMatched = (earliest row.stopStrings
        (emitted ++ row.slotStream.stopMatchBuffer ++ row.freshText tok)).isSome ∧
      ((row.matchOutcome tok).1.stopMatched = true →
        emitted ++ (row.matchOutcome tok).1.emitted = cut row.stopStrings
            (emitted ++ row.slotStream.stopMatchBuffer ++ row.freshText tok) ∧
          (row.matchOutcome tok).2 = []) := by
  rw [matchOutcome, if_pos hactive, h.longest]
  exact ⟨applyStopStringMatch_matched h.held, fun hmatched => applyStopStringMatch_cut h.held hmatched⟩

/-- A decode that does not stop loses nothing. -/
theorem Matching.decode_emitted (h : row.Matching tok fed emitted)
    (hmatched : (row.matchOutcome tok).1.stopMatched = false) :
    (row.matchOutcome tok).1.emitted ++ (row.matchOutcome tok).2 =
        (if row.stopActive then row.slotStream.stopMatchBuffer ++ row.freshText tok
          else row.freshText tok ++ row.slotStream.stopMatchBuffer) ∧
      (row.stopActive = true → row.finished = true → (row.matchOutcome tok).2 = []) := by
  rw [matchOutcome] at hmatched ⊢
  cases hactive : row.stopActive with
  | false => exact ⟨rfl, (fun hfalse => by cases hfalse)⟩
  | true =>
    rw [hactive, if_pos rfl, h.longest] at hmatched
    rw [if_pos rfl, if_pos rfl, h.longest]
    have hout := applyStopStringMatch_emitted hmatched
    exact ⟨hout.1, fun _ hfinal => hout.2 hfinal⟩

/-- A decode of a live slot that does not stop keeps what the next one needs. -/
theorem Matching.decode (h : row.Matching tok fed emitted) (hdecodes : row.decodes = true)
    (hopen : row.gateClosed = false) (hlive : row.finished = false)
    (hactive : row.stopActive = !row.stopStrings.isEmpty)
    (hmatched : (row.matchOutcome tok).1.stopMatched = false) :
    (row.decode tok).Matching tok (fed ++ row.undecoded)
      (emitted ++ (row.decode tok).slotStream.pendingEmitText) := by
  have htext := h.text_append hlive
  have hout := (h.decode_emitted hmatched).1
  have hsame : emitted ++ row.slotStream.stopMatchBuffer ++ row.freshText tok =
      emitted ++ (row.matchOutcome tok).1.emitted ++ (row.matchOutcome tok).2 := by
    rw [List.append_assoc, List.append_assoc, hout]
    cases hstops : row.stopStrings.isEmpty with
    | false =>
      rw [hactive, hstops]
      rfl
    | true =>
      rw [hactive, hstops, h.idle (List.isEmpty_iff.1 hstops)]
      simp
  have hstrings : (row.decode tok).stopStrings = row.stopStrings :=
    congrArg FinishView.stopStrings (view_decode tok row)
  have hstream := congrArg ExecutionRow.slotStream (decode_eq tok hdecodes hopen)
  refine ⟨?_, ?_, ?_, ?_⟩
  · rw [skipSpecial_decode, htext, hsame, hstream]
  · rw [hstrings, hstream]
    cases hstops : row.stopStrings.isEmpty with
    | false =>
      have hon : row.stopActive = true := by rw [hactive, hstops]; rfl
      rw [matchOutcome, if_pos hon, h.longest, hlive] at hmatched ⊢
      exact applyStopStringMatch_held h.held hmatched
    | true =>
      have hnil := List.isEmpty_iff.1 hstops
      rw [hnil]
      refine ⟨?_, (fun word hmem => by cases hmem), fun _ => Nat.zero_le _⟩
      rintro k ⟨word, hmem, -⟩
      cases hmem
  · rw [hstrings, hstream]
    intro hnil
    have hoff : row.stopActive = false := by rw [hactive, hnil]; rfl
    rw [matchOutcome, hoff, if_neg Bool.false_ne_true]
    exact h.idle hnil
  · rw [hstrings, hstream]
    exact h.longest

theorem Matching.decode_held (h : row.Matching tok fed emitted)
    (hheld : row.decodes = false ∨ row.gateClosed = true) :
    (row.decode tok).Matching tok fed emitted ∧
      (row.decode tok).slotStream.pendingEmitText = [] := by
  rw [ExecutionRow.decode_held tok hheld]
  exact ⟨⟨h.text, h.held, h.idle, h.longest⟩, rfl⟩

end Decode

end ExecutionRow

/-! ## What a life feeds to the matcher -/

/-- The tokens and bytes that decodes have fed to the stop matcher, and the tokens
that a decode after a cancellation or failure passed over. -/
structure Feed where
  tokens : List Token := []
  text : Bytes := []
  skipped : List Token := []

/-- One feed after another. -/
def Feed.append (feed more : Feed) : Feed where
  tokens := feed.tokens ++ more.tokens
  text := feed.text ++ more.text
  skipped := feed.skipped ++ more.skipped

@[simp] theorem Feed.append_empty (feed : Feed) : feed.append {} = feed := by
  simp [Feed.append]

/-- What the next decode of a slot feeds to the matcher. -/
def ExecutionRow.feed (tok : Tokenizer) (row : ExecutionRow) : Feed :=
  if row.decodes && !row.gateClosed then
    if row.stopActive then { tokens := row.undecoded, text := row.freshText tok }
    else { skipped := row.undecoded }
  else {}

/-- The stream interval does not hold tokens back in this decode. -/
def ExecutionRow.caughtUp (row : ExecutionRow) : Bool :=
  !row.gateClosed || row.undecoded.isEmpty

/-- The next decode feeds tokens to the matcher. -/
def ExecutionRow.takesTokens (row : ExecutionRow) : Bool :=
  row.decodes && !row.gateClosed && row.stopActive && !row.undecoded.isEmpty

/-- The next decode comes after a cancellation or failure and passes tokens over. -/
def ExecutionRow.passesOver (row : ExecutionRow) : Bool :=
  row.decodes && !row.gateClosed && !row.stopActive && !row.undecoded.isEmpty

variable (tok : Tokenizer)

theorem ExecutionRow.tokens_feed (row : ExecutionRow) :
    (row.feed tok).tokens = [] ↔ row.takesTokens = false := by
  rw [feed, takesTokens]
  cases row.decodes && !row.gateClosed with
  | false => exact iff_of_true rfl rfl
  | true => cases row.stopActive <;> simp

theorem ExecutionRow.skipped_feed (row : ExecutionRow) :
    (row.feed tok).skipped = [] ↔ row.passesOver = false := by
  rw [feed, passesOver]
  cases row.decodes && !row.gateClosed with
  | false => exact iff_of_true rfl rfl
  | true => cases row.stopActive <;> simp

/-- What decodes have fed to the matcher, one after another. -/
def feedOf (tok : Tokenizer) (decodes : List ExecutionRow) : Feed :=
  decodes.foldl (fun feed row => feed.append (row.feed tok)) {}

@[simp] theorem feedOf_concat (decodes : List ExecutionRow) (row : ExecutionRow) :
    feedOf tok (decodes ++ [row]) = (feedOf tok decodes).append (row.feed tok) := by
  rw [feedOf, List.foldl_append]
  rfl

theorem tokens_feedOf (decodes : List ExecutionRow) :
    (feedOf tok decodes).tokens = [] ↔ ∀ row ∈ decodes, row.takesTokens = false := by
  induction decodes using List.reverseRecOn with
  | nil => exact iff_of_true rfl (by simp)
  | append_singleton decodes row ih =>
    rw [feedOf_concat, Feed.append, List.append_eq_nil_iff, ih, row.tokens_feed]
    simp [or_imp, forall_and]

theorem skipped_feedOf (decodes : List ExecutionRow) :
    (feedOf tok decodes).skipped = [] ↔ ∀ row ∈ decodes, row.passesOver = false := by
  induction decodes using List.reverseRecOn with
  | nil => exact iff_of_true rfl (by simp)
  | append_singleton decodes row ih =>
    rw [feedOf_concat, Feed.append, List.append_eq_nil_iff, ih, row.skipped_feed]
    simp [or_imp, forall_and]

/-- The slot as the decode of an event finds it. -/
def SlotEvent.decoded (cfg : SessionConfig) (row : ExecutionRow) : SlotEvent → List ExecutionRow
  | .step slotStep => [slotStep.upTo cfg row .appended]
  | .cancel => []

/-- The slot as the post-pass of the prefill finds it; a joiner has none. -/
def SlotStart.decoded (cfg : SessionConfig) (skipSpecialTokens : Bool) :
    SlotStart → List ExecutionRow
  | founded founder primed =>
    if cfg.isDiffusionBackbone then []
    else [primed.upTo cfg (founder.row skipSpecialTokens) .appended]
  | seated _ _ _ => []

/-- The slot as the decodes of some events find it. -/
def decodedAlong (cfg : SessionConfig) : ExecutionRow → List SlotEvent → List ExecutionRow
  | _, [] => []
  | row, event :: rest => event.decoded cfg row ++ decodedAlong cfg (event.apply cfg row) rest

/-- The slot as each decode of its life finds it. -/
def lifeDecodes (cfg : SessionConfig) (skipSpecialTokens : Bool) (start : SlotStart)
    (events : List SlotEvent) : List ExecutionRow :=
  start.decoded cfg skipSpecialTokens ++
    decodedAlong cfg (start.row cfg skipSpecialTokens) events

/-- What a life has fed to the matcher. -/
def lifeFeed (cfg : SessionConfig) (skipSpecialTokens : Bool) (start : SlotStart)
    (events : List SlotEvent) : Feed :=
  feedOf cfg.tokenizer (lifeDecodes cfg skipSpecialTokens start events)

/-- What holds at the first step boundary and is kept by every event, holds of a
slot and its decodes along its life. -/
theorem lifeDecodes_induct {cfg : SessionConfig} {skipSpecialTokens : Bool} {start : SlotStart}
    {good : ExecutionRow → List ExecutionRow → Prop}
    (hstart : good (start.row cfg skipSpecialTokens) (start.decoded cfg skipSpecialTokens))
    (hevent : ∀ (row : ExecutionRow) (decodes : List ExecutionRow) (event : SlotEvent),
      good row decodes → good (event.apply cfg row) (decodes ++ event.decoded cfg row))
    (events : List SlotEvent) : good (life cfg skipSpecialTokens start events)
      (lifeDecodes cfg skipSpecialTokens start events) := by
  have hall : ∀ (events : List SlotEvent) (row : ExecutionRow) (decodes : List ExecutionRow),
      good row decodes →
        good (events.foldl (SlotEvent.apply cfg) row) (decodes ++ decodedAlong cfg row events) := by
    intro events
    induction events with
    | nil =>
      intro row decodes h
      rw [decodedAlong, List.append_nil]
      exact h
    | cons event rest ih =>
      intro row decodes h
      rw [decodedAlong, ← List.append_assoc]
      exact ih _ _ (hevent row decodes event h)
  exact hall events _ _ hstart

namespace SlotStart

/-- The seed of a slot. -/
def seed : SlotStart → SlotSeed
  | founded founder _ => founder.seed
  | seated seed _ _ => seed

/-- The offset that decoding starts from is seeded behind the working prompt: for a
founder with a channel and for every joiner. -/
def seeded : SlotStart → Bool
  | founded founder _ => founder.seed.channel.isSome
  | seated _ _ _ => true

/-- The offset that decoding starts from. -/
def offset (start : SlotStart) : Nat :=
  if start.seeded then start.seed.workingTokens.length else 0

end SlotStart

namespace ExecutionRow

/-- `k` tokens are decoded and those from `start` on were fed to the matcher: what
this says of a slot and its feed. -/
structure Fed (tok : Tokenizer) (start promptLength : Nat) (stops : List Bytes)
    (row : ExecutionRow) (feed : Feed) (k : Nat) : Prop where
  stopStrings : row.stopStrings = stops
  stopping : stops ≠ []
  prompt : row.tokenIds.length = promptLength + row.currentGenerateLength
  sent : row.slotStream.sentTokenCount ≤ row.tokenIds.length
  above : start ≤ k
  below : k ≤ row.slotStream.sentTokenCount
  tokens : feed.tokens = (row.tokenIds.take k).drop start
  skipped : feed.skipped = (row.tokenIds.take row.slotStream.sentTokenCount).drop k
  active : row.stopActive = true → k = row.slotStream.sentTokenCount
  live : row.finished = false → row.slotStream.terminalReason = .kNotFinished
  text :
    (sanitizeUtf8Streaming (tok.pieces row.skipSpecial feed.tokens) []).1 = feed.text ∧
        (row.stopActive = true →
          (sanitizeUtf8Streaming (tok.pieces row.skipSpecial feed.tokens) []).2 =
            row.slotStream.pendingBytes) ∨
      feed.text = sanitized (tok.pieces row.skipSpecial feed.tokens) ∧ row.finished = true ∧
        (row.stopActive = true → row.slotStream.sentTokenCount = row.tokenIds.length ∧
          row.slotStream.pendingBytes = [])
  matching : row.finished = false → row.slotStream.stopMatchedThisIter = false →
    ∃ emitted, row.Matching tok feed.tokens emitted ∧
      feed.text = emitted ++ row.slotStream.stopMatchBuffer

section Fed

variable {tok : Tokenizer} {start promptLength : Nat} {stops : List Bytes}
variable {row : ExecutionRow} {feed : Feed} {k : Nat}

/-- The matcher is off after a cancellation or failure only. -/
theorem stopActive_eq_false (hstops : row.stopStrings ≠ []) : row.stopActive = false ↔
      row.slotStream.terminalReason = .kCancelled ∨ row.slotStream.terminalReason = .kError := by
  have hsome : row.stopStrings.isEmpty = false := by simpa using hstops
  rw [stopActive, hsome]
  cases row.slotStream.terminalReason <;> decide

theorem Fed.nonempty (h : row.Fed tok start promptLength stops feed k) : row.stopStrings ≠ [] := by
  rw [h.stopStrings]
  exact h.stopping

theorem Matching.advances {row' : ExecutionRow} {added fed : List Token} {emitted : Bytes}
    (h : row.Matching tok fed emitted) (hadvances : row.Advances row' added) :
    row'.Matching tok fed emitted := by
  have hskip : row'.skipSpecial = row.skipSpecial := by
    rw [skipSpecial, skipSpecial, hadvances.slotStream]
  refine ⟨?_, ?_, ?_, ?_⟩
  · rw [hskip, hadvances.slotStream]
    exact h.text
  · rw [hadvances.stopStrings, hadvances.slotStream]
    exact h.held
  · rw [hadvances.stopStrings, hadvances.slotStream]
    exact h.idle
  · rw [hadvances.stopStrings, hadvances.slotStream]
    exact h.longest

theorem Fed.advances {row' : ExecutionRow} {added : List Token}
    (h : row.Fed tok start promptLength stops feed k) (hadvances : row.Advances row' added) :
    row'.Fed tok start promptLength stops feed k := by
  have hk := Nat.le_trans h.below h.sent
  have hopen : row'.finished = false → row.finished = false := by
    intro hfinished
    by_contra hnot
    rw [(hadvances.dead (Bool.of_not_eq_false hnot)).2] at hfinished
    cases hfinished
  have hsent : row'.slotStream.sentTokenCount = row.slotStream.sentTokenCount := by
    rw [hadvances.slotStream]
  have hpending : row'.slotStream.pendingBytes = row.slotStream.pendingBytes := by
    rw [hadvances.slotStream]
  have hskip : row'.skipSpecial = row.skipSpecial := by
    rw [skipSpecial, skipSpecial, hadvances.slotStream]
  have hsome : row'.stopStrings ≠ [] := by
    rw [hadvances.stopStrings]
    exact h.nonempty
  have hactive : row'.stopActive = true → row.stopActive = true := by
    intro hon
    by_contra hoff
    have hreason := (stopActive_eq_false h.nonempty).1 (by simpa using hoff)
    have hdead : row.finished = true := by
      by_contra hlive
      rw [h.live (by simpa using hlive)] at hreason
      cases hreason <;> contradiction
    rw [← hadvances.cancelled hdead hreason, ← stopActive_eq_false hsome, hon] at hreason
    cases hreason
  refine ⟨hadvances.stopStrings.trans h.stopStrings, h.stopping, ?_, ?_, h.above, ?_, ?_, ?_, ?_,
    ?_, ?_, ?_⟩
  · rw [hadvances.tokenIds, hadvances.count, List.length_append, h.prompt, Nat.add_assoc]
  · rw [hsent, hadvances.tokenIds, List.length_append]
    exact Nat.le_add_right_of_le h.sent
  · rw [hsent]
    exact h.below
  · rw [hadvances.tokenIds, List.take_append_of_le_length hk]
    exact h.tokens
  · rw [hsent, hadvances.tokenIds, List.take_append_of_le_length h.sent]
    exact h.skipped
  · rw [hsent]
    exact fun hon => h.active (hactive hon)
  · exact fun hlive => (hadvances.live hlive).trans (h.live (hopen hlive))
  · rw [hskip, hpending, hsent]
    rcases h.text with hstream | hflushed
    · exact Or.inl ⟨hstream.1, fun hon => hstream.2 (hactive hon)⟩
    · obtain ⟨htext, hfinished, hempty⟩ := hflushed
      obtain ⟨hadded, hfinal⟩ := hadvances.dead hfinished
      refine Or.inr ⟨htext, hfinal, fun hon => ?_⟩
      rw [hadvances.tokenIds, hadded, List.append_nil]
      exact hempty (hactive hon)
  · intro hfinished hquiet
    rw [hadvances.slotStream] at hquiet
    obtain ⟨emitted, hmatching, htext⟩ := h.matching (hopen hfinished) hquiet
    refine ⟨emitted, hmatching.advances hadvances, ?_⟩
    rw [hadvances.slotStream]
    exact htext

theorem Fed.decodes (h : row.Fed tok start promptLength stops feed k) : row.decodes = true := by
  rw [ExecutionRow.decodes, show row.stopStrings.isEmpty = false by simpa using h.nonempty]
  simp

/-- A decode that the stream interval holds back feeds nothing. -/
theorem Fed.decode_gated (h : row.Fed tok start promptLength stops feed k)
    (hquiet : row.finished = false → row.slotStream.stopMatchedThisIter = false)
    (hgated : row.gateClosed = true) :
    (row.decode tok).Fed tok start promptLength stops (feed.append (row.feed tok)) k := by
  have hnone : row.feed tok = {} := by
    rw [ExecutionRow.feed, hgated, Bool.not_true, Bool.and_false, if_neg Bool.false_ne_true]
  rw [hnone, Feed.append_empty, decode_held tok (Or.inr hgated)]
  refine ⟨h.stopStrings, h.stopping, h.prompt, h.sent, h.above, h.below, h.tokens, h.skipped,
    h.active, h.live, h.text, ?_⟩
  intro hlive _
  obtain ⟨emitted, hmatching, htext⟩ := h.matching hlive (hquiet hlive)
  exact ⟨emitted, ⟨hmatching.text, hmatching.held, hmatching.idle, hmatching.longest⟩, htext⟩

/-- The text of the fed tokens grows by the text of the undecoded ones. -/
theorem freshText_stream
    (hstream : sanitizeUtf8Streaming (tok.pieces row.skipSpecial feed.tokens) [] =
      (feed.text, row.slotStream.pendingBytes)) : (row.finished = false ∧
        sanitizeUtf8Streaming (tok.pieces row.skipSpecial (feed.tokens ++ row.undecoded)) [] =
          (feed.text ++ row.freshText tok, row.freshPending tok)) ∨
      row.finished = true ∧ row.freshPending tok = [] ∧ feed.text ++ row.freshText tok =
          sanitized (tok.pieces row.skipSpecial (feed.tokens ++ row.undecoded)) := by
  have hgrown : sanitizeUtf8Streaming
      (tok.pieces row.skipSpecial (feed.tokens ++ row.undecoded)) [] =
      (feed.text ++ (sanitizeUtf8Streaming (tok.pieces row.skipSpecial row.undecoded)
          row.slotStream.pendingBytes).1,
        (sanitizeUtf8Streaming (tok.pieces row.skipSpecial row.undecoded)
          row.slotStream.pendingBytes).2) := by
    rw [Tokenizer.pieces_append, sanitizeUtf8Streaming_append, hstream]
  rw [sanitized, hgrown, freshText, freshPending]
  cases row.finished with
  | false => left; simp
  | true => right; simp

/-- A decode while the matcher is on feeds every undecoded token to it. -/
theorem Fed.decode_active (h : row.Fed tok start promptLength stops feed k)
    (hquiet : row.finished = false → row.slotStream.stopMatchedThisIter = false)
    (hopen : row.gateClosed = false) (hactive : row.stopActive = true) :
    (row.decode tok).Fed tok start promptLength stops (feed.append (row.feed tok))
      row.tokenIds.length := by
  have hk := h.active hactive
  have hfeed : row.feed tok = { tokens := row.undecoded, text := row.freshText tok } := by
    rw [ExecutionRow.feed, h.decodes, hopen, hactive]
    rfl
  have htokens : feed.tokens ++ row.undecoded =
      (row.tokenIds.take row.tokenIds.length).drop start := by
    rw [h.tokens, List.take_length, hk, undecoded, ← List.drop_append_of_le_length,
      List.take_append_drop]
    rw [List.length_take, Nat.min_eq_left h.sent, ← hk]
    exact h.above
  have hlive : row.finished = false → row.slotStream.terminalReason = .kNotFinished := h.live
  have hstep := decode_eq tok h.decodes hopen
  rw [hfeed]
  refine ⟨?_, h.stopping, ?_, ?_, ?_, ?_, ?_, ?_, ?_, ?_, ?_, ?_⟩
  · rw [hstep]
    exact h.stopStrings
  · rw [hstep]
    exact h.prompt
  · rw [hstep]
  · exact Nat.le_trans h.above (Nat.le_trans h.below h.sent)
  · rw [hstep]
  · rw [hstep]
    exact htokens
  · rw [hstep]
    show feed.skipped ++ [] = _
    rw [h.skipped, hk, List.append_nil, List.drop_eq_nil_of_le (List.length_take_le _ _),
      List.drop_eq_nil_of_le (List.length_take_le _ _)]
  · rw [hstep]
    exact fun _ => rfl
  · rw [hstep]
    exact hlive
  · rw [skipSpecial_decode, hstep]
    rcases h.text with hbefore | hflushed
    · have hpair : sanitizeUtf8Streaming (tok.pieces row.skipSpecial feed.tokens) [] =
          (feed.text, row.slotStream.pendingBytes) := Prod.ext hbefore.1 (hbefore.2 hactive)
      rcases freshText_stream hpair with hopen' | hflushed
      · left
        show (sanitizeUtf8Streaming (tok.pieces row.skipSpecial (feed.tokens ++ row.undecoded))
          []).1 = feed.text ++ row.freshText tok ∧ (_ → (sanitizeUtf8Streaming
            (tok.pieces row.skipSpecial (feed.tokens ++ row.undecoded)) []).2 =
              row.freshPending tok)
        rw [hopen'.2]
        exact ⟨rfl, fun _ => rfl⟩
      · exact Or.inr ⟨hflushed.2.2, hflushed.1, fun _ => ⟨rfl, hflushed.2.1⟩⟩
    · obtain ⟨htext, hfinished, hempty⟩ := hflushed
      obtain ⟨hsent, hpending⟩ := hempty hactive
      have hnothing : row.undecoded = [] := by
        rw [undecoded, hsent, List.drop_length]
      have hfresh : row.freshText tok = [] ∧ row.freshPending tok = [] := by
        rw [freshText, freshPending, hnothing, hpending, hfinished]
        exact ⟨rfl, rfl⟩
      refine Or.inr ⟨?_, hfinished, fun _ => ⟨rfl, hfresh.2⟩⟩
      show feed.text ++ row.freshText tok =
        sanitized (tok.pieces row.skipSpecial (feed.tokens ++ row.undecoded))
      rw [hfresh.1, hnothing, List.append_nil, List.append_nil]
      exact htext
  · intro hlive' hunmatched
    have hopen' : row.finished = false := by
      rw [hstep] at hlive'
      exact hlive'
    obtain ⟨emitted, hmatching, htext⟩ := h.matching hopen' (hquiet hopen')
    have hgoes : (row.matchOutcome tok).1.stopMatched = false := by
      rw [hstep] at hunmatched
      exact hunmatched
    have hon : row.stopActive = !row.stopStrings.isEmpty := by
      rw [hactive, show row.stopStrings.isEmpty = false by simpa using h.nonempty]
      rfl
    refine ⟨_, hmatching.decode h.decodes hopen hopen' hon hgoes, ?_⟩
    have hout := (hmatching.decode_emitted hgoes).1
    rw [if_pos hactive] at hout
    show feed.text ++ row.freshText tok = _
    rw [hstep, htext, List.append_assoc, List.append_assoc, ← hout]

/-- A decode after a cancellation or failure passes the undecoded tokens over. -/
theorem Fed.decode_inactive (h : row.Fed tok start promptLength stops feed k)
    (hopen : row.gateClosed = false) (hactive : row.stopActive = false) :
    (row.decode tok).Fed tok start promptLength stops (feed.append (row.feed tok)) k := by
  have hfeed : row.feed tok = { skipped := row.undecoded } := by
    rw [ExecutionRow.feed, h.decodes, hopen, hactive]
    rfl
  have hreason := (stopActive_eq_false h.nonempty).1 hactive
  have hdead : row.finished = true := by
    by_contra hlive
    rw [h.live (by simpa using hlive)] at hreason
    cases hreason <;> contradiction
  have hoff : ¬ row.stopActive = true := by
    rw [hactive]
    exact Bool.false_ne_true
  rw [hfeed, decode_eq tok h.decodes hopen]
  refine ⟨h.stopStrings, h.stopping, h.prompt, Nat.le_refl _, h.above,
    Nat.le_trans h.below h.sent, ?_, ?_, fun hon => absurd hon hoff, h.live, ?_, ?_⟩
  · show feed.tokens ++ [] = _
    rw [List.append_nil]
    exact h.tokens
  · show feed.skipped ++ row.undecoded = (row.tokenIds.take row.tokenIds.length).drop k
    rw [h.skipped, List.take_length, undecoded, ← List.drop_append_of_le_length,
      List.take_append_drop]
    rw [List.length_take, Nat.min_eq_left h.sent]
    exact h.below
  · show (sanitizeUtf8Streaming (tok.pieces row.skipSpecial (feed.tokens ++ [])) []).1 =
        feed.text ++ [] ∧ (row.stopActive = true → _) ∨
      feed.text ++ [] = sanitized (tok.pieces row.skipSpecial (feed.tokens ++ [])) ∧
        row.finished = true ∧ (row.stopActive = true → _)
    rw [List.append_nil, List.append_nil]
    rcases h.text with hstream | hflushed
    · exact Or.inl ⟨hstream.1, fun hon => absurd hon hoff⟩
    · exact Or.inr ⟨hflushed.1, hdead, fun hon => absurd hon hoff⟩
  · intro hlive
    rw [show row.finished = false from hlive] at hdead
    cases hdead

/-- A pass that keeps the finish state and what the next decode reads. -/
theorem Fed.keeps {row' : ExecutionRow} (h : row.Fed tok start promptLength stops feed k)
    (hview : row'.view = row.view) (hskip : row'.skipSpecial = row.skipSpecial)
    (hsent : row'.slotStream.sentTokenCount = row.slotStream.sentTokenCount)
    (hpending : row'.slotStream.pendingBytes = row.slotStream.pendingBytes)
    (hlive : row.finished = false →
      row'.slotStream.stopMatchBuffer = row.slotStream.stopMatchBuffer ∧
        row'.slotStream.maxStopLen = row.slotStream.maxStopLen ∧
        row'.slotStream.stopMatchedThisIter = row.slotStream.stopMatchedThisIter) :
    row'.Fed tok start promptLength stops feed k := by
  have htokens : row'.tokenIds = row.tokenIds := congrArg FinishView.tokenIds hview
  have hcount : row'.currentGenerateLength = row.currentGenerateLength :=
    congrArg FinishView.currentGenerateLength hview
  have hfinished : row'.finished = row.finished := congrArg FinishView.finished hview
  have hreason : row'.slotStream.terminalReason = row.slotStream.terminalReason :=
    congrArg FinishView.terminalReason hview
  have hstops : row'.stopStrings = row.stopStrings := congrArg FinishView.stopStrings hview
  have hactive : row'.stopActive = row.stopActive := by
    rw [stopActive, stopActive, hstops, hreason]
  refine ⟨?_, h.stopping, ?_, ?_, h.above, ?_, ?_, ?_, ?_, ?_, ?_, ?_⟩
  · rw [hstops]
    exact h.stopStrings
  · rw [htokens, hcount]
    exact h.prompt
  · rw [hsent, htokens]
    exact h.sent
  · rw [hsent]
    exact h.below
  · rw [htokens]
    exact h.tokens
  · rw [htokens, hsent]
    exact h.skipped
  · rw [hactive, hsent]
    exact h.active
  · rw [hfinished, hreason]
    exact h.live
  · rw [hskip, hactive, hpending, hfinished, hsent, htokens]
    exact h.text
  · intro hopen hquiet
    rw [hfinished] at hopen
    obtain ⟨hbuffer, hlongest, hflag⟩ := hlive hopen
    rw [hflag] at hquiet
    obtain ⟨emitted, hmatching, htext⟩ := h.matching hopen hquiet
    refine ⟨emitted, ⟨?_, ?_, ?_, ?_⟩, ?_⟩
    · rw [hskip, hbuffer, hpending]
      exact hmatching.text
    · rw [hstops, hbuffer]
      exact hmatching.held
    · rw [hstops, hbuffer]
      exact hmatching.idle
    · rw [hstops, hlongest]
      exact hmatching.longest
    · rw [hbuffer]
      exact htext

@[simp] theorem skipSpecial_emit (row : ExecutionRow) : row.emit.skipSpecial = row.skipSpecial := by
  rcases emit_cases row with hsame | hpushed
  · rw [hsame.1]
  · obtain ⟨channel, hchannel, hemit⟩ := hpushed
    rw [hemit, skipSpecial, skipSpecial, hchannel]
    dsimp only
    split
    · rw [StreamChannel.mSkipSpecialTokens_finish, StreamChannel.mSkipSpecialTokens_push]
    · rw [StreamChannel.mSkipSpecialTokens_push]

@[simp] theorem skipSpecial_cancel (row : ExecutionRow) :
    row.cancel.skipSpecial = row.skipSpecial := by
  rw [skipSpecial, skipSpecial, cancel]
  cases row.slotStream.channel <;> rfl

/-- What `emitChunks` keeps of a slot for its next decode. -/
theorem emit_keeps (row : ExecutionRow) :
    row.emit.slotStream.sentTokenCount = row.slotStream.sentTokenCount ∧
      row.emit.slotStream.pendingBytes = row.slotStream.pendingBytes ∧
      row.emit.slotStream.maxStopLen = row.slotStream.maxStopLen ∧
      row.emit.slotStream.stopMatchedThisIter = row.slotStream.stopMatchedThisIter ∧
      (row.finished = false →
        row.emit.slotStream.stopMatchBuffer = row.slotStream.stopMatchBuffer) := by
  have hheld : row.releaseHeld.sentTokenCount = row.slotStream.sentTokenCount ∧
      row.releaseHeld.pendingBytes = row.slotStream.pendingBytes ∧
      row.releaseHeld.maxStopLen = row.slotStream.maxStopLen ∧
      row.releaseHeld.stopMatchedThisIter = row.slotStream.stopMatchedThisIter := by
    rw [releaseHeld]
    split <;> exact ⟨rfl, rfl, rfl, rfl⟩
  rcases emit_cases row with hsame | hpushed
  · rw [hsame.1]
    exact ⟨rfl, rfl, rfl, rfl, fun _ => rfl⟩
  · obtain ⟨channel, -, hemit⟩ := hpushed
    rw [hemit]
    refine ⟨hheld.1, hheld.2.1, hheld.2.2.1, hheld.2.2.2, ?_⟩
    intro hlive
    rw [releaseHeld_live hlive]

theorem Fed.emit (h : row.Fed tok start promptLength stops feed k) :
    row.emit.Fed tok start promptLength stops feed k := by
  obtain ⟨hsent, hpending, hlongest, hflag, hbuffer⟩ := emit_keeps row
  exact h.keeps (view_emit row) (skipSpecial_emit row) hsent hpending
    fun hlive => ⟨hbuffer hlive, hlongest, hflag⟩

theorem Fed.cancel (h : row.Fed tok start promptLength stops feed k) :
    row.cancel.Fed tok start promptLength stops feed k :=
  h.keeps (view_cancel row) (skipSpecial_cancel row) rfl rfl fun _ => ⟨rfl, rfl, rfl⟩

/-- A decode of a slot without a channel decodes every token, unless it passes them
over. -/
theorem Fed.decoded (h : row.Fed tok start promptLength stops feed k)
    (hquiet : row.finished = false → row.slotStream.stopMatchedThisIter = false) :
    ∃ k', (row.decode tok).Fed tok start promptLength stops (feed.append (row.feed tok)) k' ∧
      (row.slotStream.channel = none →
        k' = row.tokenIds.length ∨ k' = k ∧ row.finished = true) := by
  cases hgated : row.gateClosed with
  | true =>
    refine ⟨k, h.decode_gated hquiet hgated, ?_⟩
    intro hnone
    rw [gateClosed, hnone] at hgated
    cases hgated
  | false =>
    cases hactive : row.stopActive with
    | true => exact ⟨_, h.decode_active hquiet hgated hactive, fun _ => Or.inl rfl⟩
    | false =>
      refine ⟨k, h.decode_inactive hgated hactive, fun _ => Or.inr ⟨rfl, ?_⟩⟩
      by_contra hlive
      have hreason := (stopActive_eq_false h.nonempty).1 hactive
      rw [h.live (by simpa using hlive)] at hreason
      cases hreason <;> contradiction

/-- A decode of a live slot finds a stop string exactly when the text fed so far
contains one. -/
theorem Fed.matched (h : row.Fed tok start promptLength stops feed k)
    (hlive : row.finished = false) (hquiet : row.slotStream.stopMatchedThisIter = false) :
    (row.decode tok).slotStream.stopMatchedThisIter =
        (earliest stops (feed.append (row.feed tok)).text).isSome ∧
      (sanitizeUtf8Streaming (tok.pieces row.skipSpecial (feed.append (row.feed tok)).tokens) []).1 =
        (feed.append (row.feed tok)).text := by
  obtain ⟨emitted, hmatching, htext⟩ := h.matching hlive hquiet
  have hstream : (sanitizeUtf8Streaming (tok.pieces row.skipSpecial feed.tokens) []) =
      (feed.text, row.slotStream.pendingBytes) := by
    rw [hmatching.text, htext]
  have hactive : row.stopActive = true := by
    by_contra hoff
    have hreason := (stopActive_eq_false h.nonempty).1 (by simpa using hoff)
    rw [h.live hlive] at hreason
    cases hreason <;> contradiction
  cases hgated : row.gateClosed with
  | true =>
    have hnone : row.feed tok = {} := by
      rw [ExecutionRow.feed, hgated, Bool.not_true, Bool.and_false, if_neg Bool.false_ne_true]
    have hclean : earliest stops feed.text = none := by
      rw [earliest_eq_none, htext, ← h.stopStrings]
      exact hmatching.held.clean
    rw [decode_held tok (Or.inr hgated), hnone, Feed.append_empty, hclean, hstream]
    exact ⟨rfl, rfl⟩
  | false =>
    have hfeed : row.feed tok = { tokens := row.undecoded, text := row.freshText tok } := by
      rw [ExecutionRow.feed, h.decodes, hgated, hactive]
      rfl
    have hgrown := hmatching.text_append hlive
    rw [← htext] at hgrown
    rw [decode_eq tok h.decodes hgated, hfeed]
    refine ⟨?_, ?_⟩
    · show (row.matchOutcome tok).1.stopMatched = (earliest stops (feed.text ++ _)).isSome
      rw [(hmatching.decode_matched hactive).1, h.stopStrings, htext]
    · show (sanitizeUtf8Streaming (tok.pieces row.skipSpecial (feed.tokens ++ row.undecoded)) []).1
        = feed.text ++ row.freshText tok
      rw [hgrown]

theorem Fed.caughtUp (h : row.Fed tok start promptLength stops feed k) :
    (row.decode tok).slotStream.sentTokenCount = row.tokenIds.length ↔ row.caughtUp = true := by
  cases hgated : row.gateClosed with
  | false =>
    rw [decode_eq tok h.decodes hgated, ExecutionRow.caughtUp, hgated]
    exact iff_of_true rfl rfl
  | true =>
    have hempty : row.undecoded = [] ↔ row.tokenIds.length ≤ row.slotStream.sentTokenCount :=
      List.drop_eq_nil_iff
    have hsent := h.sent
    rw [decode_held tok (Or.inr hgated), ExecutionRow.caughtUp, hgated, Bool.not_true,
      Bool.false_or, List.isEmpty_iff, hempty]
    dsimp only
    omega

/-- The finish pass ends a live slot with a stop match in it, and one without it for
an end token or the limit. -/
theorem Settles.live {finished : Bool} {reason : FinishReason}
    (hsettles : row.Settles finished reason) (hlive : row.finished = false)
    (hreason : row.slotStream.terminalReason = .kNotFinished) :
    (reason = .kStopWords ↔ row.slotStream.stopMatchedThisIter = true) ∧
      (finished = false → row.slotStream.stopMatchedThisIter = false) ∧
      (finished = true → row.slotStream.stopMatchedThisIter = false →
        reason = .kEndId ∨ reason = .kLength) := by
  cases hsettles with
  | kept hunmatched =>
    have hnone : row.slotStream.stopMatchedThisIter = false := by
      by_contra hmatched
      have hactive := hunmatched (by simpa using hmatched)
      rw [hreason] at hactive
      cases hactive <;> contradiction
    rw [hreason, hnone, hlive]
    exact ⟨by decide, fun _ => rfl, (fun hfalse => by cases hfalse)⟩
  | ended _ hends hunmatched =>
    rw [hunmatched]
    refine ⟨?_, fun _ => rfl, fun _ _ => hends⟩
    rcases hends with hend | hlong
    · rw [hend]; decide
    · rw [hlong]; decide
  | stopped hmatched =>
    rw [hmatched]
    exact ⟨iff_of_true rfl rfl, (fun hfalse => by cases hfalse), (fun _ hfalse => by cases hfalse)⟩

end Fed

/-- What the decodes of a slot have fed to the matcher. -/
structure Followed (tok : Tokenizer) (start : SlotStart) (row : ExecutionRow)
    (decodes : List ExecutionRow) (k : Nat) : Prop where
  fed : row.Fed tok start.offset start.seed.workingTokens.length start.seed.stopStrings
    (feedOf tok decodes) k
  quiet : row.finished = false → row.slotStream.stopMatchedThisIter = false
  mute : start.seeded = false → row.slotStream.channel = none
  whole : row.slotStream.channel = none → k = start.offset ∨ k = row.tokenIds.length
  unheard : decodes = [] → row.slotStream.sentTokenCount = start.offset
  caught : ∀ last ∈ decodes.getLast?, row.slotStream.sentTokenCount = row.tokenIds.length ↔
    last.caughtUp = true
  stopped : ∀ last ∈ decodes.getLast?, last.finished = false →
    (sanitizeUtf8Streaming (tok.pieces row.skipSpecial (feedOf tok decodes).tokens) []).1 =
        (feedOf tok decodes).text ∧
      (row.slotStream.terminalReason = .kStopWords ↔
        (earliest start.seed.stopStrings (feedOf tok decodes).text).isSome = true)

section Followed

variable {cfg : SessionConfig} {start : SlotStart} {row : ExecutionRow}
variable {decodes : List ExecutionRow} {k : Nat}

theorem Followed.cancel (h : row.Followed cfg.tokenizer start decodes k) :
    row.cancel.Followed cfg.tokenizer start decodes k := by
  have hchannel : row.cancel.slotStream.channel =
      row.slotStream.channel.map StreamChannel.cancel := rfl
  refine ⟨h.fed.cancel, h.quiet, ?_, ?_, h.unheard, h.caught, ?_⟩
  · intro hseeded
    rw [hchannel, h.mute hseeded]
    rfl
  · intro hnone
    rw [hchannel, Option.map_eq_none_iff] at hnone
    exact h.whole hnone
  · rw [skipSpecial_cancel]
    exact h.stopped

theorem Followed.step (h : row.Followed cfg.tokenizer start decodes k) (slotStep : SlotStep) :
    ∃ k', (slotStep.upTo cfg row .emitted).Followed cfg.tokenizer start
      (decodes ++ [slotStep.upTo cfg row .appended]) k' := by
  -- before the decode: cancellations and tokens
  obtain ⟨added, htokens, hlive⟩ := advances_tokens cfg slotStep.tokens
    (row.observe slotStep.rootCancelled)
  have hobserved := advances_observe row slotStep.rootCancelled
  set ready := slotStep.upTo cfg row .appended with hready
  have hstream : ready.slotStream =
      { row.slotStream with terminalReason := ready.slotStream.terminalReason } := by
    have hfirst := htokens.slotStream
    rw [hobserved.slotStream] at hfirst
    exact hfirst
  have hfed : ready.Fed cfg.tokenizer start.offset start.seed.workingTokens.length
      start.seed.stopStrings (feedOf cfg.tokenizer decodes) k :=
    (h.fed.advances hobserved).advances htokens
  have hquiet : ready.finished = false → ready.slotStream.stopMatchedThisIter = false := by
    intro hopen
    rw [hstream]
    apply h.quiet
    by_contra hdead
    have hstays := (hobserved.dead (by simpa using hdead)).2
    rw [← hlive, show (slotStep.tokens.append cfg (row.observe slotStep.rootCancelled)).finished =
      false from hopen] at hstays
    cases hstays
  have hchannel : ready.slotStream.channel = row.slotStream.channel := by rw [hstream]
  have hstays : ready.finished = true → ready.tokenIds = row.tokenIds := by
    intro hdead
    have hnone := (htokens.dead (hlive.symm.trans hdead)).1
    rw [show ready.tokenIds = _ from htokens.tokenIds, hnone, hobserved.tokenIds, List.append_nil,
      List.append_nil]
  -- the decode, the finish states and the chunks
  obtain ⟨k', hdecoded, hwhole⟩ := hfed.decoded hquiet
  have hsettled := advances_settles cfg slotStep.guided (ready.decode cfg.tokenizer)
  have hfinal := (hdecoded.advances hsettled.1).emit
  have hemitted : slotStep.upTo cfg row .emitted =
      (((ready.decode cfg.tokenizer).updateThinkingDone cfg slotStep.guided).updateFinishStates
        cfg).emit := rfl
  rw [hemitted]
  set settled := ((ready.decode cfg.tokenizer).updateThinkingDone cfg
    slotStep.guided).updateFinishStates cfg with hsettledrow
  have hview : (ready.decode cfg.tokenizer).view = ready.view := view_decode cfg.tokenizer ready
  have hlast : settled.emit.tokenIds = ready.tokenIds := by
    have hdecodedTokens : (ready.decode cfg.tokenizer).tokenIds = ready.tokenIds :=
      congrArg FinishView.tokenIds hview
    have hemit : settled.emit.tokenIds = settled.tokenIds :=
      congrArg FinishView.tokenIds (view_emit settled)
    rw [hemit, hsettled.1.tokenIds, hdecodedTokens, List.append_nil]
  have hopen : settled.emit.finished = settled.finished :=
    congrArg FinishView.finished (view_emit settled)
  have hsome : settled.emit.slotStream.channel.isSome = row.slotStream.channel.isSome := by
    rw [isSome_channel_emit, hsettledrow, channel_updateFinishStates,
      slotStream_updateThinkingDone, channel_decode, hchannel]
  have hmuted : row.slotStream.channel = none ↔ settled.emit.slotStream.channel = none := by
    rw [← Option.not_isSome_iff_eq_none, ← Option.not_isSome_iff_eq_none, hsome]
  obtain ⟨hsent, -, -, hflag, -⟩ := emit_keeps settled
  have hsentDecoded : settled.slotStream.sentTokenCount =
      (ready.decode cfg.tokenizer).slotStream.sentTokenCount := by
    rw [hsettled.1.slotStream]
  refine ⟨k', ?_, ?_, ?_, ?_, ?_, ?_, ?_⟩
  · rw [feedOf_concat]
    exact hfinal
  · rw [hopen, hflag, hsettled.1.slotStream]
    intro hfinal
    have hdecodedLive : (ready.decode cfg.tokenizer).finished = false := by
      by_contra hdead
      rw [(hsettled.1.dead (by simpa using hdead)).2] at hfinal
      cases hfinal
    exact (hsettled.2.live hdecodedLive (hdecoded.live hdecodedLive)).2.1 hfinal
  · exact fun hseeded => hmuted.1 (h.mute hseeded)
  · intro hnone
    have hno := hmuted.2 hnone
    rw [hlast]
    rcases hwhole (hchannel.trans hno) with hall | hdead
    · exact Or.inr hall
    · rw [hdead.1, hstays hdead.2]
      exact h.whole hno
  · exact (fun hnil => absurd hnil (by simp))
  · intro last hmem
    rw [List.getLast?_concat, Option.mem_some_iff] at hmem
    rw [← hmem, hlast, hsent, hsentDecoded]
    exact hfed.caughtUp
  · intro last hmem hlastLive
    rw [List.getLast?_concat, Option.mem_some_iff] at hmem
    rw [← hmem] at hlastLive
    have hdecodedLive : (ready.decode cfg.tokenizer).finished = false :=
      (congrArg FinishView.finished hview).trans hlastLive
    have hmatched := hfed.matched hlastLive (hquiet hlastLive)
    have hskip : settled.emit.skipSpecial = ready.skipSpecial := by
      rw [skipSpecial_emit, ← skipSpecial_decode cfg.tokenizer ready, skipSpecial, skipSpecial,
        hsettled.1.slotStream]
    have hreason : settled.emit.slotStream.terminalReason = settled.slotStream.terminalReason :=
      congrArg FinishView.terminalReason (view_emit settled)
    rw [feedOf_concat, hskip, hreason, ← hmatched.1]
    exact ⟨hmatched.2, (hsettled.2.live hdecodedLive (hdecoded.live hdecodedLive)).1⟩

theorem Advances.trans {row row' row'' : ExecutionRow} {added more : List Token}
    (h : row.Advances row' added) (h' : row'.Advances row'' more) :
    row.Advances row'' (added ++ more) where
  tokenIds := by rw [h'.tokenIds, h.tokenIds, List.append_assoc]
  count := by rw [h'.count, h.count, List.length_append, Nat.add_assoc]
  stopStrings := h'.stopStrings.trans h.stopStrings
  slotStream := by
    have hlast := h'.slotStream
    rw [h.slotStream] at hlast
    exact hlast
  dead := by
    intro hdead
    have hfirst := h.dead hdead
    have hnext := h'.dead hfirst.2
    exact ⟨by rw [hfirst.1, hnext.1]; rfl, hnext.2⟩
  live := by
    intro hlive
    have hopen : row'.finished = false := by
      by_contra hdead
      rw [(h'.dead (by simpa using hdead)).2] at hlive
      cases hlive
    exact (h'.live hlive).trans (h.live hopen)
  cancelled := by
    intro hdead hreason
    have hfirst := h.cancelled hdead hreason
    rw [← hfirst] at hreason
    exact (h'.cancelled (h.dead hdead).2 hreason).trans hfirst

theorem advances_appendSampled (row : ExecutionRow) (token : Token) :
    ∃ added, row.Advances (row.appendSampled token) added := by
  by_cases hfinished : row.finished = true
  · rw [appendSampled, if_pos hfinished]
    exact ⟨[], Advances.refl row⟩
  · rw [appendSampled, if_neg hfinished]
    exact ⟨[token], rfl, rfl, rfl, rfl, fun hdead => absurd hdead hfinished, fun _ => rfl,
      fun _ _ => rfl⟩

theorem advances_appended (row : ExecutionRow) (token : Option Token) :
    ∃ added, row.Advances ((token.map row.appendSampled).getD row) added := by
  cases token with
  | none => exact ⟨[], Advances.refl row⟩
  | some token => exact advances_appendSampled row token

theorem finished_appended (row : ExecutionRow) (token : Option Token) :
    ((token.map row.appendSampled).getD row).finished = row.finished := by
  cases token with
  | none => rfl
  | some token =>
    show (row.appendSampled token).finished = row.finished
    rw [appendSampled]
    split <;> rfl

theorem advances_finishLookahead (cfg : SessionConfig) (row : ExecutionRow) (token : Token) :
    row.Advances (GenerationSession.finishLookahead cfg row token) [] := by
  obtain ⟨done, hdone⟩ := updateThinkingDoneForToken_eq cfg row token
  have hthought : row.Advances { row with thinkingDone := done } [] :=
    ⟨(List.append_nil _).symm, rfl, rfl, rfl, fun hdead => ⟨rfl, hdead⟩, fun _ => rfl,
      fun _ _ => rfl⟩
  rw [GenerationSession.finishLookahead, hdone]
  by_cases hfinished : row.finished = true
  · rw [if_pos hfinished]
    exact hthought
  · have hlive : ({ row with thinkingDone := done } : ExecutionRow).finished = false := by
      simpa using hfinished
    rw [if_neg hfinished]
    split
    · exact hthought.trans (advances_finishWith hlive .kEndId)
    · split
      · exact hthought.trans (advances_finishWith hlive .kLength)
      · exact hthought

/-- The seated prefill appends at most its token and may finish the slot. -/
theorem advances_seatedRow (cfg : SessionConfig) (outcome : PrefillOutcome)
    (finalize : FinalizeOutcome) {row : ExecutionRow} (hlive : row.finished = false) :
    ∃ added, row.Advances (GenerationSession.seatedRow cfg outcome finalize row) added := by
  cases outcome with
  | threw token => exact advances_appended row token
  | failed token =>
    obtain ⟨added, happended⟩ := advances_appended row token
    exact ⟨_, happended.trans
      (advances_finishWith ((finished_appended row token).trans hlive) .kError)⟩
  | prefilled token =>
    obtain ⟨added, happended⟩ := advances_appendSampled row token
    have hlooked := happended.trans (advances_finishLookahead cfg (row.appendSampled token) token)
    simp only [GenerationSession.seatedRow]
    split
    · cases finalize with
      | threw => exact ⟨added, happended⟩
      | failed =>
        exact ⟨_, happended.trans (advances_finishWith
          ((finished_appended row (some token)).trans hlive) .kError)⟩
      | finalized => exact ⟨_, hlooked⟩
    · exact ⟨_, hlooked⟩

/-- The prefill of a founder appends at most its token to the row it was set up with,
and may find it finished. -/
theorem advances_founderRow (founder : GenerationSession.Founder) (skipSpecialTokens : Bool) :
    ∃ added, (founder.seed.founderRow skipSpecialTokens).Advances
      (founder.row skipSpecialTokens) added := by
  rw [GenerationSession.Founder.row]
  cases founder.guideFailed with
  | false =>
    rw [if_neg Bool.false_ne_true]
    exact advances_appended _ founder.firstToken
  | true =>
    obtain ⟨added, happended⟩ := advances_appended
      ((founder.seed.founderRow skipSpecialTokens).finishWith .kError) founder.firstToken
    rw [if_pos rfl]
    exact ⟨_, (advances_finishWith rfl .kError).trans happended⟩

/-- Nothing is decoded yet. -/
theorem fed_start {tok : Tokenizer} {start promptLength : Nat} {stops : List Bytes}
    (hstops : row.stopStrings = stops) (hne : stops ≠ [])
    (htokens : row.tokenIds.length = promptLength) (hcount : row.currentGenerateLength = 0)
    (hsent : start ≤ promptLength) (hstream : row.slotStream =
      { channel := row.slotStream.channel
        skipSpecialTokens := row.slotStream.skipSpecialTokens
        lastEmittedTokenCount := row.slotStream.lastEmittedTokenCount
        sentTokenCount := start
        maxStopLen := longestStop stops }) :
    row.Fed tok start promptLength stops {} start := by
  have hcounted : row.slotStream.sentTokenCount = start := by rw [hstream]
  have hpending : row.slotStream.pendingBytes = [] := by rw [hstream]
  refine ⟨hstops, hne, ?_, ?_, Nat.le_refl _, ?_, ?_, ?_, ?_, ?_, ?_, ?_⟩
  · rw [htokens, hcount, Nat.add_zero]
  · rw [hcounted, htokens]
    exact hsent
  · rw [hcounted]
  · rw [List.drop_eq_nil_of_le (List.length_take_le _ _)]
  · rw [hcounted, List.drop_eq_nil_of_le (List.length_take_le _ _)]
  · exact fun _ => hcounted.symm
  · intro _
    rw [hstream]
  · rw [hpending]
    exact Or.inl ⟨rfl, fun _ => rfl⟩
  · intro _ _
    refine ⟨[], ⟨?_, ?_, ?_, ?_⟩, ?_⟩
    · rw [hstream]
      rfl
    · rw [hstops, hstream]
      exact held_start stops
    · intro _
      rw [hstream]
    · rw [hstops, hstream]
    · rw [hstream]
      rfl

/-- Nothing was fed to the matcher before the first decode. -/
theorem followed_start {row' : ExecutionRow} {added : List Token}
    (hfed : row.Fed cfg.tokenizer start.offset start.seed.workingTokens.length
      start.seed.stopStrings {} start.offset) (hsent : row.slotStream.sentTokenCount = start.offset)
    (hquiet : row.slotStream.stopMatchedThisIter = false)
    (hmute : start.seeded = false → row.slotStream.channel = none)
    (hadvances : row.Advances row' added) : row'.Followed cfg.tokenizer start [] start.offset := by
  refine ⟨hfed.advances hadvances, ?_, ?_, fun _ => Or.inl rfl, ?_, ?_, ?_⟩
  · intro _
    rw [hadvances.slotStream]
    exact hquiet
  · intro hseeded
    rw [hadvances.slotStream]
    exact hmute hseeded
  · intro _
    rw [hadvances.slotStream]
    exact hsent
  · exact (fun last hmem => by cases hmem)
  · exact (fun last hmem => by cases hmem)

theorem followed_founder (cfg : SessionConfig) (founder : GenerationSession.Founder)
    (primed : SlotStep) (skipSpecialTokens : Bool) (hstops : founder.seed.stopStrings ≠ []) :
    (founder.row skipSpecialTokens).Followed cfg.tokenizer (.founded founder primed) []
      (SlotStart.founded founder primed).offset := by
  obtain ⟨added, hadvances⟩ := advances_founderRow founder skipSpecialTokens
  have hoffset : (SlotStart.founded founder primed).offset =
      if founder.seed.channel.isSome then founder.seed.workingTokens.length else 0 := rfl
  refine followed_start ?_ hoffset.symm rfl ?_ hadvances
  · apply @fed_start (founder.seed.founderRow skipSpecialTokens) _ _ _ _ rfl hstops rfl rfl
    · rw [hoffset]
      split
      · exact Nat.le_refl _
      · exact Nat.zero_le _
    · rfl
  · intro hseeded
    show founder.seed.attachedChannel = none
    have hnone : founder.seed.channel = none := by
      cases hchannel : founder.seed.channel with
      | none => rfl
      | some settings =>
        rw [SlotStart.seeded, hchannel] at hseeded
        cases hseeded
    rw [SlotSeed.attachedChannel, hnone]
    rfl

theorem followed_seated (cfg : SessionConfig) (seed : SlotSeed) (skipSpecialTokens : Bool)
    (outcome : PrefillOutcome) (finalize : FinalizeOutcome) (hstops : seed.stopStrings ≠ []) :
    (GenerationSession.seatedRow cfg outcome finalize (seed.joinerRow skipSpecialTokens)).Followed
      cfg.tokenizer (.seated seed outcome finalize) [] seed.workingTokens.length := by
  obtain ⟨added, hadvances⟩ := @advances_seatedRow cfg outcome finalize
    (seed.joinerRow skipSpecialTokens) rfl
  refine followed_start ?_ rfl rfl (fun hseeded => by cases hseeded) hadvances
  exact fed_start rfl hstops rfl rfl (Nat.le_refl _) rfl

/-- Along a life. -/
theorem followed_life (cfg : SessionConfig) (skipSpecialTokens : Bool) {start : SlotStart}
    (hstops : start.seed.stopStrings ≠ []) (events : List SlotEvent) :
    ∃ k, (life cfg skipSpecialTokens start events).Followed cfg.tokenizer start
      (lifeDecodes cfg skipSpecialTokens start events) k := by
  apply @lifeDecodes_induct _ _ _
    (fun row decodes => ∃ k, row.Followed cfg.tokenizer start decodes k)
  · cases start with
    | founded founder primed =>
      have hfollowed := followed_founder cfg founder primed skipSpecialTokens hstops
      show ∃ k, (if cfg.isDiffusionBackbone = true then _ else _ : ExecutionRow).Followed
        cfg.tokenizer _ (if cfg.isDiffusionBackbone = true then _ else _) k
      split
      · exact ⟨_, hfollowed⟩
      · exact hfollowed.step primed
    | seated seed outcome finalize =>
      exact ⟨_, followed_seated cfg seed skipSpecialTokens outcome finalize hstops⟩
  · intro row decodes event hfollowed
    obtain ⟨k, h⟩ := hfollowed
    cases event with
    | step slotStep => exact h.step slotStep
    | cancel =>
      refine ⟨k, ?_⟩
      rw [SlotEvent.decoded, List.append_nil]
      exact h.cancel

end Followed

end ExecutionRow

/-! ## Main results -/

/-- `text` is the incremental detokenization of some tokens, with or without the
final flush. -/
def Detokenizes (tok : Tokenizer) (skipSpecial : Bool) (tokens : List Token) (text : Bytes) : Prop :=
  text = (sanitizeUtf8Streaming (tok.pieces skipSpecial tokens) []).1 ∨
    text = sanitized (tok.pieces skipSpecial tokens)

/-- The generated tokens, and nothing else, were fed to the stop matcher. -/
def MatchesGenerated (tok : Tokenizer) (row : ExecutionRow) (feed : Feed) : Prop :=
  feed.tokens = row.generated ∧ Detokenizes tok row.skipSpecial row.generated feed.text

/-- When they are: the slot decodes from behind its working prompt, no decode passed
tokens over and the last one was not held back; or there was nothing to feed. -/
def SlotStart.FeedsGenerated (start : SlotStart) (row : ExecutionRow) (decodes : List ExecutionRow) :
    Prop :=
  (start.seed.stopStrings ≠ [] ∧ (start.seeded = true ∨ start.seed.workingTokens = []) ∧
      (∀ decoded ∈ decodes, decoded.passesOver = false) ∧
      ∃ last ∈ decodes.getLast?, last.caughtUp = true) ∨
    row.generated = [] ∧ ∀ decoded ∈ decodes, decoded.takesTokens = false

namespace ExecutionRow

variable {cfg : SessionConfig} {start : SlotStart} {row : ExecutionRow}
variable {decodes : List ExecutionRow} {k : Nat}

theorem Fed.generated {tok : Tokenizer} {promptLength offset : Nat} {stops : List Bytes}
    {feed : Feed} (h : row.Fed tok offset promptLength stops feed k) :
    row.generated = row.tokenIds.drop promptLength := by
  rw [ExecutionRow.generated, h.prompt, Nat.add_sub_cancel]

theorem offset_of_seeded (hseeded : start.seeded = true ∨ start.seed.workingTokens = []) :
    start.offset = start.seed.workingTokens.length := by
  rw [SlotStart.offset]
  split
  · rfl
  · rename_i hnot
    rcases hseeded with htrue | hempty
    · exact absurd htrue hnot
    · rw [hempty]; rfl

theorem Followed.tokens_eq (h : row.Followed cfg.tokenizer start decodes k)
    (hstops : start.seed.stopStrings ≠ []) :
    (feedOf cfg.tokenizer decodes).tokens = row.generated ↔ start.FeedsGenerated row decodes := by
  have hprompt := h.fed.prompt
  have hbelow := h.fed.below
  have hsent := h.fed.sent
  have hgenerated := h.fed.generated
  have htokens := h.fed.tokens
  rw [SlotStart.FeedsGenerated, ← tokens_feedOf cfg.tokenizer, ← skipped_feedOf cfg.tokenizer]
  constructor
  · intro hsame
    by_cases hnone : row.generated = []
    · exact Or.inr ⟨hnone, hsame.trans hnone⟩
    · left
      have hlong : start.seed.workingTokens.length < row.tokenIds.length := by
        by_contra hshort
        apply hnone
        rw [hgenerated, List.drop_eq_nil_of_le (Nat.le_of_not_lt hshort)]
      have hlength : k - start.offset = row.tokenIds.length - start.seed.workingTokens.length := by
        have hlengths := congrArg List.length (htokens.symm.trans (hsame.trans hgenerated))
        rw [List.length_drop, List.length_drop, List.length_take] at hlengths
        omega
      have hseeded : start.seeded = true ∨ start.seed.workingTokens = [] := by
        by_contra hnot
        rw [not_or] at hnot
        have hmute := h.mute (by simpa using hnot.1)
        have hzero : start.offset = 0 := by
          rw [SlotStart.offset, if_neg hnot.1]
        have hsome := List.length_pos_of_ne_nil hnot.2
        rcases h.whole hmute with hstart | hall
        · omega
        · omega
      have hoffset := offset_of_seeded hseeded
      have hall : k = row.tokenIds.length := by omega
      refine ⟨hstops, hseeded, ?_, ?_⟩
      · rw [h.fed.skipped, List.drop_eq_nil_of_le]
        rw [hall]
        exact List.length_take_le' _ _
      · cases hlast : decodes.getLast? with
        | none =>
          have hunheard := h.unheard (List.getLast?_eq_none_iff.1 hlast)
          omega
        | some last => exact ⟨last, rfl, (h.caught last hlast).1 (by omega)⟩
  · intro hfeeds
    rcases hfeeds with hall | hnothing
    · obtain ⟨-, hseeded, hskipped, last, hlast, hcaught⟩ := hall
      have hwhole := (h.caught last hlast).2 hcaught
      rw [h.fed.skipped, List.drop_eq_nil_iff, List.length_take] at hskipped
      have hk : k = row.tokenIds.length := by omega
      rw [htokens, hk, List.take_length, offset_of_seeded hseeded, hgenerated]
    · rw [hnothing.1, hnothing.2]

theorem stopStrings_step (slotStep : SlotStep) (row : ExecutionRow) :
    (slotStep.upTo cfg row .appended).stopStrings = row.stopStrings ∧
      (slotStep.upTo cfg row .emitted).stopStrings = row.stopStrings := by
  have happended : (slotStep.upTo cfg row .appended).stopStrings = row.stopStrings := by
    obtain ⟨added, htokens, -⟩ := advances_tokens cfg slotStep.tokens
      (row.observe slotStep.rootCancelled)
    exact htokens.stopStrings.trans (advances_observe row slotStep.rootCancelled).stopStrings
  refine ⟨happended, ?_⟩
  set ready := slotStep.upTo cfg row .appended
  have hdecoded : (ready.decode cfg.tokenizer).stopStrings = ready.stopStrings :=
    congrArg FinishView.stopStrings (view_decode cfg.tokenizer ready)
  have hsettled := (advances_settles cfg slotStep.guided
    (ready.decode cfg.tokenizer)).1.stopStrings
  have hemitted := congrArg FinishView.stopStrings (view_emit
    (((ready.decode cfg.tokenizer).updateThinkingDone cfg slotStep.guided).updateFinishStates cfg))
  exact hemitted.trans (hsettled.trans (hdecoded.trans happended))

theorem stopStrings_life (cfg : SessionConfig) (skipSpecialTokens : Bool) (start : SlotStart)
    (events : List SlotEvent) :
    (life cfg skipSpecialTokens start events).stopStrings = start.seed.stopStrings ∧
      ∀ decoded ∈ lifeDecodes cfg skipSpecialTokens start events,
        decoded.stopStrings = start.seed.stopStrings := by
  apply @lifeDecodes_induct _ _ _ (fun row decodes => row.stopStrings = start.seed.stopStrings ∧
    ∀ decoded ∈ decodes, decoded.stopStrings = start.seed.stopStrings)
  · cases start with
    | founded founder primed =>
      obtain ⟨added, hadvances⟩ := advances_founderRow founder skipSpecialTokens
      have hfounder : (founder.row skipSpecialTokens).stopStrings = founder.seed.stopStrings :=
        hadvances.stopStrings
      obtain ⟨happended, hemitted⟩ := @stopStrings_step cfg primed
        (founder.row skipSpecialTokens)
      show (if cfg.isDiffusionBackbone = true then _ else _ : ExecutionRow).stopStrings = _ ∧
        ∀ decoded ∈ if cfg.isDiffusionBackbone = true then _ else _, _
      split
      · exact ⟨hfounder, (fun decoded hmem => by cases hmem)⟩
      · refine ⟨hemitted.trans hfounder, ?_⟩
        intro decoded hmem
        rw [List.mem_singleton.1 hmem]
        exact happended.trans hfounder
    | seated seed outcome finalize =>
      obtain ⟨added, hadvances⟩ := @advances_seatedRow cfg outcome finalize
        (seed.joinerRow skipSpecialTokens) rfl
      exact ⟨hadvances.stopStrings, (fun decoded hmem => by cases hmem)⟩
  · intro row decodes event hkept
    obtain ⟨hrow, hdecodes⟩ := hkept
    cases event with
    | step slotStep =>
      obtain ⟨happended, hemitted⟩ := @stopStrings_step cfg slotStep row
      refine ⟨hemitted.trans hrow, ?_⟩
      intro decoded hmem
      rw [List.mem_append] at hmem
      rcases hmem with hbefore | hnew
      · exact hdecodes decoded hbefore
      · rw [List.mem_singleton.1 hnew]
        exact happended.trans hrow
    | cancel =>
      rw [SlotEvent.decoded, List.append_nil]
      exact ⟨hrow, hdecodes⟩

theorem text_feedOf {tok : Tokenizer} (hinactive : ∀ decoded ∈ decodes, decoded.stopActive = false) :
    (feedOf tok decodes).text = [] := by
  induction decodes using List.reverseRecOn with
  | nil => rfl
  | append_singleton decodes row ih =>
    rw [feedOf_concat, Feed.append, ih fun decoded hmem => hinactive decoded (by simp [hmem]),
      ExecutionRow.feed, hinactive row (by simp)]
    split <;> rfl

theorem matchesGenerated_of_nil (cfg : SessionConfig) (skipSpecialTokens : Bool)
    {start : SlotStart} (hstops : start.seed.stopStrings = []) (events : List SlotEvent) :
    MatchesGenerated cfg.tokenizer (life cfg skipSpecialTokens start events)
        (lifeFeed cfg skipSpecialTokens start events) ↔
      start.FeedsGenerated (life cfg skipSpecialTokens start events)
        (lifeDecodes cfg skipSpecialTokens start events) := by
  have hinactive : ∀ decoded ∈ lifeDecodes cfg skipSpecialTokens start events,
      decoded.stopActive = false := by
    intro decoded hmem
    rw [stopActive, (stopStrings_life cfg skipSpecialTokens start events).2 decoded hmem, hstops]
    rfl
  have hnothing : ∀ decoded ∈ lifeDecodes cfg skipSpecialTokens start events,
      decoded.takesTokens = false := by
    intro decoded hmem
    rw [takesTokens, hinactive decoded hmem, Bool.and_false, Bool.false_and]
  have htokens := (tokens_feedOf cfg.tokenizer _).2 hnothing
  rw [MatchesGenerated, lifeFeed, htokens, text_feedOf hinactive, SlotStart.FeedsGenerated]
  constructor
  · exact fun hmatches => Or.inr ⟨hmatches.1.symm, hnothing⟩
  · intro hfeeds
    rcases hfeeds with hall | hnone
    · exact absurd hstops hall.1
    · rw [hnone.1]
      exact ⟨rfl, Or.inl rfl⟩

theorem Followed.detokenizes (h : row.Followed cfg.tokenizer start decodes k) :
    Detokenizes cfg.tokenizer row.skipSpecial (feedOf cfg.tokenizer decodes).tokens
      (feedOf cfg.tokenizer decodes).text := by
  rcases h.fed.text with hstream | hflushed
  · exact Or.inl hstream.1.symm
  · exact Or.inr hflushed.1

/-- The generated tokens are what is fed exactly when the slot feeds them. -/
theorem matchesGenerated_iff (cfg : SessionConfig) (skipSpecialTokens : Bool) (start : SlotStart)
    (events : List SlotEvent) :
    MatchesGenerated cfg.tokenizer (life cfg skipSpecialTokens start events)
        (lifeFeed cfg skipSpecialTokens start events) ↔
      start.FeedsGenerated (life cfg skipSpecialTokens start events)
        (lifeDecodes cfg skipSpecialTokens start events) := by
  by_cases hstops : start.seed.stopStrings = []
  · exact matchesGenerated_of_nil cfg skipSpecialTokens hstops events
  · obtain ⟨k, h⟩ := followed_life cfg skipSpecialTokens hstops events
    rw [← h.tokens_eq hstops, MatchesGenerated, lifeFeed]
    constructor
    · exact fun hmatches => hmatches.1
    · intro htokens
      refine ⟨htokens, ?_⟩
      rw [← htokens]
      exact h.detokenizes

end ExecutionRow

/-- A slot that stop strings are matched for, decoded while it was live, and fed with
its generated tokens. -/
structure Watched (cfg : SessionConfig) (skipSpecialTokens : Bool) (start : SlotStart)
    (events : List SlotEvent) : Prop where
  stopping : start.seed.stopStrings ≠ []
  live : ∃ last ∈ (lifeDecodes cfg skipSpecialTokens start events).getLast?, last.finished = false
  matched : MatchesGenerated cfg.tokenizer (life cfg skipSpecialTokens start events)
    (lifeFeed cfg skipSpecialTokens start events)

/-- The last decode of a watched slot stopped it exactly when the text of its
generated tokens contains a stop string. -/
theorem Watched.stopWords_iff {cfg : SessionConfig} {skipSpecialTokens : Bool} {start : SlotStart}
    {events : List SlotEvent} (h : Watched cfg skipSpecialTokens start events) :
    (life cfg skipSpecialTokens start events).slotStream.terminalReason = .kStopWords ↔
      (earliest start.seed.stopStrings (sanitizeUtf8Streaming
        (cfg.tokenizer.pieces (life cfg skipSpecialTokens start events).skipSpecial
          (life cfg skipSpecialTokens start events).generated) []).1).isSome = true := by
  obtain ⟨k, hfollowed⟩ := ExecutionRow.followed_life cfg skipSpecialTokens h.stopping events
  obtain ⟨last, hlast, hlive⟩ := h.live
  obtain ⟨htext, hstopped⟩ := hfollowed.stopped last hlast hlive
  have htokens := h.matched.1
  rw [lifeFeed] at htokens
  rw [hstopped, ← htext, htokens]

/-- The stop matcher of a slot sees its generated text, and nothing else, exactly
when the slot feeds it so.  Two slots that do, with the same stop strings and the
same setting for special tokens, stop at the same step: where a decode finds them
live with the same generated tokens, both stop or neither does. -/
theorem stop_matching (cfg : SessionConfig) (skipSpecialTokens : Bool) (start : SlotStart)
    (events : List SlotEvent) :
    (MatchesGenerated cfg.tokenizer (life cfg skipSpecialTokens start events)
        (lifeFeed cfg skipSpecialTokens start events) ↔
      start.FeedsGenerated (life cfg skipSpecialTokens start events)
        (lifeDecodes cfg skipSpecialTokens start events)) ∧
    ∀ (skipSpecialTokens' : Bool) (start' : SlotStart) (events' : List SlotEvent),
      start'.seed.stopStrings = start.seed.stopStrings →
      Watched cfg skipSpecialTokens start events →
      Watched cfg skipSpecialTokens' start' events' →
      (life cfg skipSpecialTokens' start' events').skipSpecial =
        (life cfg skipSpecialTokens start events).skipSpecial →
      (life cfg skipSpecialTokens' start' events').generated =
        (life cfg skipSpecialTokens start events).generated →
      ((life cfg skipSpecialTokens' start' events').slotStream.terminalReason = .kStopWords ↔
        (life cfg skipSpecialTokens start events).slotStream.terminalReason = .kStopWords) := by
  refine ⟨ExecutionRow.matchesGenerated_iff cfg skipSpecialTokens start events, ?_⟩
  intro skipSpecialTokens' start' events' hstops hwatched hwatched' hskip hgenerated
  rw [hwatched.stopWords_iff, hwatched'.stopWords_iff, hstops, hskip, hgenerated]

/-- A prompt of one token, with a stop string. -/
def stoppedSeed (stop : Bytes) (channel : Option ChannelSettings) : SlotSeed where
  promptTokenIds := [65]
  stopStrings := [stop]
  channel := channel

/-- A founder of `stoppedSeed`, and a joiner. -/
def stoppedFounder (stop : Bytes) (channel : Option ChannelSettings) : SlotStart :=
  .founded ⟨stoppedSeed stop channel, some 66, false⟩ {}

def stoppedJoiner (stop : Bytes) (channel : Option ChannelSettings) : SlotStart :=
  .seated (stoppedSeed stop channel) (.prefilled 66) .finalized

/-- A founder without a channel stops on its prompt, and with one it does not.  A
joiner's first token is fed a step late: it stops one token behind a founder. -/
theorem stopString_inPrompt :
    ((lifeFeed (shortSession false) true (stoppedFounder [65] none) []).tokens = [65, 66] ∧
      (life (shortSession false) true (stoppedFounder [65] none) []).generated = [66] ∧
      (life (shortSession false) true (stoppedFounder [65] none) []).slotStream.terminalReason =
        .kStopWords) ∧
    ((lifeFeed (shortSession false) true (stoppedFounder [65] (some {})) []).tokens = [66] ∧
      (life (shortSession false) true (stoppedFounder [65] (some {}))
        []).slotStream.terminalReason = .kNotFinished) ∧
    (life (shortSession false) true (stoppedFounder [66] (some {}))
      []).slotStream.terminalReason = .kStopWords ∧
    (life (shortSession false) true (stoppedJoiner [66] (some {}))
      []).slotStream.terminalReason = .kNotFinished ∧
    (life (shortSession false) true (stoppedJoiner [66] (some {}))
      [.step { tokens := .sampled 67 }]).slotStream.terminalReason = .kStopWords := by
  decide +kernel

/-- A founder with a channel and a joiner without one, in their second token. -/
theorem stop_matching_joiner :
    (life (shortSession false) true (stoppedJoiner [66, 67] none)
        [.step { tokens := .sampled 67 }]).slotStream.terminalReason = .kStopWords ↔
      (life (shortSession false) true (stoppedFounder [66, 67] (some {}))
        [.step { tokens := .sampled 67 }]).slotStream.terminalReason = .kStopWords := by
  refine (stop_matching (shortSession false) true (stoppedFounder [66, 67] (some {}))
    [.step { tokens := .sampled 67 }]).2 true _ _ rfl ⟨by decide, ?_, ?_⟩ ⟨by decide, ?_, ?_⟩ rfl
    (by decide +kernel)
  · exact ⟨_, rfl, by decide +kernel⟩
  · exact ⟨by decide +kernel, Or.inl (by decide +kernel)⟩
  · exact ⟨_, rfl, by decide +kernel⟩
  · exact ⟨by decide +kernel, Or.inl (by decide +kernel)⟩

end EdgeLLM.Ports.Generation
