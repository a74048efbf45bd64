import EdgeLLM.Ports.SlotLife

/-!
# Termination of the stream channels

`emitChunks` closes the channel of a finished slot, eviction drops the slot, and
the finalizer closes what is left.  Every channel ends with exactly one terminal
chunk as long as no step evicts or keeps a finished slot behind the back of
`emitChunks`.
-/

namespace EdgeLLM.Ports.Generation

open Verified Checked

/-! ## Passes that leave the channel alone -/

namespace ExecutionRow

@[simp] theorem channel_finishWith (row : ExecutionRow) (reason : FinishReason) :
    (row.finishWith reason).slotStream.channel = row.slotStream.channel := rfl

@[simp] theorem channel_observe (row : ExecutionRow) (rootCancelled : Bool) :
    (row.observe rootCancelled).slotStream.channel = row.slotStream.channel := by
  rcases observe_cases row rootCancelled with hsame | hcancelled
  · rw [hsame]
  · rw [hcancelled.2, channel_finishWith]

variable (cfg : SessionConfig) (tok : Tokenizer)

@[simp] theorem slotStream_updateThinkingDoneForToken (row : ExecutionRow) (tokenId : Token) :
    (row.updateThinkingDoneForToken cfg tokenId).slotStream = row.slotStream := by
  obtain ⟨done, hdone⟩ := updateThinkingDoneForToken_eq cfg row tokenId
  rw [hdone]

@[simp] theorem slotStream_appendSampled (row : ExecutionRow) (token : Token) :
    (row.appendSampled token).slotStream = row.slotStream := by
  rw [appendSampled]
  split <;> rfl

@[simp] theorem slotStream_tokens (tokens : SlotTokens) (row : ExecutionRow) :
    (tokens.append cfg row).slotStream = row.slotStream := by
  obtain ⟨added, done, -, happended⟩ := tokens.append_eq cfg row
  rw [happended]

@[simp] theorem channel_newText (row : ExecutionRow) (s : SlotStreamState) :
    (row.newText tok s).2.channel = s.channel := by
  rw [newText, emitDelta_eq]
  split <;> rfl

@[simp] theorem channel_decode (row : ExecutionRow) :
    (row.decode tok).slotStream.channel = row.slotStream.channel := by
  rw [decode]
  split
  · rfl
  · split
    · rfl
    · split <;> exact channel_newText tok row _

@[simp] theorem slotStream_updateThinkingDone (guided : Bool) (row : ExecutionRow) :
    (row.updateThinkingDone cfg guided).slotStream = row.slotStream := by
  obtain ⟨done, ended, hdone⟩ := updateThinkingDone_eq cfg guided row
  rw [hdone]

@[simp] theorem channel_updateFinishStates (row : ExecutionRow) :
    (row.updateFinishStates cfg).slotStream.channel = row.slotStream.channel := by
  have hfirst : (row.updateFinishState cfg).slotStream.channel = row.slotStream.channel := by
    rcases updateFinishState_cases cfg row with hsame | hfinish
    · rw [hsame]
    · obtain ⟨reason, -, -, heq⟩ := hfinish
      rw [heq]
      rfl
  rw [updateFinishStates, applyStopMatch]
  split
  · exact hfirst
  · exact hfirst

@[simp] theorem channel_decodeAndFinish (guided : Bool) (row : ExecutionRow) :
    (row.decodeAndFinish cfg guided).slotStream.channel = row.slotStream.channel := by
  rw [decodeAndFinish, channel_updateFinishStates, slotStream_updateThinkingDone, channel_decode]

@[simp] theorem channel_finishLookahead (row : ExecutionRow) (token : Token) :
    (GenerationSession.finishLookahead cfg row token).slotStream.channel =
      row.slotStream.channel := by
  have hthink := slotStream_updateThinkingDoneForToken cfg row token
  rw [GenerationSession.finishLookahead]
  split
  · rw [hthink]
  · split
    · rw [channel_finishWith, hthink]
    · split
      · rw [channel_finishWith, hthink]
      · rw [hthink]

theorem slotStream_appended (row : ExecutionRow) (token : Option Token) :
    ((token.map row.appendSampled).getD row).slotStream = row.slotStream := by
  cases token with
  | none => rfl
  | some token => exact slotStream_appendSampled row token

@[simp] theorem channel_seatedRow (outcome : PrefillOutcome) (finalize : FinalizeOutcome)
    (row : ExecutionRow) :
    (GenerationSession.seatedRow cfg outcome finalize row).slotStream.channel =
      row.slotStream.channel := by
  cases outcome with
  | threw token =>
    show ((token.map row.appendSampled).getD row).slotStream.channel = row.slotStream.channel
    rw [slotStream_appended]
  | failed token =>
    show (((token.map row.appendSampled).getD row).finishWith .kError).slotStream.channel =
      row.slotStream.channel
    rw [channel_finishWith, slotStream_appended]
  | prefilled token =>
    simp only [GenerationSession.seatedRow]
    split
    · cases finalize with
      | threw => rw [slotStream_appendSampled]
      | failed => rw [channel_finishWith, slotStream_appendSampled]
      | finalized => rw [channel_finishLookahead, slotStream_appendSampled]
    · rw [channel_finishLookahead, slotStream_appendSampled]

/-! ## What the rows promise -/

/-- The channel of the row is open. -/
def Streaming (row : ExecutionRow) : Prop :=
  ∀ channel, row.slotStream.channel = some channel → channel.Open

/-- The channel of the row is open or closed as the row is live or finished. -/
def Emitted (row : ExecutionRow) : Prop :=
  ∀ channel, row.slotStream.channel = some channel →
    if row.finished then channel.Closed else channel.Open

/-- The channel of the row is open or closed. -/
def Settled (row : ExecutionRow) : Prop :=
  ∀ channel, row.slotStream.channel = some channel → channel.Open ∨ channel.Closed

theorem Streaming.of_channel {row row' : ExecutionRow} (h : row.Streaming)
    (hchannel : row'.slotStream.channel = row.slotStream.channel) : row'.Streaming := by
  intro channel hsome
  rw [hchannel] at hsome
  exact h channel hsome

theorem Streaming.settled {row : ExecutionRow} (h : row.Streaming) : row.Settled :=
  fun channel hsome => Or.inl (h channel hsome)

theorem Emitted.settled {row : ExecutionRow} (h : row.Emitted) : row.Settled := by
  intro channel hsome
  have hemitted := h channel hsome
  split at hemitted
  · exact Or.inr hemitted
  · exact Or.inl hemitted

theorem Emitted.streaming {row : ExecutionRow} (h : row.Emitted)
    (hquiet : row.finished = true → row.slotStream.channel = none) : row.Streaming := by
  intro channel hsome
  have hemitted := h channel hsome
  split at hemitted
  · rename_i hfinished
    rw [hquiet hfinished] at hsome
    cases hsome
  · exact hemitted

@[simp] theorem finished_emit (row : ExecutionRow) : row.emit.finished = row.finished := by
  rw [emit]
  split
  · rfl
  · dsimp only
    split <;> rfl

@[simp] theorem isSome_channel_emit (row : ExecutionRow) :
    row.emit.slotStream.channel.isSome = row.slotStream.channel.isSome := by
  rw [emit]
  cases hchannel : row.slotStream.channel with
  | none =>
    show row.slotStream.channel.isSome = _
    rw [hchannel]
  | some channel =>
    dsimp only
    split
    · rw [releaseHeld]
      dsimp only
      split <;> rw [hchannel]
    · rfl

/-- `emitChunks` closes the channel of a finished slot and of no other. -/
theorem Streaming.emit {row : ExecutionRow} (h : row.Streaming) : row.emit.Emitted := by
  intro channel' hsome
  rw [finished_emit]
  rw [ExecutionRow.emit] at hsome
  cases hchannel : row.slotStream.channel with
  | none =>
    rw [hchannel] at hsome
    rw [show row.slotStream.channel = none from hchannel] at hsome
    cases hsome
  | some channel =>
    have hopen := h channel hchannel
    rw [hchannel] at hsome
    dsimp only at hsome
    cases hfinished : row.finished with
    | true =>
      rw [hfinished] at hsome
      simp only [Bool.not_true, Bool.and_false, Bool.false_eq_true, if_false, if_true,
        Option.some.injEq] at hsome
      rw [if_pos rfl, ← hsome]
      exact hopen.close hfinished _
    | false =>
      rw [if_neg (by simp)]
      rw [hfinished] at hsome
      simp only [Bool.not_false, Bool.and_true, Bool.false_eq_true, if_false] at hsome
      split at hsome
      · have hsame : row.releaseHeld.channel = row.slotStream.channel := by
          rw [releaseHeld]
          split <;> rfl
        rw [hsame, hchannel, Option.some.injEq] at hsome
        rw [← hsome]
        exact hopen
      · rw [Option.some.injEq] at hsome
        rw [← hsome]
        exact hopen.push hfinished

theorem Settled.finalize {row : ExecutionRow} (h : row.Settled) :
    ∀ channel, (row.finalize tok).slotStream.channel = some channel → channel.Closed := by
  intro channel' hsome
  rw [ExecutionRow.finalize] at hsome
  cases hchannel : row.slotStream.channel with
  | none =>
    rw [hchannel] at hsome
    rw [show row.slotStream.channel = none from hchannel] at hsome
    cases hsome
  | some channel =>
    rw [hchannel] at hsome
    dsimp only at hsome
    rcases h channel hchannel with hopen | hclosed
    · rw [if_neg (by simp [hopen.notFinished]), Option.some.injEq] at hsome
      rw [← hsome]
      exact hopen.close rfl _
    · rw [if_pos hclosed.1, hchannel, Option.some.injEq] at hsome
      rw [← hsome]
      exact hclosed

@[simp] theorem isSome_channel_finalize (row : ExecutionRow) (tok : Tokenizer) :
    (row.finalize tok).slotStream.channel.isSome = row.slotStream.channel.isSome := by
  rw [ExecutionRow.finalize]
  cases hchannel : row.slotStream.channel with
  | none =>
    show row.slotStream.channel.isSome = _
    rw [hchannel]
  | some channel =>
    dsimp only
    split
    · rw [hchannel]
    · rfl

/-- The slot has a channel. -/
def hasChannel (row : ExecutionRow) : Bool := row.slotStream.channel.isSome

end ExecutionRow

theorem SlotSeed.open_attachedChannel (seed : SlotSeed) :
    ∀ channel, seed.attachedChannel = some channel → channel.Open := by
  intro channel hsome
  obtain ⟨settings, -, rfl⟩ := Option.map_eq_some_iff.1 hsome
  refine ⟨settings.mFinished_channel, ?_⟩
  intro chunk hmem
  rw [show (settings.channel.attach seed.originalIndex).pushed = [] from
    settings.pushed_channel] at hmem
  cases hmem

theorem SlotSeed.streaming_joinerRow (seed : SlotSeed) (skipSpecialTokens : Bool) :
    (seed.joinerRow skipSpecialTokens).Streaming := seed.open_attachedChannel

variable (founder : GenerationSession.Founder) (skipSpecialTokens : Bool)

theorem GenerationSession.Founder.channel_row :
    (founder.row skipSpecialTokens).slotStream.channel = founder.seed.attachedChannel := by
  rw [GenerationSession.Founder.row, ExecutionRow.slotStream_appended]
  split <;> rfl

theorem GenerationSession.Founder.streaming_row : (founder.row skipSpecialTokens).Streaming := by
  intro channel hsome
  rw [GenerationSession.Founder.channel_row] at hsome
  exact founder.seed.open_attachedChannel channel hsome

theorem GenerationSession.Founder.hasChannel_row :
    (founder.row skipSpecialTokens).hasChannel = founder.seed.channel.isSome := by
  rw [ExecutionRow.hasChannel, GenerationSession.Founder.channel_row]
  exact Option.isSome_map

namespace GenerationSession

open ExecutionRow

/-! ## The invariant -/

/-- Every row keeps its promise, released channels are closed, and every
attached channel is in a row or released. -/
structure Streams (good : ExecutionRow → Prop) (s : GenerationSession) : Prop where
  live : ∀ row ∈ s.rows, good row
  gone : ∀ channel ∈ s.released, channel.Closed
  count : s.released.length + s.rows.countP hasChannel = s.attached

namespace Streams

variable {good good' : ExecutionRow → Prop} {s : GenerationSession}

theorem mono (h : Streams good s) (hgood : ∀ row ∈ s.rows, good row → good' row) :
    Streams good' s :=
  ⟨fun row hmem => hgood row hmem (h.live row hmem), h.gone, h.count⟩

private theorem countP_congr {rows rows' : List ExecutionRow}
    (h : rows'.map hasChannel = rows.map hasChannel) :
    rows'.countP hasChannel = rows.countP hasChannel := by
  have hcount := congrArg (List.countP id) h
  rwa [List.countP_map, List.countP_map] at hcount

/-- A pass that gives every slot's promise a new form. -/
theorem mapIdx (h : Streams good s) (f : Nat → ExecutionRow → ExecutionRow)
    (hsome : ∀ i row, (f i row).hasChannel = row.hasChannel)
    (hgood : ∀ i row, good row → good' (f i row)) :
    Streams good' { s with rows := s.rows.mapIdx f } where
  live := by
    intro row' hmem
    obtain ⟨i, hi, rfl⟩ := List.mem_mapIdx.1 hmem
    exact hgood i _ (h.live _ (List.getElem_mem hi))
  gone := h.gone
  count := by
    have hsame : (s.rows.mapIdx f).map hasChannel = s.rows.map hasChannel := by
      apply List.ext_getElem
      · simp
      · intro i hi hi'
        simp [hsome]
    show s.released.length + (s.rows.mapIdx f).countP hasChannel = s.attached
    rw [countP_congr hsame]
    exact h.count

theorem map (h : Streams good s) (f : ExecutionRow → ExecutionRow)
    (hsome : ∀ row, (f row).hasChannel = row.hasChannel) (hgood : ∀ row, good row → good' (f row)) :
    Streams good' { s with rows := s.rows.map f } := by
  have hall := h.mapIdx (fun _ => f) (fun _ => hsome) (fun _ => hgood)
  have hmap : s.rows.mapIdx (fun _ => f) = s.rows.map f := by
    apply List.ext_getElem
    · simp
    · intro i hi hi'
      simp
  rwa [hmap] at hall

theorem modify (h : Streams good s) (slot : Nat) (f : ExecutionRow → ExecutionRow)
    (hsome : ∀ row, (f row).hasChannel = row.hasChannel) (hgood : ∀ row, good row → good (f row)) :
    Streams good { s with rows := s.rows.modify slot f } := by
  have hall : Streams good
      { s with rows := s.rows.mapIdx fun i row => if slot = i then f row else row } := by
    apply h.mapIdx
    · intro i row
      split
      · exact hsome row
      · rfl
    · intro i row hrow
      split
      · exact hgood row hrow
      · exact hrow
  have hmodify : (s.rows.mapIdx fun i row => if slot = i then f row else row) =
      s.rows.modify slot f := by
    apply List.ext_getElem
    · simp
    · intro i hi hi'
      simp [List.getElem_modify]
  rwa [hmodify] at hall

theorem append (h : Streams good s) (row : ExecutionRow) (hgood : good row) :
    Streams good { s with
      rows := s.rows ++ [row]
      attached := s.attached + (if row.hasChannel then 1 else 0) } where
  live := by
    intro row' hmem
    rw [List.mem_append, List.mem_singleton] at hmem
    rcases hmem with hold | heq
    · exact h.live row' hold
    · rw [heq]; exact hgood
  gone := h.gone
  count := by
    show s.released.length + (s.rows ++ [row]).countP hasChannel =
      s.attached + (if row.hasChannel then 1 else 0)
    rw [List.countP_append, List.countP_singleton, ← h.count]
    omega

theorem of_eq (h : Streams good s) {s' : GenerationSession} (hrows : s'.rows = s.rows)
    (hreleased : s'.released = s.released) (hattached : s'.attached = s.attached) :
    Streams good s' := by
  refine ⟨?_, ?_, ?_⟩
  · rw [hrows]
    exact h.live
  · rw [hreleased]
    exact h.gone
  · rw [hrows, hreleased, hattached]
    exact h.count

theorem length_filterMap_channel (rows : List ExecutionRow) :
    (rows.filterMap fun row => row.slotStream.channel).length = rows.countP hasChannel := by
  rw [List.length_filterMap_eq_countP]
  rfl

/-- Eviction releases closed channels only, once the finished slots were
emitted. -/
theorem compact (h : Streams good s) (hfinished : ∀ row ∈ s.rows, good row → row.finished = true →
      ∀ channel, row.slotStream.channel = some channel → channel.Closed)
    (hlive : ∀ row ∈ s.rows, good row → row.finished = false → good' row) :
    Streams good' s.compact where
  live := by
    intro row hmem
    have hkept := List.mem_filter.1 hmem
    exact hlive row hkept.1 (h.live row hkept.1) (by simpa using hkept.2)
  gone := by
    intro channel hmem
    rcases List.mem_append.1 hmem with hold | hnew
    · exact h.gone channel hold
    · obtain ⟨row, hrow, hchannel⟩ := List.mem_filterMap.1 hnew
      have hgone := List.mem_filter.1 hrow
      exact hfinished row hgone.1 (h.live row hgone.1) hgone.2 channel hchannel
  count := by
    show (s.released ++ _).length + (s.rows.filter fun row => !row.finished).countP hasChannel =
      s.attached
    rw [List.length_append, length_filterMap_channel, ← h.count,
      List.countP_eq_countP_filter_add s.rows hasChannel ExecutionRow.finished]
    omega

end Streams

/-! ## Steps -/

section Steps

variable {cfg : SessionConfig} {s : GenerationSession}

theorem channel_upTo (step : SlotStep) (row : ExecutionRow) {stage : Stage}
    (hstage : stage ≠ .emitted) :
    (step.upTo cfg row stage).slotStream.channel = row.slotStream.channel := by
  have hobserved := channel_observe row step.rootCancelled
  have happended : (step.tokens.append cfg (row.observe step.rootCancelled)).slotStream.channel =
      row.slotStream.channel := by
    rw [slotStream_tokens, hobserved]
  cases stage with
  | observed => exact hobserved
  | appended => exact happended
  | decoded =>
    show (ExecutionRow.decodeAndFinish cfg step.guided _).slotStream.channel = _
    rw [channel_decodeAndFinish, happended]
  | emitted => exact absurd rfl hstage

/-- Before the emission every channel is as it was. -/
theorem Streams.stage (h : Streams Streaming s) (states : Nat → Bool) (tokens : StepTokens)
    {stage : Stage} (hstage : stage ≠ .emitted) :
    Streams Streaming (stageOf cfg s states tokens stage) := by
  apply h.mapIdx
  · exact fun i row => congrArg Option.isSome (channel_upTo _ row hstage)
  · exact fun i row hrow => hrow.of_channel (channel_upTo _ row hstage)

/-- The emission closes the channels of finished slots. -/
theorem Streams.emitted (h : Streams Streaming s) (states : Nat → Bool) (tokens : StepTokens) :
    Streams Emitted (stageOf cfg s states tokens .emitted) := by
  have hdecoded : (Stage.decoded : Stage) ≠ .emitted := (fun heq => by cases heq)
  apply h.mapIdx
  · intro i row
    exact (isSome_channel_emit _).trans (congrArg Option.isSome (channel_upTo _ row hdecoded))
  · intro i row hrow
    exact (hrow.of_channel (channel_upTo _ row hdecoded)).emit

theorem Streams.settled_stage (h : Streams Streaming s) (states : Nat → Bool) (tokens : StepTokens)
    (stage : Stage) : Streams Settled (stageOf cfg s states tokens stage) := by
  by_cases hstage : stage = .emitted
  · rw [hstage]
    exact (h.emitted states tokens).mono fun row _ hrow => hrow.settled
  · exact (h.stage states tokens hstage).mono fun row _ hrow => hrow.settled

/-- After an emission eviction drops closed channels only. -/
theorem Streams.evict (h : Streams Emitted s) : Streams Streaming s.evict := by
  rw [GenerationSession.evict]
  split
  · apply h.compact
    · intro row _ hrow hfinished channel hchannel
      have hclosed := hrow channel hchannel
      rwa [if_pos hfinished] at hclosed
    · intro row _ hrow hlive
      apply hrow.streaming
      intro hfinished
      rw [hlive] at hfinished
      cases hfinished
  · rename_i hnone
    apply h.mono
    intro row hmem hrow
    apply hrow.streaming
    intro hfinished
    exact absurd (List.any_eq_true.2 ⟨row, hmem, hfinished⟩) hnone

/-- `advance` closes the channels of the slots it finishes and evicts. -/
theorem ensures_advance (h : Streams Streaming s) (input : AdvanceInput) :
    Ensures (advance cfg input) (fun _ s' => Streams Streaming s')
      (fun _ s' => Streams Settled s') s := by
  apply (advance_spec input).mono
  · intro _ s' hstep
    obtain ⟨states, -, rfl⟩ := hstep
    apply Streams.evict
    exact (h.emitted states input.tokens).of_eq rfl rfl rfl
  · intro _ s' htorn
    obtain ⟨states, stage, generationRound, rfl⟩ := htorn
    exact (h.settled_stage states input.tokens stage).of_eq rfl rfl rfl

/-- The condition on `primeFromPrefill`: the batch is evicted right after the
prefill, or no slot with a channel is finished by it. -/
def PrimeMeets (cfg : SessionConfig) (input : PrimeInput) (s : GenerationSession) : Prop :=
  cfg.isDiffusionBackbone = true ∨ supportsPartialPrefillEviction cfg = true ∨
    ∀ states, input.rootCancelled = some states →
      (∀ row ∈ stageRows cfg s states .none .decoded, row.finished = true) ∨
        ∀ row ∈ stageRows cfg s states .none .decoded,
          row.finished = true → row.slotStream.channel = none

theorem stageRows_emitted (cfg : SessionConfig) (s : GenerationSession) (states : Nat → Bool)
    (tokens : StepTokens) : stageRows cfg s states tokens .emitted =
      (stageRows cfg s states tokens .decoded).map ExecutionRow.emit := by
  rw [stageRows, stageRows, map_mapIdx]
  rfl

/-- Where `primeFromPrefill` keeps a batch, it keeps no slot whose channel it has
closed. -/
theorem PrimeMeets.quiet {input : PrimeInput} (hmeets : PrimeMeets cfg input s)
    (hdiffusion : cfg.isDiffusionBackbone = false) {states : Nat → Bool}
    (hstates : input.rootCancelled = some states)
    (hkept : ¬ primeEvicts cfg (stageOf cfg s states .none .emitted) = true) :
    ∀ row ∈ stageRows cfg s states .none .emitted,
      row.finished = true → row.slotStream.channel = none := by
  intro row hmem hfinished
  have hne : stageRows cfg s states .none .emitted ≠ [] := List.ne_nil_of_mem hmem
  have hlastPage : ¬ supportsPartialPrefillEviction cfg = true := by
    intro hevict
    apply hkept
    rw [primeEvicts, hevict, Bool.true_or, Bool.and_true]
    exact decide_eq_true hne
  have hsome : ¬ ∀ row ∈ stageRows cfg s states .none .decoded, row.finished = true := by
    intro hall
    have hdone : (stageOf cfg s states .none .emitted).finished = true := by
      show (stageRows cfg s states .none .emitted).all ExecutionRow.finished = true
      rw [stageRows_emitted, List.all_map, List.all_eq_true]
      exact fun row hrow => (finished_emit row).trans (hall row hrow)
    apply hkept
    rw [primeEvicts, hdone, Bool.or_true, Bool.and_true]
    exact decide_eq_true hne
  rw [stageRows_emitted] at hmem
  obtain ⟨decoded, hdecoded, rfl⟩ := List.mem_map.1 hmem
  rw [finished_emit] at hfinished
  have hquiet : decoded.slotStream.channel = none := by
    rcases hmeets with hdiff | hmeets
    · rw [hdiffusion] at hdiff
      cases hdiff
    · cases hmeets with
      | inl hevict => exact absurd hevict hlastPage
      | inr hmeets =>
        rcases hmeets states hstates with hall | hquiet
        · exact absurd hall hsome
        · exact hquiet decoded hdecoded hfinished
  have hnone := isSome_channel_emit decoded
  rw [hquiet] at hnone
  exact Option.isNone_iff_eq_none.1 (Option.isSome_eq_false_iff.1 hnone)

theorem ensures_prime (h : Streams Streaming s) {input : PrimeInput}
    (hmeets : PrimeMeets cfg input s) :
    Ensures (primeFromPrefill cfg input) (fun _ s' => Streams Streaming s')
      (fun _ s' => Streams Settled s') s := by
  cases hdiffusion : cfg.isDiffusionBackbone with
  | true =>
    rw [primeFromPrefill, if_pos hdiffusion]
    exact h
  | false =>
    apply (primeFromPrefill_spec hdiffusion input).mono
    · intro _ s' hstep
      obtain ⟨states, hstates, rfl⟩ := hstep
      have hemitted : Streams Emitted (stageOf cfg s states .none .emitted) :=
        h.emitted states .none
      split
      · exact hemitted.evict
      · rename_i hkept
        apply hemitted.mono
        intro row hmem hrow
        exact hrow.streaming (hmeets.quiet hdiffusion hstates hkept row hmem)
    · intro _ s' htorn
      obtain ⟨states, stage, rfl⟩ := htorn
      exact h.settled_stage states .none stage

/-- A seated prefill leaves every channel as it is. -/
theorem Streams.seated (h : Streams Streaming s) (slot : Nat) (outcome : PrefillOutcome)
    (finalize : FinalizeOutcome) : Streams Streaming (s.seated cfg slot outcome finalize) := by
  apply h.modify
  · exact fun row => congrArg Option.isSome (channel_seatedRow cfg outcome finalize row)
  · exact fun row hrow => hrow.of_channel (channel_seatedRow cfg outcome finalize row)

theorem Streams.joined (h : Streams Streaming s) (seed : SlotSeed) (skipSpecialTokens : Bool) :
    Streams Streaming (s.joined seed skipSpecialTokens) := by
  have hnew := h.append (seed.joinerRow skipSpecialTokens) (seed.streaming_joinerRow _)
  have hsame : (seed.joinerRow skipSpecialTokens).hasChannel = seed.channel.isSome :=
    Option.isSome_map
  rwa [hsame] at hnew

theorem ensures_seatSlot (h : Streams Streaming s) (seed : SlotSeed) (skipSpecialTokens : Bool) :
    Ensures (seatSlot seed skipSpecialTokens) (fun _ s' => Streams Streaming s')
      (fun _ s' => Streams Streaming s') s := by
  apply (seatSlot_spec seed skipSpecialTokens).mono
  · rintro _ s' ⟨-, -, rfl⟩
    exact h.joined seed skipSpecialTokens
  · rintro _ s' rfl
    exact h

theorem ensures_prefillSeated (h : Streams Streaming s) (slot : Nat) (outcome : PrefillOutcome)
    (finalize : FinalizeOutcome) : Ensures (prefillSeated cfg slot outcome finalize)
      (fun _ s' => s' = s.seated cfg slot outcome finalize ∧ Streams Streaming s')
      (fun _ s' => Streams Streaming s') s := by
  have hseated : Streams Streaming (s.seated cfg slot outcome finalize) :=
    h.seated slot outcome finalize
  apply (prefillSeated_spec slot outcome finalize).mono
  · rintro _ s' ⟨-, rfl⟩
    exact ⟨rfl, hseated⟩
  · intro _ s' hfail
    rcases hfail with hdead | hthrew
    · rw [hdead.2]; exact h
    · rw [hthrew.2]; exact hseated

/-- The condition on the prefill of a joiner: when it leaves the joiner terminal,
no finished slot has a channel. -/
def SeatMeets (cfg : SessionConfig) (s : GenerationSession) (slot : Nat) (outcome : PrefillOutcome)
    (finalize : FinalizeOutcome) : Prop :=
  ((s.rows.modify slot (seatedRow cfg outcome finalize)).map ExecutionRow.finished).getD slot
      false = true →
    ∀ row ∈ s.rows.modify slot (seatedRow cfg outcome finalize),
      row.finished = true → row.slotStream.channel = none

/-- Eviction without an emission, of slots without a channel. -/
theorem Streams.evictQuiet (h : Streams Streaming s)
    (hquiet : ∀ row ∈ s.rows, row.finished = true → row.slotStream.channel = none) :
    Streams Streaming s.evict := by
  rw [GenerationSession.evict]
  split
  · apply h.compact
    · intro row hmem _ hfinished channel hchannel
      rw [hquiet row hmem hfinished] at hchannel
      cases hchannel
    · exact fun row _ hrow _ => hrow
  · exact h

end Steps

/-! ## Runs -/

/-- The condition on one operation. -/
def Op.Meets (cfg : SessionConfig) (s : GenerationSession) : Op → Prop
  | .stepperPrefill outcome finalize input =>
    match s.mPending with
    | none => PrimeMeets cfg input s
    | some slot => SeatMeets cfg s slot outcome finalize
  | _ => True

/-- Every operation up to the end of the session meets its condition. -/
def StepsMeet (cfg : SessionConfig) : List Op → GenerationSession → Prop
  | [], _ => True
  | op :: rest, s =>
    op.Meets cfg s ∧
      match call cfg op s with
      | (.ok _, s') => StepsMeet cfg rest s'
      | (.error _, s') => op.fatal = false → StepsMeet cfg rest s'

/-- Every step of a run meets its condition. -/
def RunMeets (cfg : SessionConfig) (founders : List Founder) (skipSpecialTokens : Bool) :
    Option (PrimeInput × List Op) → Prop
  | none => True
  | some (input, ops) =>
    PrimeMeets cfg input (found founders skipSpecialTokens) ∧
      match primeFromPrefill cfg input (found founders skipSpecialTokens) with
      | (.ok _, s) => StepsMeet cfg ops s
      | (.error _, _) => True

section Runs

variable {cfg : SessionConfig} {s : GenerationSession}

theorem ensures_stepperPrefill (h : Streams Streaming s) {outcome : PrefillOutcome}
    {finalize : FinalizeOutcome} {input : PrimeInput}
    (hmeets : (Op.stepperPrefill outcome finalize input).Meets cfg s) :
    Ensures (stepperPrefill cfg outcome finalize input)
      (fun _ s' => Streams Streaming s') (fun _ s' => Streams Settled s') s := by
  have hweak : ∀ {s' : GenerationSession}, Streams Streaming s' → Streams Settled s' :=
    fun hs => hs.mono fun row _ hrow => hrow.settled
  rw [stepperPrefill, ensures_bind, ensures_read]
  cases hpending : s.mPending with
  | none =>
    simp only [Op.Meets, hpending] at hmeets
    simp only [id, hpending]
    exact ensures_prime h hmeets
  | some slot =>
    simp only [Op.Meets, hpending] at hmeets
    simp only [id, hpending]
    rw [ensures_bind, ensures_modify, ensures_bind]
    have htaken : Streams Streaming { s with mPending := none } := h.of_eq rfl rfl rfl
    apply (ensures_prefillSeated htaken slot outcome finalize).mono
    · intro decision s₁ hseated
      rw [ensures_bind, ensures_read, ensures_ite]
      constructor
      · intro hterminal
        rw [hseated.1] at hterminal ⊢
        have hstreams := hseated.2
        rw [hseated.1] at hstreams
        apply (ensures_performBatchEvict input.evicted).mono
        · intro _ s' hevict
          rw [hevict]
          exact hstreams.evictQuiet (hmeets hterminal)
        · intro _ s' hfail
          rw [hfail]
          exact hweak hstreams
      · exact fun _ => hseated.2
    · exact fun _ _ hs => hweak hs

/-- One operation; a session that is given up still has no channel that ended
wrongly. -/
theorem ensures_call (h : Streams Streaming s) {op : Op} (hmeets : op.Meets cfg s) :
    Ensures (call cfg op) (fun _ s' => Streams Streaming s')
      (fun _ s' => Streams Settled s' ∧ (op.fatal = false → Streams Streaming s')) s := by
  have hboth : ∀ {s' : GenerationSession} {p : Prop}, Streams Streaming s' →
      Streams Settled s' ∧ (p → Streams Streaming s') :=
    fun hs => ⟨hs.mono fun row _ hrow => hrow.settled, fun _ => hs⟩
  have hfatal : ∀ {s' : GenerationSession} {p : Prop}, Streams Settled s' →
      Streams Settled s' ∧ (true = false → p) :=
    fun hs => ⟨hs, fun hfalse => by cases hfalse⟩
  cases op with
  | advance input =>
    rw [call, ensures_bind, ensures_read, ensures_bind, ensures_check]
    constructor
    · intro _
      exact (ensures_advance h input).mono (fun _ _ hs => hs) fun _ _ hs => hfatal hs
    · exact fun _ => hboth h
  | seatAdmission seed skip outcome finalize =>
    rw [call, ensures_bind, seatAdmission, ensures_bind]
    apply (ensures_seatSlot h seed skip).mono
    · intro slot s₁ hseated
      apply (ensures_prefillSeated hseated slot outcome finalize).mono
      · exact fun _ _ hs => hs.2
      · exact fun _ _ hs => hboth hs
    · exact fun _ _ hs => hboth hs
  | stepperAdmit seed skip =>
    rw [call, stepperAdmit, ensures_bind, ensures_read, ensures_bind, ensures_check]
    constructor
    · intro _
      rw [ensures_bind]
      apply (ensures_seatSlot h seed skip).mono
      · exact fun slot s₁ hseated => hseated.of_eq rfl rfl rfl
      · exact fun _ _ hs => hboth hs
    · exact fun _ => hboth h
  | stepperPrefill outcome finalize input =>
    exact (ensures_stepperPrefill h hmeets).mono (fun _ _ hs => hs) fun _ _ hs => hfatal hs
  | cancel i =>
    rw [call, onRow, ensures_modify]
    apply h.modify
    · intro row
      exact Option.isSome_map
    · intro row hrow channel hchannel
      obtain ⟨before, hbefore, rfl⟩ := Option.map_eq_some_iff.1 hchannel
      exact ⟨(hrow before hbefore).notFinished, (hrow before hbefore).chunks⟩
  | takeCompleted firstIndex =>
    rw [call, ensures_modify]
    exact h.of_eq rfl rfl rfl

theorem steps_settled (ops : List Op) :
    ∀ s : GenerationSession, Streams Streaming s → StepsMeet cfg ops s →
      Streams Settled (steps cfg ops s) := by
  induction ops with
  | nil => exact fun s h _ => h.mono fun row _ hrow => hrow.settled
  | cons op rest ih =>
    intro s h hmeets
    have hcall := ensures_call h hmeets.1
    have hrest := hmeets.2
    rw [steps]
    rw [Ensures] at hcall
    rcases hresult : call cfg op s with ⟨_ | _, s'⟩
    · rw [hresult] at hcall hrest
      dsimp only at hcall hrest ⊢
      split
      · exact hcall.1
      · rename_i hfatal
        have hopen : op.fatal = false := by simpa using hfatal
        exact ih s' (hcall.2 hopen) (hrest hopen)
    · rw [hresult] at hcall hrest
      exact ih s' hcall hrest

theorem found_streaming (founders : List Founder) (skipSpecialTokens : Bool) :
    Streams Streaming (found founders skipSpecialTokens) where
  live := by
    intro row hmem
    obtain ⟨founder, -, rfl⟩ := List.mem_map.1 hmem
    exact founder.streaming_row skipSpecialTokens
  gone := by
    intro channel hmem
    cases hmem
  count := by
    show 0 + (founders.map _).countP hasChannel = _
    rw [Nat.zero_add, List.countP_map, List.countP_eq_length_filter]
    congr 2
    funext founder
    exact founder.hasChannel_row skipSpecialTokens

theorem run_settled {founders : List Founder} {skipSpecialTokens : Bool}
    {plan : Option (PrimeInput × List Op)} (hmeets : RunMeets cfg founders skipSpecialTokens plan) :
    Streams Settled (run cfg founders skipSpecialTokens plan) := by
  have hfound := found_streaming founders skipSpecialTokens
  cases plan with
  | none => exact hfound.mono fun row _ hrow => hrow.settled
  | some plan =>
    have hprime := ensures_prime hfound hmeets.1
    have hrest := hmeets.2
    rw [Ensures] at hprime
    rw [run]
    rcases hresult : primeFromPrefill cfg plan.1 (found founders skipSpecialTokens) with
      ⟨_ | _, s⟩
    · rw [hresult] at hprime
      exact hprime
    · rw [hresult] at hprime hrest
      exact steps_settled plan.2 s hprime hrest

/-- The finalizer closes every channel that a live slot still has. -/
theorem Streams.finalize (h : Streams Settled s) (cfg : SessionConfig) :
    (∀ channel ∈ (s.finalize cfg).channels, channel.Closed) ∧
      (s.finalize cfg).channels.length = s.attached := by
  constructor
  · intro channel hmem
    rcases List.mem_append.1 hmem with hgone | hlive
    · exact h.gone channel hgone
    · obtain ⟨row', hrow', hchannel⟩ := List.mem_filterMap.1 hlive
      obtain ⟨row, hrow, rfl⟩ := List.mem_map.1 hrow'
      exact (h.live row hrow).finalize cfg.tokenizer channel hchannel
  · have hfinal : Streams (fun _ => True) (s.finalize cfg) :=
      h.map (ExecutionRow.finalize cfg.tokenizer)
        (fun row => isSome_channel_finalize row cfg.tokenizer) fun _ _ => trivial
    have hcount := hfinal.count
    rw [channels, List.length_append, Streams.length_filterMap_channel]
    exact hcount

/-- A session of short answers. -/
def shortSession (managed : Bool) : SessionConfig where
  tokenizer := Tokenizer.ofBytes
  maxGenerateLength := 4
  managed := managed

/-- A streamed sequence with a prompt of one token. -/
def streamedSeed (originalIndex : Int) : SlotSeed where
  promptTokenIds := [65]
  channel := some {}
  originalIndex := originalIndex

/-- A founder and a joiner that both end after a few tokens. -/
def joinedRun : GenerationSession :=
  (run (shortSession true) [⟨streamedSeed 0, some 66, false⟩] true
    (some ({}, [.stepperAdmit (streamedSeed 1) true, .stepperPrefill (.prefilled 66) .finalized {},
      .advance { tokens := .sampled fun i => if i = 0 then 0 else 66 }]))).finalize
    (shortSession true)

end Runs

end GenerationSession

end EdgeLLM.Ports.Generation
