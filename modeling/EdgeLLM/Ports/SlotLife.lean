import EdgeLLM.Ports.GenerationSession

/-!
# The life of a slot

A slot is founded or seated and then goes through steps, each a sequence of
stages: cancellations are observed, tokens appended, the slot is decoded and
finished, and its chunks emitted.  The passes of `primeFromPrefill` and
`advance` take every slot through the same stages.
-/

namespace EdgeLLM.Ports.Generation

open Verified Checked

/-! ## Stages -/

/-- The tokens of a decode step for one slot. -/
inductive SlotTokens where
  | none
  | sampled (token : Token)
  | accepted (tokenIds : List Token)

/-- The tokens of a decode step, appended to a slot. -/
def SlotTokens.append (cfg : SessionConfig) (tokens : SlotTokens) (row : ExecutionRow) :
    ExecutionRow :=
  match tokens with
  | .none => row
  | .sampled token => row.appendSampled token
  | .accepted tokenIds => row.appendAccepted cfg tokenIds

/-- The part of slot `i` in the tokens of a step. -/
def StepTokens.slot (tokens : StepTokens) (i : Nat) : SlotTokens :=
  match tokens with
  | .none => .none
  | .sampled tokenIds => .sampled (tokenIds i)
  | .accepted tokenIds => .accepted (tokenIds i)

theorem StepTokens.append_eq (cfg : SessionConfig) (tokens : StepTokens) (i : Nat) :
    tokens.append cfg i = (tokens.slot i).append cfg := by
  funext row
  cases tokens <;> rfl

namespace ExecutionRow

/-- A cancellation by the slot's own consumer, then one by the root rank. -/
def observe (row : ExecutionRow) (rootCancelled : Bool) : ExecutionRow :=
  row.applyCancellation.synchronizeCancellation rootCancelled

@[simp] theorem synchronizeCancellation_false (row : ExecutionRow) :
    row.synchronizeCancellation false = row := rfl

/-- A cancellation finishes a live slot or changes nothing. -/
theorem observe_cases (row : ExecutionRow) (rootCancelled : Bool) :
    row.observe rootCancelled = row ∨
      row.finished = false ∧ row.observe rootCancelled = row.finishWith .kCancelled := by
  have hown : row.applyCancellation = row ∨
      row.finished = false ∧ row.applyCancellation = row.finishWith .kCancelled := by
    rw [applyCancellation]
    split
    · exact Or.inl rfl
    · split
      · exact Or.inl rfl
      · rename_i hlive
        split
        · exact Or.inr ⟨by simpa using hlive, rfl⟩
        · exact Or.inl rfl
  rw [observe]
  rcases hown with hsame | hcancelled
  · rw [hsame, synchronizeCancellation]
    split
    · rename_i hroot
      exact Or.inr ⟨by simpa using (Bool.and_eq_true_iff.1 hroot).2, rfl⟩
    · exact Or.inl rfl
  · rw [hcancelled.2]
    refine Or.inr ⟨hcancelled.1, ?_⟩
    rw [synchronizeCancellation, if_neg]
    simp [finishWith]

theorem acceptTokens_eq (cfg : SessionConfig) (accepted : List Token) :
    ∀ row : ExecutionRow, ∃ added done, acceptTokens cfg accepted row =
      { row with
        tokenIds := row.tokenIds ++ added
        currentGenerateLength := row.currentGenerateLength + added.length
        thinkingDone := done } := by
  induction accepted with
  | nil => exact fun row => ⟨[], row.thinkingDone, by simp [acceptTokens]⟩
  | cons token rest ih =>
    intro row
    obtain ⟨done, hdone⟩ := updateThinkingDoneForToken_eq cfg (row.appendToken token) token
    rw [acceptTokens]
    split
    · refine ⟨[token], done, ?_⟩
      rw [shouldStopAfterAcceptedToken, hdone]
      rfl
    · obtain ⟨added, done', hrest⟩ := ih
        ((row.appendToken token).shouldStopAfterAcceptedToken cfg token).2
      refine ⟨token :: added, done', ?_⟩
      rw [hrest, shouldStopAfterAcceptedToken, hdone]
      simp [appendToken, Nat.add_assoc, Nat.add_comm 1]

/-- Detokenization, thinking latch and finish states of one slot. -/
def decodeAndFinish (cfg : SessionConfig) (guided : Bool) (row : ExecutionRow) : ExecutionRow :=
  ((row.decode cfg.tokenizer).updateThinkingDone cfg guided).updateFinishStates cfg

/-- How the finish pass leaves a slot: as it was, ended by an end token or the limit,
or stopped by a stop match. -/
inductive Settles (row : ExecutionRow) : Bool → FinishReason → Prop where
  | kept (hunmatched : row.slotStream.stopMatchedThisIter = true →
      row.slotStream.terminalReason = .kCancelled ∨ row.slotStream.terminalReason = .kError) :
      Settles row row.finished row.slotStream.terminalReason
  | ended {reason : FinishReason} (hlive : row.finished = false)
      (hreason : reason = .kEndId ∨ reason = .kLength)
      (hunmatched : row.slotStream.stopMatchedThisIter = false) : Settles row true reason
  | stopped (hmatched : row.slotStream.stopMatchedThisIter = true)
      (hactive : row.finished = true →
        row.slotStream.terminalReason ≠ .kCancelled ∧ row.slotStream.terminalReason ≠ .kError) :
      Settles row true .kStopWords

theorem settles (cfg : SessionConfig) (guided : Bool) (row : ExecutionRow) :
    ∃ done ended finished reason, row.Settles finished reason ∧
      (row.updateThinkingDone cfg guided).updateFinishStates cfg =
        { row with
          thinkingDone := done
          guidedReasoningEnded := ended
          finished := finished
          slotStream := { row.slotStream with terminalReason := reason } } := by
  obtain ⟨done, ended, hthought⟩ := updateThinkingDone_eq cfg guided row
  rw [hthought, updateFinishStates]
  cases updateFinishState_cases cfg
      { row with thinkingDone := done, guidedReasoningEnded := ended } with
  | inl hsame =>
    rw [hsame, applyStopMatch]
    split
    · rename_i hstop
      exact ⟨done, ended, true, .kStopWords, .stopped hstop.1 fun _ => hstop.2, rfl⟩
    · rename_i hgoes
      refine ⟨done, ended, row.finished, row.slotStream.terminalReason, .kept ?_, rfl⟩
      intro hmatched
      by_contra hactive
      rw [not_or] at hactive
      exact hgoes ⟨hmatched, hactive⟩
  | inr hfinish =>
    obtain ⟨reason, hlive, hreason, heq⟩ := hfinish
    rw [heq, applyStopMatch]
    split
    · rename_i hstop
      refine ⟨done, ended, true, .kStopWords, .stopped hstop.1 ?_, rfl⟩
      intro hfinished
      rw [show row.finished = false from hlive] at hfinished
      cases hfinished
    · rename_i hgoes
      refine ⟨done, ended, true, reason, .ended hlive hreason ?_, rfl⟩
      by_contra hmatched
      apply hgoes
      refine ⟨Bool.of_not_eq_false hmatched, ?_⟩
      show reason ≠ .kCancelled ∧ reason ≠ .kError
      rcases hreason with hend | hlong
      · rw [hend]; decide
      · rw [hlong]; decide

/-- `emitChunks` pushes a chunk, or leaves a slot without a channel or without news
as it is. -/
theorem emit_cases (row : ExecutionRow) :
    row.emit = row ∧ (row.slotStream.channel = none ∨
        row.finished = false ∧ row.slotStream.pendingEmitText = []) ∨
      ∃ channel, row.slotStream.channel = some channel ∧
        row.emit = { row with slotStream := { row.releaseHeld with
          channel := some (if row.finished then
              (channel.push (row.chunkOf row.releaseHeld)).finish row.releaseHeld.terminalReason
            else channel.push (row.chunkOf row.releaseHeld))
          pendingEmitText := []
          lastEmittedTokenCount := row.releaseHeld.sentTokenCount } } := by
  rw [emit]
  cases hchannel : row.slotStream.channel with
  | none => exact Or.inl ⟨rfl, Or.inl rfl⟩
  | some channel =>
    dsimp only
    split
    · rename_i hquiet
      left
      obtain ⟨hnone, hlive⟩ := Bool.and_eq_true_iff.1 hquiet
      have hopen : row.finished = false := by simpa using hlive
      have hkept : row.releaseHeld = row.slotStream := by
        rw [releaseHeld, hopen]
        rfl
      rw [hkept] at hnone ⊢
      exact ⟨rfl, Or.inr ⟨hopen, List.isEmpty_iff.1 hnone⟩⟩
    · exact Or.inr ⟨channel, rfl, rfl⟩

/-- A live slot releases nothing that was held back. -/
theorem releaseHeld_live {row : ExecutionRow} (hlive : row.finished = false) :
    row.releaseHeld = row.slotStream := by
  rw [releaseHeld, hlive]
  rfl

/-- The consumer cancels. -/
def cancel (row : ExecutionRow) : ExecutionRow :=
  { row with slotStream := { row.slotStream with
      channel := row.slotStream.channel.map StreamChannel.cancel } }

end ExecutionRow

/-- A step appends tokens to a live slot and changes nothing else but its thinking
latch. -/
theorem SlotTokens.append_eq (cfg : SessionConfig) (tokens : SlotTokens) (row : ExecutionRow) :
    ∃ added done, (row.finished = true → added = []) ∧ tokens.append cfg row =
      { row with
        tokenIds := row.tokenIds ++ added
        currentGenerateLength := row.currentGenerateLength + added.length
        thinkingDone := done } := by
  by_cases hfinished : row.finished = true
  · refine ⟨[], row.thinkingDone, fun _ => rfl, ?_⟩
    have hsame : tokens.append cfg row = row := by
      cases tokens with
      | none => rfl
      | sampled token => rw [append, ExecutionRow.appendSampled, if_pos hfinished]
      | accepted tokenIds => rw [append, ExecutionRow.appendAccepted, if_pos hfinished]
    rw [hsame, List.append_nil]
    rfl
  · cases tokens with
    | none =>
      refine ⟨[], row.thinkingDone, fun _ => rfl, ?_⟩
      rw [List.append_nil]
      rfl
    | sampled token =>
      refine ⟨[token], row.thinkingDone, fun hdead => absurd hdead hfinished, ?_⟩
      rw [append, ExecutionRow.appendSampled, if_neg hfinished]
      rfl
    | accepted tokenIds =>
      obtain ⟨added, done, haccepted⟩ := ExecutionRow.acceptTokens_eq cfg tokenIds row
      refine ⟨added, done, fun hdead => absurd hdead hfinished, ?_⟩
      rw [append, ExecutionRow.appendAccepted, if_neg hfinished]
      exact haccepted

/-- What one slot sees of a step: whether the batch is guided, whether the root
rank reports the slot as cancelled, and its tokens. -/
structure SlotStep where
  guided : Bool := false
  rootCancelled : Bool := false
  tokens : SlotTokens := .none

/-- How far a step has come. -/
inductive Stage where
  | observed
  | appended
  | decoded
  | emitted
deriving DecidableEq

/-- A slot that has gone through a step up to a stage. -/
def SlotStep.upTo (cfg : SessionConfig) (step : SlotStep) (row : ExecutionRow) :
    Stage → ExecutionRow
  | .observed => row.observe step.rootCancelled
  | .appended => step.tokens.append cfg (row.observe step.rootCancelled)
  | .decoded =>
    (step.tokens.append cfg (row.observe step.rootCancelled)).decodeAndFinish cfg step.guided
  | .emitted =>
    ((step.tokens.append cfg (row.observe step.rootCancelled)).decodeAndFinish cfg
      step.guided).emit

namespace ExecutionRow

/-- `row'` is `row` with new tokens unless it was finished, and maybe finished: the
passes of a step other than decoding and emission. -/
structure Advances (row row' : ExecutionRow) (added : List Token) : Prop where
  tokenIds : row'.tokenIds = row.tokenIds ++ added
  count : row'.currentGenerateLength = row.currentGenerateLength + added.length
  stopStrings : row'.stopStrings = row.stopStrings
  slotStream : row'.slotStream =
    { row.slotStream with terminalReason := row'.slotStream.terminalReason }
  dead : row.finished = true → added = [] ∧ row'.finished = true
  live : row'.finished = false → row'.slotStream.terminalReason = row.slotStream.terminalReason
  cancelled : row.finished = true → row.slotStream.terminalReason = .kCancelled ∨
      row.slotStream.terminalReason = .kError →
    row'.slotStream.terminalReason = row.slotStream.terminalReason

theorem Advances.refl (row : ExecutionRow) : row.Advances row [] where
  tokenIds := (List.append_nil _).symm
  count := rfl
  stopStrings := rfl
  slotStream := rfl
  dead := fun hdead => ⟨rfl, hdead⟩
  live := fun _ => rfl
  cancelled := fun _ _ => rfl

theorem advances_finishWith {row : ExecutionRow} (hlive : row.finished = false)
    (reason : FinishReason) : row.Advances (row.finishWith reason) [] where
  tokenIds := (List.append_nil _).symm
  count := rfl
  stopStrings := rfl
  slotStream := rfl
  dead := fun _ => ⟨rfl, rfl⟩
  live := (fun hfalse => by cases hfalse)
  cancelled := by
    intro hdead
    rw [hlive] at hdead
    cases hdead

theorem advances_observe (row : ExecutionRow) (rootCancelled : Bool) :
    row.Advances (row.observe rootCancelled) [] := by
  rcases observe_cases row rootCancelled with hsame | hcancelled
  · rw [hsame]
    exact Advances.refl row
  · rw [hcancelled.2]
    exact advances_finishWith hcancelled.1 .kCancelled

theorem advances_tokens (cfg : SessionConfig) (tokens : SlotTokens) (row : ExecutionRow) :
    ∃ added, row.Advances (tokens.append cfg row) added ∧
      (tokens.append cfg row).finished = row.finished := by
  obtain ⟨added, done, hdead, happended⟩ := tokens.append_eq cfg row
  refine ⟨added, ?_, by rw [happended]⟩
  rw [happended]
  exact ⟨rfl, rfl, rfl, rfl, fun hfinished => ⟨hdead hfinished, hfinished⟩, fun _ => rfl,
    fun _ _ => rfl⟩

theorem advances_settles (cfg : SessionConfig) (guided : Bool) (row : ExecutionRow) :
    row.Advances ((row.updateThinkingDone cfg guided).updateFinishStates cfg) [] ∧
      row.Settles ((row.updateThinkingDone cfg guided).updateFinishStates cfg).finished
        ((row.updateThinkingDone cfg guided).updateFinishStates cfg).slotStream.terminalReason := by
  obtain ⟨done, ended, finished, reason, hsettles, heq⟩ := settles cfg guided row
  rw [heq]
  refine ⟨⟨(List.append_nil _).symm, rfl, rfl, rfl, ?_, ?_, ?_⟩, hsettles⟩
  · intro hfinished
    refine ⟨rfl, ?_⟩
    cases hsettles with
    | kept => exact hfinished
    | ended => rfl
    | stopped => rfl
  · intro hlive
    cases hsettles with
    | kept => rfl
    | ended => cases hlive
    | stopped => cases hlive
  · intro hfinished hreason
    cases hsettles with
    | kept => rfl
    | ended hlive =>
      rw [hlive] at hfinished
      cases hfinished
    | stopped hmatched hactive =>
      rcases hreason with heq | heq
      · exact absurd heq (hactive hfinished).1
      · exact absurd heq (hactive hfinished).2

end ExecutionRow

/-! ## Lives -/

/-- What happens to a slot between two steps or in one. -/
inductive SlotEvent where
  | step (slotStep : SlotStep)
  | cancel

/-- A slot after an event. -/
def SlotEvent.apply (cfg : SessionConfig) (row : ExecutionRow) : SlotEvent → ExecutionRow
  | .step slotStep => slotStep.upTo cfg row .emitted
  | .cancel => row.cancel

/-- How a slot comes to a session. -/
inductive SlotStart where
  | founded (founder : GenerationSession.Founder) (primed : SlotStep)
  | seated (seed : SlotSeed) (outcome : PrefillOutcome) (finalize : FinalizeOutcome)

namespace SlotStart

/-- The prefill samples a token for every founder but in a diffusion backbone,
`primeFromPrefill` appends none, and the seated prefill of a joiner returns. -/
def Legal (cfg : SessionConfig) : SlotStart → Prop
  | founded founder primed =>
    founder.firstToken.isSome = !cfg.isDiffusionBackbone ∧ primed.tokens = .none
  | seated _ outcome finalize =>
    ∃ decision, GenerationSession.seatedExit cfg outcome finalize = .ok decision

/-- The slot at the first step boundary of its life. -/
def row (cfg : SessionConfig) (skipSpecialTokens : Bool) : SlotStart → ExecutionRow
  | founded founder primed =>
    if cfg.isDiffusionBackbone then founder.row skipSpecialTokens
    else primed.upTo cfg (founder.row skipSpecialTokens) .emitted
  | seated seed outcome finalize =>
    GenerationSession.seatedRow cfg outcome finalize (seed.joinerRow skipSpecialTokens)

end SlotStart

/-- A slot after some events of its life. -/
def life (cfg : SessionConfig) (skipSpecialTokens : Bool) (start : SlotStart)
    (events : List SlotEvent) : ExecutionRow :=
  events.foldl (SlotEvent.apply cfg) (start.row cfg skipSpecialTokens)

theorem life_snoc (cfg : SessionConfig) (skipSpecialTokens : Bool) (start : SlotStart)
    (events : List SlotEvent) (event : SlotEvent) :
    life cfg skipSpecialTokens start (events ++ [event]) =
      event.apply cfg (life cfg skipSpecialTokens start events) := by
  rw [life, List.foldl_append]
  rfl

namespace ExecutionRow

/-- The row of some slot at a step boundary. -/
def Lives (cfg : SessionConfig) (row : ExecutionRow) : Prop :=
  ∃ skipSpecialTokens start events, start.Legal cfg ∧
    row = life cfg skipSpecialTokens start events

/-- The row of a founder before `primeFromPrefill`. -/
def Fresh (cfg : SessionConfig) (row : ExecutionRow) : Prop :=
  ∃ (founder : GenerationSession.Founder) (skipSpecialTokens : Bool),
    founder.firstToken.isSome = !cfg.isDiffusionBackbone ∧ row = founder.row skipSpecialTokens

/-- The row of a joiner before its prefill. -/
def Pending (row : ExecutionRow) : Prop :=
  ∃ (seed : SlotSeed) (skipSpecialTokens : Bool), row = seed.joinerRow skipSpecialTokens

/-- The row of a slot when an operation gives its session up. -/
inductive Torn (cfg : SessionConfig) : ExecutionRow → Prop where
  | fresh {row : ExecutionRow} (h : row.Fresh cfg) : Torn cfg row
  | pending {row : ExecutionRow} (h : row.Pending) : Torn cfg row
  | seated (seed : SlotSeed) (skipSpecialTokens : Bool) (outcome : PrefillOutcome)
      (finalize : FinalizeOutcome) :
      Torn cfg (GenerationSession.seatedRow cfg outcome finalize (seed.joinerRow skipSpecialTokens))
  | primed {row : ExecutionRow} (h : row.Fresh cfg) (step : SlotStep) (hprimed : step.tokens = .none)
      (stage : Stage) : Torn cfg (step.upTo cfg row stage)
  | lives {row : ExecutionRow} (h : row.Lives cfg) : Torn cfg row
  | step {row : ExecutionRow} (h : row.Lives cfg) (step : SlotStep) (stage : Stage) :
      Torn cfg (step.upTo cfg row stage)

variable {cfg : SessionConfig} {row : ExecutionRow}

theorem Lives.apply (h : row.Lives cfg) (event : SlotEvent) : (event.apply cfg row).Lives cfg := by
  obtain ⟨skip, start, events, hlegal, hrow⟩ := h
  refine ⟨skip, start, events ++ [event], hlegal, ?_⟩
  rw [life_snoc, hrow]

theorem Fresh.primed (h : row.Fresh cfg) (hdiffusion : cfg.isDiffusionBackbone = false)
    {step : SlotStep} (htokens : step.tokens = .none) : (step.upTo cfg row .emitted).Lives cfg := by
  obtain ⟨founder, skip, hfirst, hrow⟩ := h
  refine ⟨skip, .founded founder step, [], ⟨hfirst, htokens⟩, ?_⟩
  show _ = if cfg.isDiffusionBackbone = true then _ else _
  rw [hdiffusion, hrow]
  rfl

theorem Fresh.unprimed (h : row.Fresh cfg) (hdiffusion : cfg.isDiffusionBackbone = true) :
    row.Lives cfg := by
  obtain ⟨founder, skip, hfirst, hrow⟩ := h
  refine ⟨skip, .founded founder {}, [], ⟨hfirst, rfl⟩, ?_⟩
  show _ = if cfg.isDiffusionBackbone = true then _ else _
  rw [hdiffusion, hrow]
  rfl

theorem Pending.seated (h : row.Pending) {outcome : PrefillOutcome} {finalize : FinalizeOutcome}
    {decision : AdmitDecision}
    (hexit : GenerationSession.seatedExit cfg outcome finalize = .ok decision) :
    (GenerationSession.seatedRow cfg outcome finalize row).Lives cfg := by
  obtain ⟨seed, skip, hrow⟩ := h
  refine ⟨skip, .seated seed outcome finalize, [], ⟨decision, hexit⟩, ?_⟩
  rw [hrow]
  rfl

/-- A consumer that cancels a pending joiner might as well have done so before. -/
theorem Pending.cancel (h : row.Pending) : row.cancel.Pending := by
  obtain ⟨seed, skip, rfl⟩ := h
  refine ⟨{ seed with channel := seed.channel.map fun settings =>
    { settings with cancelled := true } }, skip, ?_⟩
  cases hchannel : seed.channel with
  | none =>
    simp [ExecutionRow.cancel, SlotSeed.joinerRow, SlotSeed.attachedChannel,
      SlotSeed.workingTokens, hchannel]
  | some settings =>
    have hsame : (settings.channel.attach seed.originalIndex).cancel =
        ({ settings with cancelled := true } : ChannelSettings).channel.attach
          seed.originalIndex := by
      rw [ChannelSettings.channel]
      split <;> rfl
    simp [ExecutionRow.cancel, SlotSeed.joinerRow, SlotSeed.attachedChannel,
      SlotSeed.workingTokens, hchannel, hsame]

/-- What holds at the first step boundary of every life, and is kept by every
event, holds of every slot. -/
theorem Lives.induct {good : ExecutionRow → Prop}
    (hstart : ∀ (skipSpecialTokens : Bool) (start : SlotStart), start.Legal cfg →
      good (start.row cfg skipSpecialTokens))
    (hevent : ∀ (row : ExecutionRow) (event : SlotEvent), good row → good (event.apply cfg row)) (h : row.Lives cfg) :
    good row := by
  obtain ⟨skip, start, events, hlegal, rfl⟩ := h
  induction events using List.reverseRecOn with
  | nil => exact hstart skip start hlegal
  | append_singleton events event ih =>
    rw [life_snoc]
    exact hevent _ event ih

end ExecutionRow

/-! ## The operations, stage by stage -/

namespace GenerationSession

/-- The rows of a batch that has gone through a step up to a stage. -/
def stageRows (cfg : SessionConfig) (s : GenerationSession) (states : Nat → Bool)
    (tokens : StepTokens) (stage : Stage) : List ExecutionRow :=
  s.rows.mapIdx fun i row =>
    SlotStep.upTo cfg ⟨s.hasGuidedDecoding, states i, tokens.slot i⟩ row stage

/-- A batch that has gone through a step up to a stage. -/
def stageOf (cfg : SessionConfig) (s : GenerationSession) (states : Nat → Bool)
    (tokens : StepTokens) (stage : Stage) : GenerationSession :=
  { s with rows := stageRows cfg s states tokens stage }

/-- The batch after its finished slots are evicted. -/
def evict (s : GenerationSession) : GenerationSession :=
  if s.rows.any ExecutionRow.finished then s.compact else s

section Spec

variable {cfg : SessionConfig} {s : GenerationSession}
variable {bad : SessionFailure → GenerationSession → Prop}

theorem map_mapIdx {f : Nat → ExecutionRow → ExecutionRow} {g : ExecutionRow → ExecutionRow}
    (rows : List ExecutionRow) : (rows.mapIdx f).map g = rows.mapIdx fun i row => g (f i row) := by
  apply List.ext_getElem
  · simp
  · intro i hi hi'
    simp

theorem mapIdx_mapIdx {f g : Nat → ExecutionRow → ExecutionRow} (rows : List ExecutionRow) :
    (rows.mapIdx f).mapIdx g = rows.mapIdx fun i row => g i (f i row) := by
  apply List.ext_getElem
  · simp
  · intro i hi hi'
    simp

theorem mapIdx_map {f : ExecutionRow → ExecutionRow} {g : Nat → ExecutionRow → ExecutionRow}
    (rows : List ExecutionRow) : (rows.map f).mapIdx g = rows.mapIdx fun i row => g i (f row) := by
  apply List.ext_getElem
  · simp
  · intro i hi hi'
    simp

theorem ensures_observe (rootCancelled : Option (Nat → Bool)) (tokens : StepTokens) :
    Ensures (observeCancellations rootCancelled)
      (fun _ s' => ∃ states, rootCancelled = some states ∧
        s' = stageOf cfg s states tokens .observed)
      (fun _ s' => s' = stageOf cfg s (fun _ => false) tokens .observed) s := by
  cases rootCancelled with
  | none =>
    show ({ s with rows := s.rows.map ExecutionRow.applyCancellation } : GenerationSession) =
      { s with rows := _ }
    congr 1
    apply List.ext_getElem
    · simp [stageRows]
    · intro i hi hi'
      simp [stageRows, SlotStep.upTo, ExecutionRow.observe]
  | some states =>
    refine ⟨states, rfl, ?_⟩
    show ({ s with rows := (s.rows.map ExecutionRow.applyCancellation).mapIdx _ } :
      GenerationSession) = { s with rows := _ }
    congr 1
    rw [mapIdx_map]
    rfl

variable {ok : Unit → GenerationSession → Prop}

theorem ensures_append (states : Nat → Bool) (tokens : StepTokens)
    (hok : ok ⟨⟩ (stageOf cfg s states tokens .appended)) :
    Ensures (eachRowIdx (tokens.append cfg)) ok bad (stageOf cfg s states tokens .observed) := by
  have hrows : (stageRows cfg s states tokens .observed).mapIdx (tokens.append cfg) =
      stageRows cfg s states tokens .appended := by
    rw [stageRows, mapIdx_mapIdx]
    congr 1
    funext i row
    rw [StepTokens.append_eq]
    rfl
  show ok ⟨⟩ { s with rows := (stageRows cfg s states tokens .observed).mapIdx (tokens.append cfg) }
  rw [hrows]
  exact hok

theorem ensures_decode (states : Nat → Bool) (tokens : StepTokens)
    (hok : ok ⟨⟩ (stageOf cfg s states tokens .decoded)) :
    Ensures (decodeAndFinish cfg) ok bad (stageOf cfg s states tokens .appended) := by
  have hrows : (((stageRows cfg s states tokens .appended).map
      (ExecutionRow.decode cfg.tokenizer)).map
      (ExecutionRow.updateThinkingDone cfg s.hasGuidedDecoding)).map
      (ExecutionRow.updateFinishStates cfg) = stageRows cfg s states tokens .decoded := by
    rw [stageRows, map_mapIdx, map_mapIdx, map_mapIdx]
    rfl
  have hsession : stageOf cfg s states tokens .decoded =
      { s with
        rows := (((stageRows cfg s states tokens .appended).map
          (ExecutionRow.decode cfg.tokenizer)).map
          (ExecutionRow.updateThinkingDone cfg s.hasGuidedDecoding)).map
          (ExecutionRow.updateFinishStates cfg) } := by
    rw [hrows]
    rfl
  rw [hsession] at hok
  exact hok

theorem ensures_emit (states : Nat → Bool) (tokens : StepTokens)
    (hok : ok ⟨⟩ (stageOf cfg s states tokens .emitted)) :
    Ensures (eachRow ExecutionRow.emit) ok bad (stageOf cfg s states tokens .decoded) := by
  have hrows : (stageRows cfg s states tokens .decoded).map ExecutionRow.emit =
      stageRows cfg s states tokens .emitted := by
    rw [stageRows, map_mapIdx]
    rfl
  show ok ⟨⟩ { s with rows := (stageRows cfg s states tokens .decoded).map ExecutionRow.emit }
  rw [hrows]
  exact hok

theorem ensures_performBatchEvict (evicted : Bool) :
    Ensures (performBatchEvict evicted) (fun _ s' => s' = s.evict) (fun _ s' => s' = s) s := by
  rw [performBatchEvict, ensures_bind, ensures_check]
  exact ⟨fun _ => rfl, fun _ => rfl⟩

/-- `advance` takes every slot through a step and evicts the finished ones; where
it fails, it has come to some stage. -/
theorem advance_spec (input : AdvanceInput) :
    Ensures (advance cfg input)
      (fun _ s' => ∃ states, input.rootCancelled = some states ∧
        s' = ({ stageOf cfg s states input.tokens .emitted with
          generationRound := s.generationRound + 1 } : GenerationSession).evict)
      (fun _ s' => ∃ states stage generationRound,
        s' = { stageOf cfg s states input.tokens stage with generationRound := generationRound })
      s := by
  rw [advance, ensures_bind]
  apply (ensures_observe input.rootCancelled input.tokens).mono
  · rintro _ s₁ ⟨states, hstates, rfl⟩
    rw [ensures_bind, ensures_check]
    refine ⟨fun _ => ?_, fun _ => ⟨states, .observed, s.generationRound, rfl⟩⟩
    rw [ensures_bind]
    apply ensures_append
    rw [ensures_bind, ensures_check]
    refine ⟨fun _ => ?_, fun _ => ⟨states, .appended, s.generationRound, rfl⟩⟩
    rw [ensures_bind]
    apply ensures_decode
    rw [ensures_bind, ensures_check]
    refine ⟨fun _ => ?_, fun _ => ⟨states, .decoded, s.generationRound, rfl⟩⟩
    rw [ensures_bind]
    apply ensures_emit
    rw [ensures_bind, ensures_check]
    refine ⟨fun _ => ?_, fun _ => ⟨states, .emitted, s.generationRound, rfl⟩⟩
    rw [ensures_bind, ensures_modify]
    apply (ensures_performBatchEvict input.evicted).mono
    · exact fun _ s' hevict => ⟨states, hstates, hevict⟩
    · exact fun _ s' hfail => ⟨states, .emitted, s.generationRound + 1, hfail⟩
  · exact fun _ s₁ hfail => ⟨fun _ => false, .observed, s.generationRound, hfail⟩

/-- Whether `primeFromPrefill` evicts. -/
def primeEvicts (cfg : SessionConfig) (s : GenerationSession) : Bool :=
  decide (s.rows ≠ []) && (supportsPartialPrefillEviction cfg || s.finished)

/-- `primeFromPrefill` takes every slot through a step without tokens, and may
evict the finished ones. -/
theorem primeFromPrefill_spec (hdiffusion : cfg.isDiffusionBackbone = false) (input : PrimeInput) :
    Ensures (primeFromPrefill cfg input) (fun _ s' => ∃ states, input.rootCancelled = some states ∧
        s' = if primeEvicts cfg (stageOf cfg s states .none .emitted) then
            (stageOf cfg s states .none .emitted).evict else stageOf cfg s states .none .emitted)
      (fun _ s' => ∃ states stage, s' = stageOf cfg s states .none stage) s := by
  rw [primeFromPrefill, ensures_ite]
  refine ⟨(fun htrue => by rw [hdiffusion] at htrue; cases htrue), fun _ => ?_⟩
  rw [ensures_bind]
  apply (ensures_observe input.rootCancelled .none).mono
  · rintro _ s₁ ⟨states, hstates, rfl⟩
    rw [ensures_bind]
    -- a step without tokens appends nothing
    apply ensures_decode states .none
    rw [ensures_bind]
    apply ensures_emit
    rw [ensures_bind, ensures_read, ensures_ite]
    constructor
    · intro hevicts
      have hprimed : primeEvicts cfg (stageOf cfg s states .none .emitted) = true := by
        simpa [primeEvicts] using hevicts
      apply (ensures_performBatchEvict input.evicted).mono
      · intro _ s' hevict
        refine ⟨states, hstates, ?_⟩
        rw [if_pos hprimed]
        exact hevict
      · exact fun _ s' hfail => ⟨states, .emitted, hfail⟩
    · intro hkeeps
      have hprimed : ¬ primeEvicts cfg (stageOf cfg s states .none .emitted) = true := by
        simpa [primeEvicts] using hkeeps
      refine ⟨states, hstates, ?_⟩
      rw [if_neg hprimed]
  · exact fun _ s₁ hfail => ⟨fun _ => false, .observed, hfail⟩

/-- A session with a new slot at its end. -/
def joined (s : GenerationSession) (seed : SlotSeed) (skipSpecialTokens : Bool) :
    GenerationSession :=
  { s with
    rows := s.rows ++ [seed.joinerRow skipSpecialTokens]
    attached := s.attached + (if seed.channel.isSome then 1 else 0) }

/-- `seatSlot` appends one slot, or changes nothing. -/
theorem seatSlot_spec (seed : SlotSeed) (skipSpecialTokens : Bool) :
    Ensures (seatSlot seed skipSpecialTokens)
      (fun slot s' => slot = s.rows.length ∧ s.rows ≠ [] ∧ s' = s.joined seed skipSpecialTokens)
      (fun _ s' => s' = s) s := by
  rw [seatSlot, ensures_bind, ensures_read]
  -- the checks come before the first mutation
  rw [ensures_bind, ensures_check]
  refine ⟨fun hne => ?_, fun _ => rfl⟩
  rw [ensures_bind, ensures_check]
  refine ⟨fun _ => ?_, fun _ => rfl⟩
  rw [ensures_bind, ensures_check]
  refine ⟨fun _ => ?_, fun _ => rfl⟩
  rw [ensures_bind, ensures_check]
  refine ⟨fun _ => ?_, fun _ => rfl⟩
  rw [ensures_bind, ensures_check]
  refine ⟨fun _ => ?_, fun _ => rfl⟩
  rw [ensures_bind, ensures_modify, ensures_pure]
  exact ⟨rfl, hne, rfl⟩

/-- A session whose joiner has gone through its prefill. -/
def seated (cfg : SessionConfig) (s : GenerationSession) (slot : Nat) (outcome : PrefillOutcome)
    (finalize : FinalizeOutcome) : GenerationSession :=
  { s with rows := s.rows.modify slot (seatedRow cfg outcome finalize) }

/-- `prefillSeated` touches the row of the joiner only. -/
theorem prefillSeated_spec (slot : Nat) (outcome : PrefillOutcome) (finalize : FinalizeOutcome) :
    Ensures (prefillSeated cfg slot outcome finalize)
      (fun decision s' => seatedExit cfg outcome finalize = .ok decision ∧
        s' = s.seated cfg slot outcome finalize)
      (fun _ s' => ¬ (0 < slot ∧ slot < s.rows.length) ∧ s' = s ∨
        (∃ failure, seatedExit cfg outcome finalize = .error failure) ∧
          s' = s.seated cfg slot outcome finalize) s := by
  rw [prefillSeated, ensures_bind, ensures_read, ensures_bind, ensures_check]
  constructor
  · intro _
    rw [ensures_bind, onRow, ensures_modify, ensures_ofExcept]
    cases hexit : seatedExit cfg outcome finalize with
    | ok decision => exact ⟨rfl, rfl⟩
    | error failure => exact Or.inr ⟨⟨failure, rfl⟩, rfl⟩
  · exact fun hdead => Or.inl ⟨hdead, rfl⟩

end Spec

end GenerationSession

end EdgeLLM.Ports.Generation
