import EdgeLLM.Ports.SessionLives
import EdgeLLM.Ports.StreamTermination

/-!
# Where generation stops

The end-token rule and the length limit are decided three times: per accepted
token, on the last token of a step, and for the first token of a joiner.  All
three agree with one predicate on the generated tokens, `terminal`, so a slot
never goes on behind a terminal token.
-/

namespace EdgeLLM.Ports.Generation

/-! ## Terminal tokens -/

namespace SessionConfig

/-- A token that ends the thinking of a slot. -/
def endsThinking (cfg : SessionConfig) (tokenId : Token) : Bool :=
  tokenId == cfg.mEndOfChannelId || tokenId == cfg.mEndOfThinkId

/-- A token that a thinking answer starts with. -/
def startsThinking (cfg : SessionConfig) (tokenId : Token) : Bool :=
  tokenId == cfg.mStartOfChannelId || tokenId == cfg.mStartOfThinkId

/-- Thinking is done: an end marker was generated, or the answer did not start
with a start marker. -/
def thinkingOver (cfg : SessionConfig) (generated : List Token) : Bool :=
  generated.any cfg.endsThinking ||
    match generated.head? with
    | none => false
    | some first => !cfg.startsThinking first

/-- The last token is an effective end token. -/
def endsWithEos (cfg : SessionConfig) (generated : List Token) : Bool :=
  match generated.getLast? with
  | none => false
  | some lastToken =>
    !cfg.ignoreEos && cfg.tokenizer.isEosToken lastToken &&
      !(cfg.enableThinking && lastToken != cfg.tokenizer.getEosId && !cfg.thinkingOver generated)

/-- The last token is terminal: an effective end token, or the last one that the
limit allows. -/
def terminal (cfg : SessionConfig) (generated : List Token) : Bool :=
  cfg.endsWithEos generated || decide (cfg.maxGenerateLength ≤ generated.length)

/-- The tokens up to the first terminal one, after some generated tokens. -/
def upToTerminal (cfg : SessionConfig) (generated : List Token) : List Token → List Token
  | [] => []
  | token :: rest =>
    if cfg.terminal (generated ++ [token]) then [token]
    else token :: cfg.upToTerminal (generated ++ [token]) rest

theorem thinkingOver_concat (cfg : SessionConfig) (generated : List Token) (token : Token) :
    cfg.thinkingOver (generated ++ [token]) =
      (cfg.thinkingOver generated || cfg.endsThinking token ||
        (generated.isEmpty && !cfg.startsThinking token)) := by
  cases generated with
  | nil => simp [thinkingOver]
  | cons first rest =>
    simp only [thinkingOver, List.any_append, List.any_cons, List.any_nil, Bool.or_false,
      List.cons_append, List.head?_cons, List.isEmpty_cons, Bool.false_and]
    cases cfg.endsThinking first <;> cases rest.any cfg.endsThinking <;>
      cases cfg.endsThinking token <;> simp

theorem terminal_nil (cfg : SessionConfig) : cfg.terminal [] = false := by
  have hpos := cfg.maxGenerateLength_pos
  simp only [terminal, endsWithEos, List.getLast?_nil, Bool.false_or, List.length_nil,
    decide_eq_false_iff_not]
  omega

end SessionConfig

/-! ## The generated tokens of a slot -/

namespace ExecutionRow

/-- The generated tokens: those behind the working prompt. -/
def generated (row : ExecutionRow) : List Token :=
  row.tokenIds.drop (row.tokenIds.length - row.currentGenerateLength)

variable {row : ExecutionRow}

theorem length_generated
    (hcounted : row.currentGenerateLength ≤ row.tokenIds.length) :
    row.generated.length = row.currentGenerateLength := by
  rw [generated, List.length_drop]
  omega

theorem generated_appendToken
    (hcounted : row.currentGenerateLength ≤ row.tokenIds.length) (token : Token) :
    (row.appendToken token).generated = row.generated ++ [token] := by
  have hstart : row.tokenIds.length + 1 - (row.currentGenerateLength + 1) =
      row.tokenIds.length - row.currentGenerateLength := by omega
  show (row.tokenIds ++ [token]).drop ((row.tokenIds ++ [token]).length -
    (row.currentGenerateLength + 1)) = _
  rw [List.length_append, List.length_singleton, hstart,
    List.drop_append_of_le_length (Nat.sub_le _ _)]
  rfl

theorem getLast?_generated (hne : row.generated ≠ []) :
    row.tokenIds.getLast? = row.generated.getLast? := by
  rw [generated, List.getLast?_drop, if_neg]
  intro hlong
  apply hne
  rw [generated, List.drop_eq_nil_of_le hlong]

/-- What the finishing of a slot reads and writes. -/
structure FinishView where
  tokenIds : List Token
  currentGenerateLength : Nat
  finished : Bool
  thinkingDone : Bool
  terminalReason : FinishReason
  stopStrings : List Utf8.Bytes

/-- The part of a row that its finishing reads and writes. -/
def view (row : ExecutionRow) : FinishView where
  tokenIds := row.tokenIds
  currentGenerateLength := row.currentGenerateLength
  finished := row.finished
  thinkingDone := row.thinkingDone
  terminalReason := row.slotStream.terminalReason
  stopStrings := row.stopStrings

theorem terminalReason_newText (tok : Tokenizer) (row : ExecutionRow) (s : SlotStreamState) :
    (row.newText tok s).2.terminalReason = s.terminalReason := by
  rw [newText, emitDelta_eq]
  split <;> rfl

@[simp] theorem view_decode (tok : Tokenizer) (row : ExecutionRow) :
    (row.decode tok).view = row.view := by
  have hreason : (row.decode tok).slotStream.terminalReason = row.slotStream.terminalReason := by
    rw [decode]
    split
    · rfl
    · split
      · rfl
      · split <;> exact terminalReason_newText tok row _
  have hrest : (row.decode tok).tokenIds = row.tokenIds ∧
      (row.decode tok).currentGenerateLength = row.currentGenerateLength ∧
      (row.decode tok).finished = row.finished ∧ (row.decode tok).thinkingDone = row.thinkingDone ∧
      (row.decode tok).stopStrings = row.stopStrings := by
    rw [decode]
    split
    · exact ⟨rfl, rfl, rfl, rfl, rfl⟩
    · split
      · exact ⟨rfl, rfl, rfl, rfl, rfl⟩
      · split <;> exact ⟨rfl, rfl, rfl, rfl, rfl⟩
  rw [view, hreason, hrest.1, hrest.2.1, hrest.2.2.1, hrest.2.2.2.1, hrest.2.2.2.2]
  rfl

@[simp] theorem view_emit (row : ExecutionRow) : row.emit.view = row.view := by
  have hheld : row.releaseHeld.terminalReason = row.slotStream.terminalReason := by
    rw [releaseHeld]
    split <;> rfl
  rw [emit]
  cases row.slotStream.channel with
  | none => rfl
  | some channel =>
    dsimp only
    split <;> rw [view, view, ← hheld]

@[simp] theorem view_cancel (row : ExecutionRow) : row.cancel.view = row.view := rfl

/-- A stop match sets the match flag only where there are stop strings. -/
theorem stopStrings_of_matched {tok : Tokenizer}
    (hmatched : (row.decode tok).slotStream.stopMatchedThisIter = true) : row.stopStrings ≠ [] := by
  intro hnone
  have hinactive : row.stopActive = false := by
    rw [stopActive, hnone]
    rfl
  have hnew : ∀ s : SlotStreamState, s.stopMatchedThisIter = false →
      (row.newText tok s).2.stopMatchedThisIter = false := by
    intro s hs
    rw [newText, emitDelta_eq]
    split <;> exact hs
  rw [decode] at hmatched
  split at hmatched
  · cases hmatched
  · split at hmatched
    · cases hmatched
    · rw [hinactive, if_neg Bool.false_ne_true] at hmatched
      rw [show (row.newText tok _).2.stopMatchedThisIter = false from hnew _ rfl] at hmatched
      cases hmatched

/-! ## The thinking latch -/

/-- The latch of a slot in thinking mode says whether thinking is done. -/
def Latched (cfg : SessionConfig) (row : ExecutionRow) : Prop :=
  cfg.enableThinking = true → row.thinkingDone = cfg.thinkingOver row.generated

/-- The latch may not have seen the last token yet. -/
def LatchedBehind (cfg : SessionConfig) (row : ExecutionRow) : Prop :=
  cfg.enableThinking = true →
    row.thinkingDone = cfg.thinkingOver row.generated ∨
      row.thinkingDone = cfg.thinkingOver row.generated.dropLast

@[simp] theorem generated_updateThinkingDoneForToken (cfg : SessionConfig) (row : ExecutionRow)
    (tokenId : Token) : (row.updateThinkingDoneForToken cfg tokenId).generated = row.generated := by
  obtain ⟨done, hdone⟩ := updateThinkingDoneForToken_eq cfg row tokenId
  rw [hdone]
  rfl

/-- `updateThinkingDoneForToken` on the last token brings the latch up to it. -/
theorem LatchedBehind.update {cfg : SessionConfig} {before : List Token}
    {tokenId : Token} (h : row.LatchedBehind cfg)
    (hcounted : row.currentGenerateLength ≤ row.tokenIds.length)
    (hgenerated : row.generated = before ++ [tokenId]) :
    (row.updateThinkingDoneForToken cfg tokenId).Latched cfg := by
  intro hthinking
  have hgen := generated_updateThinkingDoneForToken cfg row tokenId
  have hfirst : row.currentGenerateLength = 1 ↔ before.isEmpty = true := by
    rw [← length_generated hcounted, hgenerated, List.length_append, List.length_singleton,
      List.isEmpty_iff_length_eq_zero]
    omega
  have hlatch := h hthinking
  rw [hgenerated, List.dropLast_concat] at hlatch
  rw [hgen, hgenerated, cfg.thinkingOver_concat]
  rw [cfg.thinkingOver_concat] at hlatch
  rw [updateThinkingDoneForToken, hthinking]
  cases hdone : row.thinkingDone with
  | true =>
    rw [if_pos (by simp)]
    show row.thinkingDone = _
    rw [hdone]
    rw [hdone] at hlatch
    rcases hlatch with heq | heq
    · exact heq
    · rw [← heq]; simp
  | false =>
    rw [hdone] at hlatch
    have hbefore : cfg.thinkingOver before = false := by
      rcases hlatch with heq | heq
      · have hor := heq.symm
        simp only [Bool.or_eq_false_iff] at hor
        exact hor.1.1
      · exact heq.symm
    rw [hbefore, if_neg (by simp)]
    by_cases hend : tokenId = cfg.mEndOfChannelId ∨ tokenId = cfg.mEndOfThinkId
    · have hends : cfg.endsThinking tokenId = true := by
        simpa [SessionConfig.endsThinking] using hend
      rw [if_pos hend, hends]
      simp
    · have hends : cfg.endsThinking tokenId = false := by
        simpa [SessionConfig.endsThinking] using hend
      rw [if_neg hend, hends]
      by_cases hstart : row.currentGenerateLength = 1 ∧ tokenId ≠ cfg.mStartOfChannelId ∧
          tokenId ≠ cfg.mStartOfThinkId
      · have hstarts : cfg.startsThinking tokenId = false := by
          simpa [SessionConfig.startsThinking] using hstart.2
        rw [if_pos hstart, hfirst.1 hstart.1, hstarts]
        rfl
      · rw [if_neg hstart]
        show row.thinkingDone = _
        rw [hdone]
        cases hempty : before.isEmpty with
        | false => rfl
        | true =>
          have hstarts : cfg.startsThinking tokenId = true := by
            by_contra hnot
            apply hstart
            refine ⟨hfirst.2 hempty, ?_⟩
            simpa [SessionConfig.startsThinking] using hnot
          rw [hstarts]
          rfl

/-- With the latch up to date the end-token rule is `endsWithEos`. -/
theorem Latched.isEffectiveEos {cfg : SessionConfig} (h : row.Latched cfg)
    {tokenId : Token} (hlast : row.generated.getLast? = some tokenId) :
    row.isEffectiveEos cfg tokenId = cfg.endsWithEos row.generated := by
  rw [ExecutionRow.isEffectiveEos, SessionConfig.endsWithEos, hlast]
  cases hthinking : cfg.enableThinking with
  | false => rfl
  | true => rw [h hthinking]

/-! ## Slots that stop in time -/

/-- No token but the last one is terminal. -/
structure EndsOnce (cfg : SessionConfig) (row : ExecutionRow) : Prop where
  counted : row.currentGenerateLength ≤ row.tokenIds.length
  before : ∀ k, k < row.generated.length → cfg.terminal (row.generated.take k) = false

/-- The reason of a finished slot with a terminal token: an end token or the limit,
or, instead, a stop match, or a cancellation or failure that came with the first
token. -/
def ReasonFits (cfg : SessionConfig) (row : ExecutionRow) : Prop :=
  cfg.terminal row.generated = true →
    row.slotStream.terminalReason =
        (if cfg.endsWithEos row.generated then .kEndId else .kLength) ∨
      (row.slotStream.terminalReason = .kStopWords ∧ row.stopStrings ≠ []) ∨
      ((row.slotStream.terminalReason = .kCancelled ∨ row.slotStream.terminalReason = .kError) ∧
        row.generated.length = 1)

/-- A slot at a step boundary: it has no terminal token but the last one, and if it
has one, it is finished for a fitting reason. -/
structure Stopping (cfg : SessionConfig) (row : ExecutionRow) : Prop where
  endsOnce : row.EndsOnce cfg
  finished : cfg.terminal row.generated = true → row.finished = true
  reason : row.finished = true → row.ReasonFits cfg
  live : row.finished = false → row.generated ≠ [] ∧ row.Latched cfg

/-- A slot whose last tokens have not gone through the finish pass. -/
structure Unchecked (cfg : SessionConfig) (row : ExecutionRow) : Prop where
  endsOnce : row.EndsOnce cfg
  reason : row.finished = true → row.ReasonFits cfg
  live : row.finished = false → row.generated ≠ [] ∧ row.LatchedBehind cfg

section Stages

variable {cfg : SessionConfig} {row row' : ExecutionRow}

theorem generated_of_view (hview : row'.view = row.view) : row'.generated = row.generated := by
  have htokens : row'.tokenIds = row.tokenIds := congrArg FinishView.tokenIds hview
  have hcount : row'.currentGenerateLength = row.currentGenerateLength :=
    congrArg FinishView.currentGenerateLength hview
  rw [generated, generated, htokens, hcount]

theorem EndsOnce.of_tokens (h : row.EndsOnce cfg) (htokens : row'.tokenIds = row.tokenIds)
    (hcount : row'.currentGenerateLength = row.currentGenerateLength) : row'.EndsOnce cfg := by
  have hgenerated : row'.generated = row.generated := by
    rw [generated, generated, htokens, hcount]
  refine ⟨?_, ?_⟩
  · rw [hcount, htokens]
    exact h.counted
  · rw [hgenerated]
    exact h.before

theorem EndsOnce.of_view (h : row.EndsOnce cfg) (hview : row'.view = row.view) :
    row'.EndsOnce cfg :=
  h.of_tokens (congrArg FinishView.tokenIds hview)
    (congrArg FinishView.currentGenerateLength hview)

theorem ReasonFits.of_view (h : row.ReasonFits cfg) (hview : row'.view = row.view) :
    row'.ReasonFits cfg := by
  have hreason : row'.slotStream.terminalReason = row.slotStream.terminalReason :=
    congrArg FinishView.terminalReason hview
  have hstops : row'.stopStrings = row.stopStrings := congrArg FinishView.stopStrings hview
  rw [ReasonFits, generated_of_view hview, hreason, hstops]
  exact h

theorem Stopping.of_view (h : row.Stopping cfg) (hview : row'.view = row.view) :
    row'.Stopping cfg := by
  have hfinished : row'.finished = row.finished := congrArg FinishView.finished hview
  have hdone : row'.thinkingDone = row.thinkingDone := congrArg FinishView.thinkingDone hview
  refine ⟨h.endsOnce.of_view hview, ?_, ?_, ?_⟩
  · rw [generated_of_view hview, hfinished]
    exact h.finished
  · rw [hfinished]
    exact fun hdead => (h.reason hdead).of_view hview
  · rw [hfinished, Latched, generated_of_view hview, hdone]
    exact h.live

theorem Unchecked.of_view (h : row.Unchecked cfg) (hview : row'.view = row.view) :
    row'.Unchecked cfg := by
  have hfinished : row'.finished = row.finished := congrArg FinishView.finished hview
  have hdone : row'.thinkingDone = row.thinkingDone := congrArg FinishView.thinkingDone hview
  refine ⟨h.endsOnce.of_view hview, ?_, ?_⟩
  · rw [hfinished]
    exact fun hdead => (h.reason hdead).of_view hview
  · rw [hfinished, LatchedBehind, generated_of_view hview, hdone]
    exact h.live

theorem Stopping.unchecked (h : row.Stopping cfg) : row.Unchecked cfg where
  endsOnce := h.endsOnce
  reason := h.reason
  live := fun hlive => ⟨(h.live hlive).1, fun hthinking => Or.inl ((h.live hlive).2 hthinking)⟩

/-- A live slot has no terminal token. -/
theorem Stopping.open_ended (h : row.Stopping cfg) (hlive : row.finished = false) :
    cfg.terminal row.generated = false := by
  by_contra hterminal
  have hfinished := h.finished (by simpa using hterminal)
  rw [hlive] at hfinished
  cases hfinished

/-- A cancellation of a slot whose terminal token, if it has one, is its first. -/
theorem Unchecked.observe (h : row.Unchecked cfg) (rootCancelled : Bool)
    (hfirst : row.finished = false → cfg.terminal row.generated = true →
      row.generated.length = 1) : (row.observe rootCancelled).Unchecked cfg := by
  rcases observe_cases row rootCancelled with hsame | hcancelled
  · rwa [hsame]
  · rw [hcancelled.2]
    refine ⟨h.endsOnce.of_tokens rfl rfl, ?_, (fun hlive => by cases hlive)⟩
    intro _ hterminal
    exact Or.inr (Or.inr ⟨Or.inl rfl, hfirst hcancelled.1 hterminal⟩)

theorem Stopping.observe (h : row.Stopping cfg) (rootCancelled : Bool) :
    (row.observe rootCancelled).Stopping cfg := by
  rcases observe_cases row rootCancelled with hsame | hcancelled
  · rwa [hsame]
  · have hopen := h.open_ended hcancelled.1
    rw [hcancelled.2]
    refine ⟨h.endsOnce.of_tokens rfl rfl, fun _ => rfl, ?_, (fun hlive => by cases hlive)⟩
    intro _ hterminal
    rw [show (row.finishWith .kCancelled).generated = row.generated from rfl, hopen] at hterminal
    cases hterminal

/-- One more token on a slot without a terminal one. -/
theorem EndsOnce.append (h : row.EndsOnce cfg) (hopen : cfg.terminal row.generated = false)
    (token : Token) : (row.appendToken token).EndsOnce cfg := by
  refine ⟨?_, ?_⟩
  · show row.currentGenerateLength + 1 ≤ (row.tokenIds ++ [token]).length
    rw [List.length_append, List.length_singleton]
    exact Nat.add_le_add_right h.counted 1
  · intro k hk
    rw [generated_appendToken h.counted, List.length_append, List.length_singleton] at hk
    rw [generated_appendToken h.counted, List.take_append_of_le_length (Nat.le_of_lt_succ hk)]
    by_cases hlast : k = row.generated.length
    · rw [hlast, List.take_length]
      exact hopen
    · exact h.before k (by omega)

theorem LatchedBehind.append (h : row.Latched cfg)
    (hcounted : row.currentGenerateLength ≤ row.tokenIds.length) (token : Token) :
    (row.appendToken token).LatchedBehind cfg := by
  intro hthinking
  right
  rw [generated_appendToken hcounted, List.dropLast_concat]
  exact h hthinking

/-- Of the accepted tokens a live slot takes those up to the first terminal
one. -/
theorem acceptTokens_stops (accepted : List Token) :
    ∀ row : ExecutionRow, row.EndsOnce cfg → cfg.terminal row.generated = false → row.Latched cfg →
      (acceptTokens cfg accepted row).generated =
          row.generated ++ cfg.upToTerminal row.generated accepted ∧
        (acceptTokens cfg accepted row).EndsOnce cfg ∧ (acceptTokens cfg accepted row).Latched cfg ∧
        (acceptTokens cfg accepted row).finished = row.finished := by
  induction accepted with
  | nil =>
    intro row hends _ hlatched
    refine ⟨?_, hends, hlatched, rfl⟩
    rw [SessionConfig.upToTerminal, List.append_nil]
    rfl
  | cons token rest ih =>
    intro row hends hopen hlatched
    have hgenerated := generated_appendToken hends.counted token
    have happended := hends.append hopen token
    obtain ⟨done, hdone⟩ := updateThinkingDoneForToken_eq cfg (row.appendToken token) token
    set updated := (row.appendToken token).updateThinkingDoneForToken cfg token
    have hupdated : updated.Latched cfg :=
      (LatchedBehind.append hlatched hends.counted token).update happended.counted hgenerated
    have hchecked : updated.EndsOnce cfg := by
      rw [hdone]
      exact happended.of_tokens rfl rfl
    have hsame : updated.generated = row.generated ++ [token] := by
      rw [generated_updateThinkingDoneForToken, hgenerated]
    have hlive : updated.finished = row.finished := by
      rw [hdone]
      rfl
    have hstop : ((row.appendToken token).shouldStopAfterAcceptedToken cfg token).1 =
        cfg.terminal (row.generated ++ [token]) := by
      rw [shouldStopAfterAcceptedToken, SessionConfig.terminal, ← hsame,
        hupdated.isEffectiveEos (by rw [hsame, List.getLast?_concat]),
        length_generated hchecked.counted]
    rw [acceptTokens, SessionConfig.upToTerminal, hstop]
    split
    · exact ⟨hsame, hchecked, hupdated, hlive⟩
    · rename_i hgoes
      have hnext := ih _ hchecked (by rw [hsame]; simpa using hgoes) hupdated
      refine ⟨?_, hnext.2.1, hnext.2.2.1, hnext.2.2.2.trans hlive⟩
      rw [show ((row.appendToken token).shouldStopAfterAcceptedToken cfg token).2 =
        updated from rfl, hnext.1, hsame, List.append_assoc]
      rfl

/-- The tokens that a decode step offers to a slot. -/
def offered : SlotTokens → List Token
  | .none => []
  | .sampled token => [token]
  | .accepted tokenIds => tokenIds

/-- What a live slot takes of the tokens of a step. -/
theorem EndsOnce.taken (h : row.EndsOnce cfg) (hopen : cfg.terminal row.generated = false)
    (hlatched : row.Latched cfg) (hlive : row.finished = false) (tokens : SlotTokens) :
    (tokens.append cfg row).generated =
        row.generated ++ cfg.upToTerminal row.generated (offered tokens) ∧
      (tokens.append cfg row).EndsOnce cfg ∧ (tokens.append cfg row).LatchedBehind cfg ∧
      (tokens.append cfg row).finished = false := by
  cases tokens with
  | none =>
    refine ⟨?_, h, fun hthinking => Or.inl (hlatched hthinking), hlive⟩
    exact (List.append_nil _).symm
  | sampled token =>
    have hsampled : SlotTokens.append cfg (.sampled token) row = row.appendToken token := by
      rw [SlotTokens.append, appendSampled, hlive, if_neg Bool.false_ne_true]
    have htaken : cfg.upToTerminal row.generated [token] = [token] := by
      rw [SessionConfig.upToTerminal]
      split <;> rfl
    rw [hsampled, offered, htaken]
    exact ⟨generated_appendToken h.counted token, h.append hopen token,
      LatchedBehind.append hlatched h.counted token, hlive⟩
  | accepted tokenIds =>
    have haccepted : SlotTokens.append cfg (.accepted tokenIds) row =
        acceptTokens cfg tokenIds row := by
      rw [SlotTokens.append, appendAccepted, hlive, if_neg Bool.false_ne_true]
    have hstops := acceptTokens_stops tokenIds row h hopen hlatched
    rw [haccepted]
    refine ⟨hstops.1, hstops.2.1, fun hthinking => Or.inl (hstops.2.2.1 hthinking), ?_⟩
    rw [hstops.2.2.2, hlive]

theorem append_finished (tokens : SlotTokens) (hfinished : row.finished = true) :
    tokens.append cfg row = row := by
  cases tokens with
  | none => rfl
  | sampled token => rw [SlotTokens.append, appendSampled, if_pos hfinished]
  | accepted tokenIds => rw [SlotTokens.append, appendAccepted, if_pos hfinished]

theorem Stopping.append (h : row.Stopping cfg) (tokens : SlotTokens) :
    (tokens.append cfg row).Unchecked cfg := by
  cases hfinished : row.finished with
  | true =>
    rw [append_finished tokens hfinished]
    exact h.unchecked
  | false =>
    obtain ⟨hgenerated, hends, hlatched, hlive⟩ :=
      h.endsOnce.taken (h.open_ended hfinished) (h.live hfinished).2 hfinished tokens
    refine ⟨hends, ?_, fun _ => ⟨?_, hlatched⟩⟩
    · intro hdead
      rw [hlive] at hdead
      cases hdead
    · rw [hgenerated]
      exact List.append_ne_nil_of_left_ne_nil (h.live hfinished).1 _

theorem Unchecked.thinkingDone (h : row.Unchecked cfg) (guided : Bool) :
    (row.updateThinkingDone cfg guided).Unchecked cfg ∧
      ((row.updateThinkingDone cfg guided).finished = false →
        (row.updateThinkingDone cfg guided).Latched cfg) := by
  -- the pass changes the two latches only
  obtain ⟨done, ended, hkept⟩ := updateThinkingDone_eq cfg guided row
  have hgenerated : (row.updateThinkingDone cfg guided).generated = row.generated := by
    rw [hkept]
    rfl
  have hlatched : row.finished = false → (row.updateThinkingDone cfg guided).Latched cfg := by
    intro hlive hthinking
    obtain ⟨hne, hbehind⟩ := h.live hlive
    have hlast := List.dropLast_append_getLast hne
    have htoken : row.tokenIds.getLast? = some (row.generated.getLast hne) := by
      rw [getLast?_generated hne, List.getLast?_eq_getLast_of_ne_nil hne]
    have hupdated := hbehind.update h.endsOnce.counted hlast.symm hthinking
    have hdone : (row.updateThinkingDone cfg guided).thinkingDone =
        (row.updateThinkingDoneForToken cfg (row.generated.getLast hne)).thinkingDone := by
      rw [updateThinkingDone, hthinking, htoken, if_neg (by simp)]
      dsimp only
      split <;> rfl
    rw [hdone, hgenerated, hupdated, generated_updateThinkingDoneForToken]
  have hlive : (row.updateThinkingDone cfg guided).finished = row.finished := by rw [hkept]
  constructor
  · refine ⟨?_, ?_, ?_⟩
    · rw [hkept]
      exact h.endsOnce.of_tokens rfl rfl
    · rw [hkept]
      exact h.reason
    · rw [hlive, hgenerated]
      exact fun hopen => ⟨(h.live hopen).1, fun hthinking => Or.inl (hlatched hopen hthinking)⟩
  · rw [hlive]
    exact hlatched

theorem Unchecked.finishState (hactions : cfg.mHasActionRequest = false) (h : row.Unchecked cfg)
    (hlatched : row.finished = false → row.Latched cfg) :
    (row.updateFinishState cfg).Stopping cfg := by
  rw [updateFinishState]
  split
  · rename_i hfinished
    refine ⟨h.endsOnce, fun _ => hfinished, h.reason, ?_⟩
    rw [hfinished]
    exact (fun hlive => by cases hlive)
  · rename_i hnot
    have hlive : row.finished = false := by simpa using hnot
    obtain ⟨hne, -⟩ := h.live hlive
    have hlength := length_generated h.endsOnce.counted
    have hatEnd : row.atEnd cfg = cfg.endsWithEos row.generated := by
      have hlast := List.getLast?_eq_getLast_of_ne_nil hne
      rw [atEnd, hactions, getLast?_generated hne, hlast]
      exact (hlatched hlive).isEffectiveEos hlast
    have hfinish : ∀ reason : FinishReason, (cfg.terminal row.generated = true →
          reason = if cfg.endsWithEos row.generated then .kEndId else .kLength) →
        (row.finishWith reason).Stopping cfg := by
      intro reason hreason
      refine ⟨h.endsOnce.of_tokens rfl rfl, fun _ => rfl, ?_, (fun hlive => by cases hlive)⟩
      exact fun _ hterminal => Or.inl (hreason hterminal)
    rw [hatEnd]
    split
    · rename_i heos
      exact hfinish .kEndId fun _ => by rw [if_pos heos]
    · rename_i heos
      split
      · exact hfinish .kLength fun _ => by rw [if_neg heos]
      · rename_i hshort
        refine ⟨h.endsOnce, ?_, h.reason, fun _ => ⟨hne, hlatched hlive⟩⟩
        intro hterminal
        exfalso
        rw [SessionConfig.terminal, hlength] at hterminal
        rcases Bool.or_eq_true_iff.1 hterminal with heos' | hlong
        · exact heos heos'
        · exact hshort (of_decide_eq_true hlong)

/-- A stop match overrides the reason, or finishes the slot early. -/
theorem Stopping.stopMatch (h : row.Stopping cfg)
    (hmatched : row.slotStream.stopMatchedThisIter = true → row.stopStrings ≠ []) :
    row.applyStopMatch.Stopping cfg := by
  rw [applyStopMatch]
  split
  · rename_i hstop
    refine ⟨h.endsOnce.of_tokens rfl rfl, fun _ => rfl, ?_, (fun hlive => by cases hlive)⟩
    exact fun _ _ => Or.inr (Or.inl ⟨rfl, hmatched hstop.1⟩)
  · exact h

theorem Unchecked.decodeAndFinish (hactions : cfg.mHasActionRequest = false)
    (h : row.Unchecked cfg) (guided : Bool) : (row.decodeAndFinish cfg guided).Stopping cfg := by
  obtain ⟨hthought, hlatched⟩ :=
    (h.of_view (view_decode cfg.tokenizer row)).thinkingDone guided
  have hstopped := hthought.finishState hactions hlatched
  apply hstopped.stopMatch
  intro hmatched
  obtain ⟨done, ended, hdone⟩ := updateThinkingDone_eq cfg guided (row.decode cfg.tokenizer)
  have hstream : ∀ thought : ExecutionRow,
      (thought.updateFinishState cfg).slotStream.stopMatchedThisIter =
        thought.slotStream.stopMatchedThisIter ∧
      (thought.updateFinishState cfg).stopStrings = thought.stopStrings := by
    intro thought
    rcases updateFinishState_cases cfg thought with hsame | hfinish
    · rw [hsame]; exact ⟨rfl, rfl⟩
    · obtain ⟨reason, -, -, heq⟩ := hfinish
      rw [heq]
      exact ⟨rfl, rfl⟩
  rw [(hstream _).1, hdone] at hmatched
  rw [(hstream _).2, hdone]
  exact (congrArg FinishView.stopStrings (view_decode cfg.tokenizer row)).trans_ne
    (stopStrings_of_matched hmatched)

theorem Stopping.upTo (hactions : cfg.mHasActionRequest = false) (h : row.Stopping cfg)
    (step : SlotStep) : (step.upTo cfg row .emitted).Stopping cfg := by
  have hdecoded := ((h.observe step.rootCancelled).append step.tokens).decodeAndFinish hactions
    step.guided
  exact hdecoded.of_view (view_emit _)

/-- A slot without a generated token. -/
theorem endsOnce_of_unstarted (cfg : SessionConfig) (hcount : row.currentGenerateLength = 0) :
    row.EndsOnce cfg ∧ row.generated = [] := by
  have hnone : row.generated = [] := by
    rw [generated, hcount, Nat.sub_zero, List.drop_length]
  refine ⟨⟨?_, ?_⟩, hnone⟩
  · rw [hcount]
    exact Nat.zero_le _
  · intro k hk
    rw [hnone] at hk
    cases hk

/-- A slot with its first token, which nothing has looked at. -/
theorem unchecked_first (cfg : SessionConfig) (hcount : row.currentGenerateLength = 0) (hlive : row.finished = false)
    (hdone : row.thinkingDone = false) (token : Token) :
    (row.appendSampled token).Unchecked cfg ∧ (row.appendSampled token).finished = false ∧
      (row.appendSampled token).generated = [token] := by
  obtain ⟨hends, hnone⟩ := endsOnce_of_unstarted cfg hcount
  have hopen : cfg.terminal row.generated = false := by rw [hnone, cfg.terminal_nil]
  have hlatched : row.Latched cfg := by
    intro _
    rw [hnone, hdone]
    rfl
  have happended : row.appendSampled token = row.appendToken token := by
    rw [appendSampled, hlive, if_neg Bool.false_ne_true]
  have hgenerated : (row.appendToken token).generated = [token] := by
    rw [generated_appendToken hends.counted, hnone]
    rfl
  rw [happended]
  refine ⟨⟨hends.append hopen token, ?_, fun _ => ⟨?_, ?_⟩⟩, hlive, hgenerated⟩
  · intro hdead
    rw [show (row.appendToken token).finished = row.finished from rfl, hlive] at hdead
    cases hdead
  · rw [hgenerated]
    exact List.cons_ne_nil _ _
  · exact LatchedBehind.append hlatched hends.counted token

theorem Fresh.unchecked (hdiffusion : cfg.isDiffusionBackbone = false) (h : row.Fresh cfg) :
    row.Unchecked cfg ∧ (row.finished = false → row.generated.length = 1) := by
  obtain ⟨founder, skip, hfirst, rfl⟩ := h
  rw [hdiffusion] at hfirst
  obtain ⟨token, htoken⟩ := Option.isSome_iff_exists.1 hfirst
  rw [GenerationSession.Founder.row, htoken]
  cases founder.guideFailed with
  | true =>
    have hstart : ((founder.seed.founderRow skip).finishWith .kError).currentGenerateLength = 0 :=
      rfl
    obtain ⟨hends, hnone⟩ := endsOnce_of_unstarted cfg hstart
    refine ⟨⟨hends, ?_, (fun hlive => by cases hlive)⟩, (fun hlive => by cases hlive)⟩
    intro _ hterminal
    have hsame : cfg.terminal ((founder.seed.founderRow skip).finishWith .kError).generated =
        true := hterminal
    rw [hnone, cfg.terminal_nil] at hsame
    cases hsame
  | false =>
    have hcount : (founder.seed.founderRow skip).currentGenerateLength = 0 := rfl
    have hstarted := unchecked_first cfg hcount rfl rfl token
    exact ⟨hstarted.1, fun _ => congrArg List.length hstarted.2.2⟩

theorem Fresh.primed_stopping (hdiffusion : cfg.isDiffusionBackbone = false)
    (hactions : cfg.mHasActionRequest = false) (h : row.Fresh cfg) {step : SlotStep}
    (htokens : step.tokens = .none) : (row.observe step.rootCancelled).Unchecked cfg ∧
      (step.upTo cfg row .emitted).Stopping cfg := by
  obtain ⟨hunchecked, hone⟩ := h.unchecked hdiffusion
  have hobserved := hunchecked.observe step.rootCancelled fun hlive _ => hone hlive
  have hdecoded := hobserved.decodeAndFinish hactions step.guided
  refine ⟨hobserved, ?_⟩
  show (((step.tokens.append cfg (row.observe step.rootCancelled)).decodeAndFinish cfg
    step.guided).emit).Stopping cfg
  rw [htokens]
  exact hdecoded.of_view (view_emit _)

/-- The first token of a joiner goes through the same decisions. -/
theorem finishLookahead_stopping (h : row.Unchecked cfg) (hlive : row.finished = false)
    {token : Token} (hgenerated : row.generated = [token]) :
    (GenerationSession.finishLookahead cfg row token).Stopping cfg := by
  have hupdated := (h.live hlive).2.update h.endsOnce.counted
    (show row.generated = [] ++ [token] from hgenerated)
  obtain ⟨done, hdone⟩ := updateThinkingDoneForToken_eq cfg row token
  set updated := row.updateThinkingDoneForToken cfg token
  have hgen := generated_updateThinkingDoneForToken cfg row token
  have hlength := length_generated h.endsOnce.counted
  have heos : updated.isEffectiveEos cfg token = cfg.endsWithEos row.generated := by
    rw [hupdated.isEffectiveEos (by rw [hgen, hgenerated]; rfl), hgen]
  have hends : updated.EndsOnce cfg := by
    rw [hdone]
    exact h.endsOnce.of_tokens rfl rfl
  have hopen : updated.finished = false := by
    rw [hdone]
    exact hlive
  have hcount : updated.currentGenerateLength = row.generated.length := by
    rw [hdone, hlength]
  have hfinish : ∀ reason : FinishReason, (cfg.terminal row.generated = true →
        reason = if cfg.endsWithEos row.generated then .kEndId else .kLength) →
      (updated.finishWith reason).Stopping cfg := by
    intro reason hreason
    refine ⟨hends.of_tokens rfl rfl, fun _ => rfl, ?_, (fun hlive => by cases hlive)⟩
    intro _ hterminal
    rw [show (updated.finishWith reason).generated = row.generated from hgen] at hterminal ⊢
    exact Or.inl (hreason hterminal)
  rw [GenerationSession.finishLookahead, hopen, if_neg Bool.false_ne_true, heos, hcount]
  split
  · rename_i hend
    exact hfinish .kEndId fun _ => by rw [if_pos hend]
  · rename_i hend
    split
    · exact hfinish .kLength fun _ => by rw [if_neg hend]
    · rename_i hshort
      refine ⟨hends, ?_, ?_, fun _ => ⟨?_, hupdated⟩⟩
      · intro hterminal
        exfalso
        rw [hgen, SessionConfig.terminal] at hterminal
        rcases Bool.or_eq_true_iff.1 hterminal with hend' | hlong
        · exact hend hend'
        · exact hshort (of_decide_eq_true hlong)
      · rw [hopen]
        exact (fun hdead => by cases hdead)
      · rw [hgen, hgenerated]
        exact List.cons_ne_nil _ _

/-- A failed seating finishes the slot, at the latest with its first token. -/
theorem finishWith_kError_stopping (hends : row.EndsOnce cfg) (hone : row.generated.length ≤ 1) :
    (row.finishWith .kError).Stopping cfg := by
  refine ⟨hends.of_tokens rfl rfl, fun _ => rfl, ?_, (fun hlive => by cases hlive)⟩
  intro _ hterminal
  have hsame : (row.finishWith .kError).generated = row.generated := rfl
  rw [hsame] at hterminal
  refine Or.inr (Or.inr ⟨Or.inr rfl, ?_⟩)
  rw [hsame]
  cases hgenerated : row.generated with
  | nil =>
    rw [hgenerated, cfg.terminal_nil] at hterminal
    cases hterminal
  | cons token rest =>
    rw [hgenerated] at hone
    exact Nat.le_antisymm hone (by simp)

theorem Pending.seated_stopping (h : row.Pending) (outcome : PrefillOutcome)
    (finalize : FinalizeOutcome) :
    (GenerationSession.seatedRow cfg outcome finalize row).EndsOnce cfg ∧
      ∀ decision, GenerationSession.seatedExit cfg outcome finalize = .ok decision →
        (GenerationSession.seatedRow cfg outcome finalize row).Stopping cfg := by
  obtain ⟨seed, skip, rfl⟩ := h
  have hcount : (seed.joinerRow skip).currentGenerateLength = 0 := rfl
  have hnone := endsOnce_of_unstarted cfg hcount
  have hfirst := unchecked_first cfg hcount rfl rfl
  have happended : ∀ token : Option Token,
      ((token.map (seed.joinerRow skip).appendSampled).getD (seed.joinerRow skip)).EndsOnce cfg ∧
      ((token.map (seed.joinerRow skip).appendSampled).getD
        (seed.joinerRow skip)).generated.length ≤ 1 := by
    intro token
    cases token with
    | none => exact ⟨hnone.1, by rw [Option.map_none, Option.getD_none, hnone.2]; exact Nat.zero_le _⟩
    | some token =>
      exact ⟨(hfirst token).1.endsOnce, Nat.le_of_eq (congrArg List.length (hfirst token).2.2)⟩
  cases outcome with
  | threw token => exact ⟨(happended token).1, (fun decision hexit => by cases hexit)⟩
  | failed token =>
    have hstopped := finishWith_kError_stopping (happended token).1 (happended token).2
    exact ⟨hstopped.endsOnce, fun _ _ => hstopped⟩
  | prefilled token =>
    have hlookahead := finishLookahead_stopping (hfirst token).1 (hfirst token).2.1
      (hfirst token).2.2
    simp only [GenerationSession.seatedRow, GenerationSession.seatedExit]
    split
    · cases finalize with
      | threw => exact ⟨(hfirst token).1.endsOnce, (fun decision hexit => by cases hexit)⟩
      | failed =>
        have hstopped := finishWith_kError_stopping (hfirst token).1.endsOnce
          (Nat.le_of_eq (congrArg List.length (hfirst token).2.2))
        exact ⟨hstopped.endsOnce, fun _ _ => hstopped⟩
      | finalized => exact ⟨hlookahead.endsOnce, fun _ _ => hlookahead⟩
    · exact ⟨hlookahead.endsOnce, fun _ _ => hlookahead⟩

theorem Lives.stopping (hdiffusion : cfg.isDiffusionBackbone = false)
    (hactions : cfg.mHasActionRequest = false) (h : row.Lives cfg) : row.Stopping cfg := by
  apply h.induct
  · intro skip start hlegal
    cases start with
    | founded founder primed =>
      have hfresh : (founder.row skip).Fresh cfg := ⟨founder, skip, hlegal.1, rfl⟩
      show (if cfg.isDiffusionBackbone = true then _ else _ : ExecutionRow).Stopping cfg
      rw [hdiffusion, if_neg Bool.false_ne_true]
      exact (hfresh.primed_stopping hdiffusion hactions hlegal.2).2
    | seated seed outcome finalize =>
      obtain ⟨decision, hexit⟩ := hlegal
      have hpending : (seed.joinerRow skip).Pending := ⟨seed, skip, rfl⟩
      exact (hpending.seated_stopping outcome finalize).2 decision hexit
  · intro row event hstopping
    cases event with
    | step slotStep => exact hstopping.upTo hactions slotStep
    | cancel => exact hstopping.of_view (view_cancel row)

/-- Also a slot whose session was given up has no terminal token but the last
one. -/
theorem Torn.endsOnce (hdiffusion : cfg.isDiffusionBackbone = false)
    (hactions : cfg.mHasActionRequest = false) (h : row.Torn cfg) : row.EndsOnce cfg := by
  cases h with
  | fresh h => exact (h.unchecked hdiffusion).1.endsOnce
  | pending h =>
    obtain ⟨seed, skip, rfl⟩ := h
    exact (endsOnce_of_unstarted cfg rfl).1
  | seated seed skip outcome finalize =>
    have hpending : (seed.joinerRow skip).Pending := ⟨seed, skip, rfl⟩
    exact (hpending.seated_stopping outcome finalize).1
  | @primed row h step hprimed stage =>
    obtain ⟨hobserved, hemitted⟩ := h.primed_stopping hdiffusion hactions hprimed
    cases stage with
    | observed => exact hobserved.endsOnce
    | appended =>
      show (step.tokens.append cfg _).EndsOnce cfg
      rw [hprimed]
      exact hobserved.endsOnce
    | decoded =>
      show ((step.tokens.append cfg _).decodeAndFinish cfg step.guided).EndsOnce cfg
      rw [hprimed]
      exact (hobserved.decodeAndFinish hactions step.guided).endsOnce
    | emitted => exact hemitted.endsOnce
  | lives h => exact (h.stopping hdiffusion hactions).endsOnce
  | @step row h step stage =>
    have hstopping := h.stopping hdiffusion hactions
    have hobserved := hstopping.observe step.rootCancelled
    have happended := hobserved.append step.tokens
    cases stage with
    | observed => exact hobserved.endsOnce
    | appended => exact happended.endsOnce
    | decoded => exact (happended.decodeAndFinish hactions step.guided).endsOnce
    | emitted => exact (hstopping.upTo hactions step).endsOnce

/-- Effective end tokens come last, the limit is kept, and a slot with its terminal
token is finished for a fitting reason. -/
structure Stops (cfg : SessionConfig) (row : ExecutionRow) : Prop where
  eosLast : ∀ k, k < row.generated.length → cfg.endsWithEos (row.generated.take k) = false
  bounded : row.generated.length ≤ cfg.maxGenerateLength
  finished : cfg.terminal row.generated = true → row.finished = true ∧ row.ReasonFits cfg

theorem EndsOnce.eosLast (h : row.EndsOnce cfg) (k : Nat) (hk : k < row.generated.length) :
    cfg.endsWithEos (row.generated.take k) = false :=
  (Bool.or_eq_false_iff.1 (h.before k hk)).1

theorem EndsOnce.bounded (h : row.EndsOnce cfg) : row.generated.length ≤ cfg.maxGenerateLength := by
  by_contra hlong
  have hlast := h.before cfg.maxGenerateLength (by omega)
  rw [SessionConfig.terminal, List.length_take, Nat.min_eq_left (by omega)] at hlast
  simp at hlast

theorem Stopping.stops (h : row.Stopping cfg) : row.Stops cfg where
  eosLast := h.endsOnce.eosLast
  bounded := h.endsOnce.bounded
  finished := fun hterminal => ⟨h.finished hterminal, h.reason (h.finished hterminal)⟩

/-- A pending joiner, or a slot at a step boundary. -/
structure Ready (cfg : SessionConfig) (row : ExecutionRow) : Prop where
  stops : row.Stops cfg
  takes : row.finished = false → ∀ tokens : SlotTokens,
    (tokens.append cfg row).generated =
      row.generated ++ cfg.upToTerminal row.generated (offered tokens)

theorem Stopping.ready (h : row.Stopping cfg) : row.Ready cfg where
  stops := h.stops
  takes := fun hlive tokens =>
    (h.endsOnce.taken (h.open_ended hlive) (h.live hlive).2 hlive tokens).1

theorem Pending.ready (h : row.Pending) : row.Ready cfg := by
  obtain ⟨seed, skip, rfl⟩ := h
  have hcount : (seed.joinerRow skip).currentGenerateLength = 0 := rfl
  obtain ⟨hends, hnone⟩ := endsOnce_of_unstarted cfg hcount
  have hopen : cfg.terminal (seed.joinerRow skip).generated = false := by
    rw [hnone, cfg.terminal_nil]
  have hlatched : (seed.joinerRow skip).Latched cfg := by
    intro _
    rw [hnone]
    rfl
  refine ⟨⟨hends.eosLast, hends.bounded, ?_⟩, fun hlive tokens =>
    (hends.taken hopen hlatched hlive tokens).1⟩
  intro hterminal
  rw [hopen] at hterminal
  cases hterminal

end Stages

end ExecutionRow

namespace GenerationSession

open ExecutionRow

/-- Generation stops at the first terminal token: in every session between two
operations, in every result that was filed, and, but for the finish pass, in a
session that was given up. -/
theorem generation_stops (cfg : SessionConfig) (founders : List Founder)
    (skipSpecialTokens : Bool) (hdiffusion : cfg.isDiffusionBackbone = false)
    (hactions : cfg.mHasActionRequest = false) (hprefilled : Prefilled cfg founders) :
    (∀ s, Reached cfg founders skipSpecialTokens s →
      (∀ row ∈ s.rows, row.Ready cfg) ∧
      ∀ result ∈ s.completedBatches, ∃ (row : ExecutionRow) (generationRound : Nat),
        row.Stops cfg ∧ row.finished = true ∧ result.2 = resultOf generationRound row) ∧
    ∀ s, Abandoned cfg founders skipSpecialTokens s → ∀ row ∈ s.rows,
      (∀ k, k < row.generated.length → cfg.endsWithEos (row.generated.take k) = false) ∧
        row.generated.length ≤ cfg.maxGenerateLength := by
  constructor
  · intro s hreached
    have halive := hreached.alive hprefilled
    constructor
    · intro row hmem
      obtain ⟨i, hi⟩ := List.mem_iff_getElem?.1 hmem
      have hrow := halive.rows i row hi
      split at hrow
      · exact hrow.ready
      · exact (hrow.stopping hdiffusion hactions).ready
    · intro result hmem
      obtain ⟨row, generationRound, hlives, hfinished, hresult⟩ := halive.filed result hmem
      exact ⟨row, generationRound, (hlives.stopping hdiffusion hactions).stops, hfinished, hresult⟩
  · intro s habandoned row hmem
    have hends := ((habandoned.givenUp hprefilled).rows row hmem).endsOnce hdiffusion hactions
    exact ⟨hends.eosLast, hends.bounded⟩

/-- A step that accepts tokens behind an end token. -/
def acceptedRun : GenerationSession :=
  (call (shortSession true) (.advance { tokens := .accepted fun _ => [67, 0, 68] })
    (primeFromPrefill (shortSession true) {}
      (found [⟨streamedSeed 0, some 66, false⟩] true)).2).2

theorem generation_stops_accepted :
    acceptedRun.completedBatches.length = 1 ∧ ∀ result ∈ acceptedRun.completedBatches,
      ∃ (row : ExecutionRow) (generationRound : Nat), row.Stops (shortSession true) ∧
        row.finished = true ∧ result.2 = resultOf generationRound row := by
  refine ⟨by decide +kernel, ?_⟩
  have hprefilled : Prefilled (shortSession true) [⟨streamedSeed 0, some 66, false⟩] := by
    intro founder hmem
    rw [List.mem_singleton.1 hmem]
    rfl
  have hprimed : Reached (shortSession true) [⟨streamedSeed 0, some 66, false⟩] true
      (primeFromPrefill (shortSession true) {}
        (found [⟨streamedSeed 0, some 66, false⟩] true)).2 := @Reached.primed _ _ _ {} _ rfl
  have hstepped := @Reached.step _ _ _ (.advance { tokens := .accepted fun _ => [67, 0, 68] }) _ _
    hprimed trivial rfl
  exact ((generation_stops (shortSession true) _ true rfl rfl hprefilled).1 _ hstepped).2

/-- The reason may be another one: a stop string matches in the step of the terminal
token, a founder is cancelled or a joiner's admission fails once the first token
is there.  A joiner whose fused admission throws after its token was appended is
not finished at all. -/
theorem terminalToken_otherReason :
    ((run (shortSession true)
        [⟨{ streamedSeed 0 with stopStrings := [[67]] }, some 66, false⟩] true
        (some ({}, [.advance { tokens := .accepted fun _ => [67, 0, 68] }]))).completedBatches.map
        fun result => (result.2.tokenIds, result.2.terminalReason)) =
      [([65, 66, 67, 0], .kStopWords)] ∧
    ((run (shortSession true) [⟨streamedSeed 0, some 0, false⟩] true
        (some ({ rootCancelled := some fun _ => true }, []))).completedBatches.map
        fun result => (result.2.tokenIds, result.2.terminalReason)) =
      [([65, 0], .kCancelled)] ∧
    ((run (shortSession true) [⟨streamedSeed 0, some 66, false⟩] true
        (some ({}, [.seatAdmission (streamedSeed 1) true (.prefilled 0) .failed,
          .advance { tokens := .sampled fun _ => 67 }]))).completedBatches.map
        fun result => (result.2.tokenIds, result.2.terminalReason)) =
      [([65, 0], .kError)] ∧
    ((run (shortSession true) [⟨streamedSeed 0, some 66, false⟩] true
        (some ({}, [.seatAdmission (streamedSeed 1) true (.prefilled 0) .threw,
          .advance { tokens := .sampled fun _ => 67 }]))).rows.map ExecutionRow.generated) =
      [[66, 67], [0, 67]] := by
  decide +kernel

end GenerationSession

end EdgeLLM.Ports.Generation
