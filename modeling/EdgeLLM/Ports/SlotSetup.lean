import EdgeLLM.Ports.StreamDelivery
import EdgeLLM.Verified.Relabel
import Mathlib.Data.Finmap

/-!
# The slot of a founder and of a joiner

What `beginGeneration` sets up for a founding sequence, and what
`buildAdmissionIntent`, `reserveAdmission` and `seatSlot` set up for the same
sequence when it joins a batch.
-/

namespace EdgeLLM.Ports.Generation

open Utf8 (Bytes)
open Verified
open GenerationSession (shortSession)

/-- A sparse logit bias: `unordered_map<int32_t, float>` in its order of iteration,
the values as the bits of the floats. -/
abbrev LogitBias : Type := AList fun _ : Token => UInt32

/-! ## The vocabulary map -/

/-- The loop of `setLogitBiasVocabMap` from reduced id `reducedTokenId` on. -/
def fillVocabMap : Nat → List Int → List Int → Option (List Int)
  | _, [], fullToReduced => some fullToReduced
  | reducedTokenId, fullTokenId :: rest, fullToReduced =>
    if 0 ≤ fullTokenId ∧ fullTokenId.toNat < fullToReduced.length then
      fillVocabMap (reducedTokenId + 1) rest
        (fullToReduced.set fullTokenId.toNat reducedTokenId)
    else none

/-- The entries of a full-to-reduced map are ids of a reduced-to-full map. -/
def Inverts (reducedToFull fullToReduced : List Int) : Prop :=
  ∀ (full : Nat) (reduced : Int), 0 ≤ reduced → fullToReduced[full]? = some reduced →
    reducedToFull[reduced.toNat]? = some (full : Int)

theorem fillVocabMap_inverts (rest : List Int) :
    ∀ (done fullToReduced result : List Int), Inverts done fullToReduced →
      fillVocabMap done.length rest fullToReduced = some result → Inverts (done ++ rest) result := by
  induction rest with
  | nil =>
    intro done fullToReduced result h hfill
    rw [fillVocabMap, Option.some.injEq] at hfill
    rw [← hfill, List.append_nil]
    exact h
  | cons fullTokenId rest ih =>
    intro done fullToReduced result h hfill
    rw [fillVocabMap] at hfill
    split at hfill
    · rename_i hin
      have hnext : Inverts (done ++ [fullTokenId])
          (fullToReduced.set fullTokenId.toNat done.length) := by
        intro full reduced hpos hget
        rw [List.getElem?_set] at hget
        split at hget
        · rename_i heq
          rw [if_pos (by omega), Option.some.injEq] at hget
          rw [← hget, Int.toNat_natCast, List.getElem?_append_right (Nat.le_refl _), Nat.sub_self,
            ← heq, Int.toNat_of_nonneg hin.1]
          rfl
        · have hold := h full reduced hpos hget
          rw [List.getElem?_append_left (List.getElem?_eq_some_iff.1 hold).1]
          exact hold
      have hall := ih (done ++ [fullTokenId]) _ result hnext
        (by rw [List.length_append]; exact hfill)
      rw [List.append_assoc] at hall
      exact hall
    · cases hfill

/-- `fullToReducedVocabMap`: -1 for a token that is not in the reduced vocabulary;
empty where the output vocabulary is the full one. -/
structure VocabMap where
  fullToReducedVocabMap : List Int := []
  injective : ∀ (i j : Nat) (reduced : Int), 0 ≤ reduced →
    fullToReducedVocabMap[i]? = some reduced → fullToReducedVocabMap[j]? = some reduced →
      i = j := by simp

/-- `setLogitBiasVocabMap`; `none` is a failed check. -/
def setLogitBiasVocabMap (reducedToFullVocabMap : List Int) (fullVocabSize : Nat) :
    Option VocabMap :=
  match hfill : fillVocabMap 0 reducedToFullVocabMap (List.replicate fullVocabSize (-1)) with
  | none => none
  | some fullToReduced => some
      { fullToReducedVocabMap := fullToReduced
        injective := by
          have hnone : Inverts [] (List.replicate fullVocabSize (-1)) := by
            intro full reduced hpos hget
            rw [List.getElem?_replicate] at hget
            split at hget
            · cases hget
              omega
            · cases hget
          have hinverts := fillVocabMap_inverts reducedToFullVocabMap [] _ _ hnone hfill
          intro i j reduced hpos hi hj
          have hboth := (hinverts i reduced hpos hi).symm.trans (hinverts j reduced hpos hj)
          exact Int.ofNat.inj (Option.some.inj hboth) }

/-! ## Logit bias -/

/-- The id of a token in the output vocabulary; `none` where it has none. -/
def VocabMap.outputToken (vocabMap : VocabMap) (fullTokenId : Token) : Option Token :=
  if vocabMap.fullToReducedVocabMap = [] then some fullTokenId
  else if 0 ≤ fullTokenId then
    match vocabMap.fullToReducedVocabMap[fullTokenId.toNat]? with
    | some reducedTokenId => if reducedTokenId < 0 then none else some reducedTokenId
    | none => none
  else none

/-- The token passes the check of `prepareLogitBias`. -/
def VocabMap.inVocab (vocabMap : VocabMap) (fullTokenId : Token) : Bool :=
  vocabMap.fullToReducedVocabMap.isEmpty ||
    (decide (0 ≤ fullTokenId) &&
      decide (fullTokenId.toNat < vocabMap.fullToReducedVocabMap.length))

/-- The loop of `prepareLogitBias` over the bias of one request; `none` is its failed
check. -/
def fillLogitBias (vocabMap : VocabMap) :
    List (Sigma fun _ : Token => UInt32) → LogitBias → Option LogitBias
  | [], destination => some destination
  | ⟨fullTokenId, bias⟩ :: rest, destination =>
    if vocabMap.inVocab fullTokenId then
      match vocabMap.outputToken fullTokenId with
      | none => fillLogitBias vocabMap rest destination
      | some outputTokenId => fillLogitBias vocabMap rest (destination.insert outputTokenId bias)
    else none

/-- `prepareLogitBias`, for one slot. -/
def prepareLogitBias (vocabMap : VocabMap) (logitBias : LogitBias) : Option LogitBias :=
  fillLogitBias vocabMap logitBias.entries ∅

theorem VocabMap.relabels (vocabMap : VocabMap) : Relabels vocabMap.outputToken := by
  intro a b new ha hb
  rw [outputToken] at ha hb
  split at ha
  · rename_i hfull
    rw [if_pos hfull] at hb
    exact Option.some.inj (ha.trans hb.symm)
  · rename_i hreduced
    rw [if_neg hreduced] at hb
    split at ha
    · rename_i hapos
      split at hb
      · rename_i hbpos
        cases hagot : vocabMap.fullToReducedVocabMap[a.toNat]? with
        | none =>
          rw [hagot] at ha
          cases ha
        | some reduced =>
          cases hbgot : vocabMap.fullToReducedVocabMap[b.toNat]? with
          | none =>
            rw [hbgot] at hb
            cases hb
          | some reduced' =>
            rw [hagot] at ha
            rw [hbgot] at hb
            dsimp only at ha hb
            split at ha
            · cases ha
            · rename_i hpos
              split at hb
              · cases hb
              · rw [Option.some.injEq] at ha hb
                rw [← hb] at ha
                rw [ha] at hagot hpos
                have hsame := vocabMap.injective _ _ _ (by omega) hagot hbgot
                rw [← Int.toNat_of_nonneg hapos, hsame, Int.toNat_of_nonneg hbpos]
      · cases hb
    · cases ha

theorem fillLogitBias_entries {vocabMap : VocabMap}
    (entries : List (Sigma fun _ : Token => UInt32)) : ∀ destination result : LogitBias,
      (relabel vocabMap.outputToken entries ++ destination.entries).NodupKeys →
      fillLogitBias vocabMap entries destination = some result →
      result.entries.Perm (relabel vocabMap.outputToken entries ++ destination.entries) := by
  induction entries with
  | nil =>
    intro destination result _ hfill
    rw [fillLogitBias, Option.some.injEq] at hfill
    rw [hfill]
    exact List.Perm.refl _
  | cons entry rest ih =>
    intro destination result hnodup hfill
    rw [fillLogitBias] at hfill
    split at hfill
    · rw [relabel, List.filterMap_cons] at hnodup ⊢
      cases hnew : vocabMap.outputToken entry.1 with
      | none =>
        rw [hnew] at hfill hnodup
        exact ih destination result hnodup hfill
      | some outputTokenId =>
        rw [hnew] at hfill hnodup
        dsimp only [Option.map_some] at hfill hnodup ⊢
        rw [List.cons_append, List.nodupKeys_cons] at hnodup
        have hfresh : outputTokenId ∉ destination := by
          intro hmem
          apply hnodup.1
          rw [List.keys, List.map_append, List.mem_append]
          exact Or.inr hmem
        have hentries : (destination.insert outputTokenId entry.2).entries =
            ⟨outputTokenId, entry.2⟩ :: destination.entries :=
          AList.entries_insert_of_notMem hfresh
        have hmove : (relabel vocabMap.outputToken rest ++
            (destination.insert outputTokenId entry.2).entries).Perm
            (⟨outputTokenId, entry.2⟩ ::
              (relabel vocabMap.outputToken rest ++ destination.entries)) := by
          rw [hentries]
          exact List.perm_middle
        apply (ih _ _ _ hfill).trans hmove
        rw [List.perm_nodupKeys hmove, List.nodupKeys_cons]
        exact hnodup
    · cases hfill

/-- The bias of a founder: the bias of the request under the ids of the output
vocabulary. -/
theorem mem_prepareLogitBias {vocabMap : VocabMap} {logitBias result : LogitBias}
    (h : prepareLogitBias vocabMap logitBias = some result) {new : Token} {bias : UInt32} :
    ⟨new, bias⟩ ∈ result.entries ↔
      ∃ token, ⟨token, bias⟩ ∈ logitBias.entries ∧ vocabMap.outputToken token = some new := by
  have hperm := fillLogitBias_entries logitBias.entries ∅ result
    (by
      rw [AList.empty_entries, List.append_nil]
      exact nodupKeys_relabel vocabMap.relabels logitBias.nodupKeys) h
  rw [AList.empty_entries, List.append_nil] at hperm
  rw [hperm.mem_iff, mem_relabel]

theorem prepareLogitBias_eq_iff {vocabMap : VocabMap} {logitBias result : LogitBias}
    (h : prepareLogitBias vocabMap logitBias = some result) : result.toFinmap = logitBias.toFinmap ↔
      ∀ token bias, ⟨token, bias⟩ ∈ logitBias.entries →
        ∃ new, vocabMap.outputToken token = some new ∧ ⟨new, bias⟩ ∈ logitBias.entries := by
  have hperm := fillLogitBias_entries logitBias.entries ∅ result
    (by
      rw [AList.empty_entries, List.append_nil]
      exact nodupKeys_relabel vocabMap.relabels logitBias.nodupKeys) h
  rw [AList.empty_entries, List.append_nil] at hperm
  rw [AList.toFinmap_eq, ← relabel_perm_iff vocabMap.relabels logitBias.nodupKeys]
  exact ⟨hperm.symm.trans, hperm.trans⟩

/-! ## Requests -/

def kDefaultSamplingSeed : UInt64 := 0xED6E5EED20260001

def kMaxLogitBiasTokens : Nat := 1024

/-- A request of one sequence, as far as its slot depends on it. -/
structure SequenceRequest where
  messages : List Bytes := []
  preTokenizedInputIds : List Token := []
  /-- The request has image or audio buffers. -/
  hasMedia : Bool := false
  stopStrings : List Bytes := []
  logitBias : LogitBias := ∅
  itemSamplingSeed : Option UInt64 := none
  samplingSeed : Option UInt64 := none
  channel : Option ChannelSettings := none
  skipSpecialTokens : Bool := true
  guidedDecoding : Bool := false
  pastTrajectory : Bool := false

/-- What a deployment makes of requests: its vocabularies, and its tokenizer, chat
template and encoders. -/
structure Deployment where
  vocabMap : VocabMap := {}
  vocabSize : Nat
  outputVocabSize : Nat
  encode : Bytes → List Token
  /-- The template on messages; `none` is an error. -/
  chatTemplate : List Bytes → Option Bytes
  /-- The preprocessing of the media of a request, with its formatted prompt. -/
  preprocessMedia : Bytes → Option (List Token)
  /-- A float that a bias may have: finite and within the limits. -/
  validBias : UInt32 → Bool
  reasoningClosedInPrompt : List Token → Bool
  mVisualPruner : Bool := false

/-- What a joiner shares with the request that founded its batch. -/
structure Resident where
  skipSpecialTokens : Bool
  hasExplicitSamplingSeed : Bool
  guidedDecoding : Bool := false

/-- The state of one slot before its prefill. -/
structure SlotSetup where
  row : ExecutionRow
  callbackEmittedTokenCount : Nat
  committedLength : Nat
  samplingSeed : UInt64
  useRequestStableSampling : Bool
  logitBias : Finmap fun _ : Token => UInt32

/-- `ChatTemplate::apply`. -/
def Deployment.applyTemplate (deployment : Deployment) (messages : List Bytes) : Option Bytes :=
  if messages = [] then none else deployment.chatTemplate messages

namespace SequenceRequest

/-- The sequence brings or inherits a seed of its own. -/
def hasExplicitSamplingSeed (request : SequenceRequest) : Bool :=
  request.samplingSeed.isSome || request.itemSamplingSeed.isSome

/-- The seed of the sequence, else that of the request, else the default. -/
def resolvedSamplingSeed (request : SequenceRequest) : UInt64 :=
  request.itemSamplingSeed.getD (request.samplingSeed.getD kDefaultSamplingSeed)

/-- What the sequence brings to its slot, with the grammar of a guided one. -/
def slotSeed (request : SequenceRequest) (deployment : Deployment) (promptTokenIds : List Token)
    (prefillStart : Nat) (originalIndex : Int) : SlotSeed where
  promptTokenIds := promptTokenIds
  prefillStart := prefillStart
  stopStrings := request.stopStrings
  channel := request.channel
  originalIndex := originalIndex
  hasGrammar := request.guidedDecoding
  guidedReasoningEnded :=
    request.guidedDecoding && deployment.reasoningClosedInPrompt promptTokenIds

/-- `validateRequestConfig`, for one sequence. -/
def validateRequestConfig (request : SequenceRequest) (deployment : Deployment) : Bool :=
  !(request.messages.isEmpty && request.preTokenizedInputIds.isEmpty) &&
    decide (request.logitBias.entries.length ≤ kMaxLogitBiasTokens) &&
    request.logitBias.entries.all fun entry =>
      decide (0 ≤ entry.1) && decide (entry.1 < deployment.vocabSize) &&
        deployment.validBias entry.2

/-- `prepareRequestState`: the formatted prompt, and the prompt as tokens. -/
def prepareRequestState (request : SequenceRequest) (deployment : Deployment) :
    Option (Bytes × List Token) :=
  if request.preTokenizedInputIds ≠ [] ∧ request.messages = [] then
    some ([], request.preTokenizedInputIds)
  else
    match deployment.applyTemplate request.messages with
    | none => none
    | some formatted =>
      if request.preTokenizedInputIds ≠ [] then some (formatted, request.preTokenizedInputIds)
      else if deployment.encode formatted = [] then none
      else some (formatted, deployment.encode formatted)

/-- The prompt that a founder starts from. -/
def founderPrompt (request : SequenceRequest) (deployment : Deployment) : Option (List Token) :=
  match request.prepareRequestState deployment with
  | none => none
  | some prepared =>
    if request.hasMedia then deployment.preprocessMedia prepared.1 else some prepared.2

/-- `beginGeneration`, up to the prefill. -/
def beginGeneration (request : SequenceRequest) (deployment : Deployment) (prefillStart : Nat)
    (originalIndex : Int) : Option SlotSetup :=
  if request.validateRequestConfig deployment = true then
    match request.founderPrompt deployment, prepareLogitBias deployment.vocabMap request.logitBias
    with
    | some promptTokenIds, some logitBias =>
      if prefillStart < promptTokenIds.length then
        let seed := request.slotSeed deployment promptTokenIds prefillStart originalIndex
        some
          { row := seed.founderRow request.skipSpecialTokens
            callbackEmittedTokenCount := seed.workingTokens.length
            committedLength := prefillStart
            samplingSeed := request.resolvedSamplingSeed
            useRequestStableSampling := request.hasExplicitSamplingSeed
            logitBias := logitBias.toFinmap }
      else none
    | _, _ => none
  else none

/-- The request may share a step with the resident one. -/
def headMayJoin (request : SequenceRequest) (resident : Resident) : Bool :=
  resident.skipSpecialTokens == request.skipSpecialTokens &&
    resident.hasExplicitSamplingSeed == request.hasExplicitSamplingSeed &&
    !(resident.guidedDecoding || request.guidedDecoding) && !request.pastTrajectory

/-- The prompt of `buildAdmissionIntent`. -/
def joinerPrompt (request : SequenceRequest) (deployment : Deployment) : Option (List Token) :=
  if request.hasMedia then
    -- a founder prunes its media tokens, so that media founds its own batch
    if deployment.mVisualPruner then none
    else
      match deployment.applyTemplate request.messages with
      | none => none
      | some formatted => deployment.preprocessMedia formatted
  else if request.preTokenizedInputIds ≠ [] then some request.preTokenizedInputIds
  else
    match deployment.applyTemplate request.messages with
    | none => none
    | some formatted => some (deployment.encode formatted)

/-- `buildAdmissionIntent`, `reserveAdmission` and `seatSlot`. -/
def seatSlot (request : SequenceRequest) (deployment : Deployment) (resident : Resident)
    (prefillStart : Nat) (originalIndex : Int) : Option SlotSetup :=
  if request.headMayJoin resident = true then
    match request.joinerPrompt deployment with
    | none => none
    | some promptTokenIds =>
      if prefillStart < promptTokenIds.length then
        let seed := request.slotSeed deployment promptTokenIds prefillStart originalIndex
        some
          { row := seed.joinerRow resident.skipSpecialTokens
            callbackEmittedTokenCount := seed.workingTokens.length
            committedLength := prefillStart
            samplingSeed := request.resolvedSamplingSeed
            useRequestStableSampling := resident.hasExplicitSamplingSeed
            -- the bias of the request, as it is
            logitBias := request.logitBias.toFinmap }
      else none
  else none

end SequenceRequest

namespace SlotSetup

/-- `applyLogitBias` on the logits of one slot; ids outside the output vocabulary are
skipped.  The addition of a bias is a parameter. -/
def biasedLogits {Logit : Type} (addBias : Logit → UInt32 → Logit) (outputVocabSize : Nat)
    (setup : SlotSetup) (logits : Token → Logit) (token : Token) : Logit :=
  if 0 ≤ token ∧ token < outputVocabSize then
    match setup.logitBias.lookup token with
    | some bias => addBias (logits token) bias
    | none => logits token
  else logits token

/-- `requestStableNextAbsolutePosition`. -/
def nextAbsolutePosition (setup : SlotSetup) (generatedTokenCount : Nat) : Nat :=
  setup.row.rawBatchedInputIds.length + generatedTokenCount

/-- The next token that is sampled for the slot.  How a token is drawn from the biased
logits, with a stable seed and position or without, is a parameter. -/
def sampledToken {Logit : Type} (addBias : Logit → UInt32 → Logit)
    (draw : Option (UInt64 × Nat) → (Token → Logit) → Token) (outputVocabSize : Nat)
    (setup : SlotSetup) (generatedTokenCount : Nat) (logits : Token → Logit) : Token :=
  draw
    (if setup.useRequestStableSampling then
      some (setup.samplingSeed, setup.nextAbsolutePosition generatedTokenCount)
    else none)
    (setup.biasedLogits addBias outputVocabSize logits)

end SlotSetup

/-- A founder and a joiner of one request have one prompt. -/
theorem SequenceRequest.joinerPrompt_eq {request : SequenceRequest} {deployment : Deployment}
    {founded joined : List Token} (hfounded : request.founderPrompt deployment = some founded)
    (hjoined : request.joinerPrompt deployment = some joined) : joined = founded := by
  rw [founderPrompt, prepareRequestState] at hfounded
  rw [joinerPrompt] at hjoined
  split at hfounded
  · cases hfounded
  · rename_i prepared hprepared
    cases hmedia : request.hasMedia with
    | true =>
      rw [hmedia, if_pos rfl] at hfounded hjoined
      split at hjoined
      · cases hjoined
      · split at hjoined
        · cases hjoined
        · rename_i formatted hformatted
          -- the template fails without messages, so that the founder has applied it too
          have hmessages : request.messages ≠ [] := by
            intro hnone
            rw [Deployment.applyTemplate, if_pos hnone] at hformatted
            cases hformatted
          rw [if_neg (fun h => hmessages h.2), hformatted] at hprepared
          have hsame : prepared.1 = formatted := by
            dsimp only at hprepared
            split at hprepared
            · rw [← Option.some.inj hprepared]
            · split at hprepared
              · cases hprepared
              · rw [← Option.some.inj hprepared]
          rw [hsame] at hfounded
          exact Option.some.inj (hjoined.symm.trans hfounded)
    | false =>
      rw [hmedia, if_neg Bool.false_ne_true] at hfounded hjoined
      rw [← Option.some.inj hfounded]
      split at hjoined
      · rename_i htokens
        rw [← Option.some.inj hjoined]
        split at hprepared
        · rw [← Option.some.inj hprepared]
        · split at hprepared
          · cases hprepared
          · rw [← Option.some.inj hprepared]
      · rename_i htokens
        rw [if_neg (fun h => htokens h.1)] at hprepared
        split at hjoined
        · cases hjoined
        · rename_i formatted hformatted
          rw [hformatted] at hprepared
          dsimp only at hprepared
          rw [if_neg htokens] at hprepared
          split at hprepared
          · cases hprepared
          · rw [← Option.some.inj hjoined, ← Option.some.inj hprepared]

/-- What a founder and a joiner of one request are set up with. -/
theorem SequenceRequest.setups {request : SequenceRequest} {deployment : Deployment}
    {resident : Resident} {prefillStart : Nat} {originalIndex : Int} {founder joiner : SlotSetup}
    (hfounder : request.beginGeneration deployment prefillStart originalIndex = some founder)
    (hjoiner : request.seatSlot deployment resident prefillStart originalIndex = some joiner) :
    ∃ (promptTokenIds : List Token) (logitBias : LogitBias),
      prefillStart < promptTokenIds.length ∧ request.guidedDecoding = false ∧
      prepareLogitBias deployment.vocabMap request.logitBias = some logitBias ∧ founder =
        { row := (request.slotSeed deployment promptTokenIds prefillStart originalIndex).founderRow
            request.skipSpecialTokens
          callbackEmittedTokenCount := promptTokenIds.length - prefillStart
          committedLength := prefillStart
          samplingSeed := request.resolvedSamplingSeed
          useRequestStableSampling := request.hasExplicitSamplingSeed
          logitBias := logitBias.toFinmap } ∧ joiner =
        { founder with
          row := (request.slotSeed deployment promptTokenIds prefillStart originalIndex).joinerRow
            request.skipSpecialTokens
          logitBias := request.logitBias.toFinmap } := by
  rw [beginGeneration] at hfounder
  rw [seatSlot] at hjoiner
  split at hfounder
  · split at hfounder
    · rename_i promptTokenIds logitBias hprompt hbias
      split at hfounder
      · rename_i hstart
        split at hjoiner
        · rename_i hjoins
          split at hjoiner
          · cases hjoiner
          · rename_i joined hjoined
            have hsame := joinerPrompt_eq hprompt hjoined
            rw [headMayJoin, Bool.and_eq_true, Bool.and_eq_true, Bool.and_eq_true, beq_iff_eq,
              beq_iff_eq] at hjoins
            obtain ⟨⟨⟨hskip, hexplicit⟩, hguided⟩, -⟩ := hjoins
            rw [hsame, if_pos hstart, hskip, hexplicit] at hjoiner
            refine ⟨promptTokenIds, logitBias, hstart, ?_, hbias, ?_, ?_⟩
            · rw [Bool.not_eq_true', Bool.or_eq_false_iff] at hguided
              exact hguided.2
            · rw [← Option.some.inj hfounder, ← List.length_drop]
              rfl
            · rw [← Option.some.inj hjoiner, ← Option.some.inj hfounder]
        · cases hjoiner
      · cases hfounder
    · cases hfounder
  · cases hfounder

/-- The rows of a founder and a joiner are the same exactly where there is a channel. -/
theorem SlotSeed.founderRow_eq_iff {seed : SlotSeed} (skipSpecialTokens : Bool)
    (hgrammar : seed.hasGrammar = false) (hended : seed.guidedReasoningEnded = false)
    (hworking : 0 < seed.workingTokens.length) :
    seed.founderRow skipSpecialTokens = seed.joinerRow skipSpecialTokens ↔
      seed.channel.isSome = true := by
  constructor
  · intro hsame
    by_contra hnone
    have hsent := congrArg (fun row => row.slotStream.sentTokenCount) hsame
    dsimp only [founderRow, joinerRow] at hsent
    rw [if_neg hnone] at hsent
    omega
  · intro hsome
    rw [founderRow, joinerRow, hgrammar, hended, hsome]
    rfl

/-- The biased logits are the same exactly where the bias is the same on the output
vocabulary. -/
theorem SlotSetup.biasedLogits_congr {setup setup' : SlotSetup} {outputVocabSize : Nat}
    (h : ∀ token : Token, 0 ≤ token → token < outputVocabSize →
      setup.logitBias.lookup token = setup'.logitBias.lookup token)
    {Logit : Type} (addBias : Logit → UInt32 → Logit) (logits : Token → Logit) :
    setup.biasedLogits addBias outputVocabSize logits =
      setup'.biasedLogits addBias outputVocabSize logits := by
  funext token
  rw [biasedLogits, biasedLogits]
  split
  · rename_i hin
    rw [h token hin.1 hin.2]
  · rfl

/-- A slot whose bias differs on the output vocabulary can be told by its logits. -/
theorem SlotSetup.lookup_of_biasedLogits {setup setup' : SlotSetup} {outputVocabSize : Nat}
    (h : setup.biasedLogits (fun _ bias => some bias) outputVocabSize (fun _ => none) =
      setup'.biasedLogits (fun _ bias => some bias) outputVocabSize fun _ => none)
    {token : Token} (hpos : 0 ≤ token) (hin : token < outputVocabSize) :
    setup.logitBias.lookup token = setup'.logitBias.lookup token := by
  have hread : ∀ slot : SlotSetup, slot.biasedLogits (fun _ bias => some bias) outputVocabSize
      (fun _ => none) token = slot.logitBias.lookup token := by
    intro slot
    rw [biasedLogits, if_pos ⟨hpos, hin⟩]
    cases slot.logitBias.lookup token <;> rfl
  rw [← hread setup, ← hread setup', h]

/-- Two slots with one seed, position and mode sample the same under every sampler
exactly where their biases agree on the output vocabulary. -/
theorem SlotSetup.sampledToken_iff {setup setup' : SlotSetup} {outputVocabSize : Nat}
    (hseed : setup.samplingSeed = setup'.samplingSeed)
    (hstable : setup.useRequestStableSampling = setup'.useRequestStableSampling)
    (hprompt : setup.row.rawBatchedInputIds = setup'.row.rawBatchedInputIds) :
    (∀ (Logit : Type) (addBias : Logit → UInt32 → Logit)
        (draw : Option (UInt64 × Nat) → (Token → Logit) → Token) (generatedTokenCount : Nat)
        (logits : Token → Logit),
        setup.sampledToken addBias draw outputVocabSize generatedTokenCount logits =
          setup'.sampledToken addBias draw outputVocabSize generatedTokenCount logits) ↔
      ∀ token : Token, 0 ≤ token → token < outputVocabSize →
        setup.logitBias.lookup token = setup'.logitBias.lookup token := by
  constructor
  · intro hsampled token hpos hin
    classical
    -- a sampler that recognises the logits of the first slot
    have hknown := hsampled (Option UInt32) (fun _ bias => some bias)
      (fun _ logits => if logits = setup.biasedLogits (fun _ bias => some bias) outputVocabSize
        (fun _ => none) then 0 else 1) 0 (fun _ => none)
    rw [sampledToken, sampledToken, if_pos rfl] at hknown
    apply lookup_of_biasedLogits _ hpos hin
    by_contra hdiffer
    rw [if_neg (fun heq => hdiffer heq.symm)] at hknown
    cases hknown
  · intro hlookup Logit addBias draw generatedTokenCount logits
    rw [sampledToken, sampledToken, nextAbsolutePosition, nextAbsolutePosition, hseed, hstable,
      hprompt, biasedLogits_congr hlookup]

/-! ## One stream -/

namespace ExecutionRow

variable {cfg : SessionConfig} {row : ExecutionRow}

theorem Advances.skipSpecial {row' : ExecutionRow} {added : List Token}
    (h : row.Advances row' added) : row'.skipSpecial = row.skipSpecial := by
  rw [ExecutionRow.skipSpecial, ExecutionRow.skipSpecial, h.slotStream]

theorem skipSpecial_step (slotStep : SlotStep) (row : ExecutionRow) :
    (slotStep.upTo cfg row .emitted).skipSpecial = row.skipSpecial := by
  have happended : (slotStep.upTo cfg row .appended).skipSpecial = row.skipSpecial := by
    obtain ⟨added, htokens, -⟩ := advances_tokens cfg slotStep.tokens
      (row.observe slotStep.rootCancelled)
    exact htokens.skipSpecial.trans (advances_observe row slotStep.rootCancelled).skipSpecial
  have hsettled := (advances_settles cfg slotStep.guided
    ((slotStep.upTo cfg row .appended).decode cfg.tokenizer)).1.skipSpecial
  rw [skipSpecial_decode] at hsettled
  exact (skipSpecial_emit _).trans (hsettled.trans happended)

theorem skipSpecial_life (cfg : SessionConfig) (skipSpecialTokens : Bool) (start : SlotStart)
    (events : List SlotEvent) : (life cfg skipSpecialTokens start events).skipSpecial =
      (start.seed.joinerRow skipSpecialTokens).skipSpecial := by
  induction events using List.reverseRecOn with
  | nil =>
    cases start with
    | founded founder primed =>
      obtain ⟨added, hadvances⟩ := advances_founderRow founder skipSpecialTokens
      show (if cfg.isDiffusionBackbone = true then _ else _ : ExecutionRow).skipSpecial = _
      split
      · exact hadvances.skipSpecial
      · exact (skipSpecial_step primed _).trans hadvances.skipSpecial
    | seated seed outcome finalize =>
      obtain ⟨added, hadvances⟩ := @advances_seatedRow cfg outcome finalize
        (seed.joinerRow skipSpecialTokens) rfl
      exact hadvances.skipSpecial
  | append_singleton events event ih =>
    rw [life_snoc]
    cases event with
    | step slotStep => exact (skipSpecial_step slotStep _).trans ih
    | cancel => exact (skipSpecial_cancel _).trans ih

end ExecutionRow

/-- A slot of the seed, founded or seated: at a step boundary, or before
`primeFromPrefill`. -/
def SlotSeed.HasSlot (cfg : SessionConfig) (skipSpecialTokens : Bool) (seed : SlotSeed)
    (row : ExecutionRow) : Prop :=
  (∃ (start : SlotStart) (events : List SlotEvent), start.seed = seed ∧
    row = life cfg skipSpecialTokens start events) ∨
  ∃ founder : GenerationSession.Founder, founder.seed = seed ∧ row = founder.row skipSpecialTokens

theorem SlotSeed.HasSlot.keeps {cfg : SessionConfig} {skipSpecialTokens : Bool} {seed : SlotSeed}
    {row : ExecutionRow} (h : seed.HasSlot cfg skipSpecialTokens row) (slotStep : SlotStep) :
    (slotStep.upTo cfg row .emitted).stopStrings = seed.stopStrings ∧
      (slotStep.upTo cfg row .emitted).skipSpecial =
        (seed.joinerRow skipSpecialTokens).skipSpecial := by
  rw [(ExecutionRow.stopStrings_step slotStep row).2, ExecutionRow.skipSpecial_step]
  rcases h with hlife | hfresh
  · obtain ⟨start, events, hseed, hrow⟩ := hlife
    rw [hrow, ← hseed]
    exact ⟨(ExecutionRow.stopStrings_life cfg skipSpecialTokens start events).1,
      ExecutionRow.skipSpecial_life cfg skipSpecialTokens start events⟩
  · obtain ⟨founder, hseed, hrow⟩ := hfresh
    obtain ⟨added, hadvances⟩ := ExecutionRow.advances_founderRow founder skipSpecialTokens
    rw [hrow, ← hseed]
    exact ⟨hadvances.stopStrings, hadvances.skipSpecial⟩

/-! ## Main results -/

/-- Two slots of one seed that end by themselves with the same tokens, and lose nothing
in their last decode, deliver the same, however each came to its batch. -/
theorem SlotSeed.HasSlot.delivered_eq {cfg : SessionConfig} {skipSpecialTokens : Bool}
    {seed : SlotSeed} {row row' : ExecutionRow} {slotStep slotStep' : SlotStep}
    {channel closed channel' closed' : StreamChannel}
    (hslot : seed.HasSlot cfg skipSpecialTokens row)
    (hslot' : seed.HasSlot cfg skipSpecialTokens row')
    (h : Closing cfg row slotStep channel closed) (h' : Closing cfg row' slotStep' channel' closed')
    (hall : (slotStep.upTo cfg row .appended).DeliversAll cfg.tokenizer channel.text)
    (hall' : (slotStep'.upTo cfg row' .appended).DeliversAll cfg.tokenizer channel'.text)
    (hends : EndsItself (slotStep.upTo cfg row .emitted).slotStream.terminalReason)
    (hreason : (slotStep'.upTo cfg row' .emitted).slotStream.terminalReason =
      (slotStep.upTo cfg row .emitted).slotStream.terminalReason)
    (hgenerated : (slotStep'.upTo cfg row' .emitted).generated =
      (slotStep.upTo cfg row .emitted).generated) :
    closed'.tokens = closed.tokens ∧ closed'.text = closed.text := by
  have hkeeps := hslot.keeps slotStep
  have hkeeps' := hslot'.keeps slotStep'
  have hcomplete := h.delivers_iff.2 hall
  have hcomplete' := h'.delivers_iff.2 hall'
  rw [ExecutionRow.Delivers, hkeeps.1, hkeeps.2] at hcomplete
  rw [ExecutionRow.Delivers, hreason, hgenerated, hkeeps'.1, hkeeps'.2] at hcomplete'
  exact hcomplete.unique hcomplete' hends

theorem lookup_toFinmap_iff (left right : LogitBias) (token : Token) :
    left.toFinmap.lookup token = right.toFinmap.lookup token ↔
      ∀ bias, ⟨token, bias⟩ ∈ left.entries ↔ ⟨token, bias⟩ ∈ right.entries := by
  rw [Finmap.lookup_toFinmap, Finmap.lookup_toFinmap]
  constructor
  · intro hsame bias
    rw [← AList.mem_lookup_iff, ← AList.mem_lookup_iff, hsame]
  · intro hentries
    apply Option.ext
    intro bias
    have hbias := hentries bias
    rw [← AList.mem_lookup_iff, ← AList.mem_lookup_iff] at hbias
    exact hbias

/-- A joiner has the slot that the founder has exactly where the sequence streams, and
its bias is the same under the ids of the output vocabulary.  Both sample the same
under every sampler exactly where the biases agree on the output vocabulary.  Slots
of either kind that end by themselves with the same tokens, and lose nothing in their
last decode, deliver the same. -/
theorem setup_eq_iff {request : SequenceRequest} {deployment : Deployment} {resident : Resident}
    {prefillStart : Nat} {originalIndex : Int} {founder joiner : SlotSetup}
    (hfounder : request.beginGeneration deployment prefillStart originalIndex = some founder)
    (hjoiner : request.seatSlot deployment resident prefillStart originalIndex = some joiner) :
    (founder = joiner ↔ request.channel.isSome = true ∧
      ∀ token bias, ⟨token, bias⟩ ∈ request.logitBias.entries →
        ∃ new, deployment.vocabMap.outputToken token = some new ∧
          ⟨new, bias⟩ ∈ request.logitBias.entries) ∧
    ((∀ (Logit : Type) (addBias : Logit → UInt32 → Logit)
        (draw : Option (UInt64 × Nat) → (Token → Logit) → Token) (generatedTokenCount : Nat)
        (logits : Token → Logit),
        founder.sampledToken addBias draw deployment.outputVocabSize generatedTokenCount logits =
          joiner.sampledToken addBias draw deployment.outputVocabSize generatedTokenCount
            logits) ↔
      ∀ new : Token, 0 ≤ new → new < deployment.outputVocabSize → ∀ bias,
        ((∃ token, ⟨token, bias⟩ ∈ request.logitBias.entries ∧
          deployment.vocabMap.outputToken token = some new) ↔
            ⟨new, bias⟩ ∈ request.logitBias.entries)) ∧
    ∀ cfg row row' slotStep slotStep' channel closed channel' closed',
      (request.slotSeed deployment founder.row.rawBatchedInputIds prefillStart
        originalIndex).HasSlot cfg request.skipSpecialTokens row →
      (request.slotSeed deployment founder.row.rawBatchedInputIds prefillStart
        originalIndex).HasSlot cfg request.skipSpecialTokens row' →
      Closing cfg row slotStep channel closed → Closing cfg row' slotStep' channel' closed' →
      (slotStep.upTo cfg row .appended).DeliversAll cfg.tokenizer channel.text →
      (slotStep'.upTo cfg row' .appended).DeliversAll cfg.tokenizer channel'.text →
      EndsItself (slotStep.upTo cfg row .emitted).slotStream.terminalReason →
      (slotStep'.upTo cfg row' .emitted).slotStream.terminalReason =
        (slotStep.upTo cfg row .emitted).slotStream.terminalReason →
      (slotStep'.upTo cfg row' .emitted).generated = (slotStep.upTo cfg row .emitted).generated →
      closed'.tokens = closed.tokens ∧ closed'.text = closed.text := by
  obtain ⟨promptTokenIds, logitBias, hstart, hguided, hbias, hfounds, hjoins⟩ :=
    SequenceRequest.setups hfounder hjoiner
  refine ⟨?_, ?_, ?_⟩
  · have hrows := @SlotSeed.founderRow_eq_iff
      (request.slotSeed deployment promptTokenIds prefillStart originalIndex)
      request.skipSpecialTokens hguided
      (by rw [SequenceRequest.slotSeed, hguided]; rfl)
      (by
        show 0 < (promptTokenIds.drop prefillStart).length
        rw [List.length_drop]
        omega)
    have hsplit : founder = joiner ↔ founder.row = joiner.row ∧
        founder.logitBias = joiner.logitBias := by
      rw [hjoins, hfounds, SlotSetup.mk.injEq]
      simp
    rw [hsplit, ← prepareLogitBias_eq_iff hbias]
    rw [hjoins, hfounds]
    exact and_congr hrows Iff.rfl
  · have hsampled := @SlotSetup.sampledToken_iff founder joiner deployment.outputVocabSize
      (by rw [hjoins]) (by rw [hjoins]) (by rw [hjoins, hfounds]; rfl)
    rw [hsampled, hjoins, hfounds]
    apply forall_congr'
    intro new
    apply forall_congr'
    intro _
    apply forall_congr'
    intro _
    rw [lookup_toFinmap_iff]
    apply forall_congr'
    intro bias
    rw [mem_prepareLogitBias hbias]
  · intro cfg row row' slotStep slotStep' channel closed channel' closed' hslot hslot' h h' hall
      hall' hends hreason hgenerated
    exact hslot.delivered_eq hslot' h h' hall hall' hends hreason hgenerated

/-- A deployment whose tokens are bytes, and whose output vocabulary may be reduced. -/
def byteDeployment (reducedToFullVocabMap : Option (List Int)) : Deployment where
  vocabMap := ((reducedToFullVocabMap.bind fun map => setLogitBiasVocabMap map 256)).getD {}
  vocabSize := 256
  outputVocabSize := (reducedToFullVocabMap.map List.length).getD 256
  encode := fun text => text.map fun byte => (byte.toNat : Int)
  chatTemplate := fun messages => some messages.flatten
  preprocessMedia := fun _ => none
  validBias := fun _ => true
  reasoningClosedInPrompt := fun _ => false

/-- A request with a bias of 5.0 on token 70. -/
def biasedRequest (channel : Option ChannelSettings) : SequenceRequest where
  messages := [[72, 105]]
  stopStrings := [[70, 71]]
  logitBias := AList.singleton 70 0x40A00000
  samplingSeed := some 7
  channel := channel

/-- The founder of a request with an explicit seed. -/
def seededResident : Resident where
  skipSpecialTokens := true
  hasExplicitSamplingSeed := true

/-- Under a reduced vocabulary the founder's bias is on the reduced id of token 70 and
the joiner's on its full id, which the sampler skips.  Without a channel the founder
decodes from its prompt on. -/
theorem setup_differs :
    ((biasedRequest (some {})).beginGeneration (byteDeployment (some [65, 70])) 0 3).map
        (fun setup => (setup.logitBias.lookup 1, setup.logitBias.lookup 70)) =
      some (some 0x40A00000, none) ∧
    ((biasedRequest (some {})).seatSlot (byteDeployment (some [65, 70])) seededResident 0 3).map
        (fun setup => (setup.logitBias.lookup 1, setup.logitBias.lookup 70)) =
      some (none, some 0x40A00000) ∧
    ((biasedRequest none).beginGeneration (byteDeployment none) 0 3).map
        (fun setup => setup.row.slotStream.sentTokenCount) = some 0 ∧
    ((biasedRequest none).seatSlot (byteDeployment none) seededResident 0 3).map
        (fun setup => setup.row.slotStream.sentTokenCount) = some 2 := by
  decide +kernel

/-- A streaming request under a full vocabulary. -/
theorem setup_eq_streaming :
    (biasedRequest (some {})).beginGeneration (byteDeployment none) 0 3 =
      (biasedRequest (some {})).seatSlot (byteDeployment none) seededResident 0 3 := by
  have hsame := (@setup_eq_iff (biasedRequest (some {})) (byteDeployment none) seededResident 0 3
    _ _ rfl rfl).1.2 ⟨rfl, fun token bias hmem => ⟨token, rfl, hmem⟩⟩
  exact congrArg some hsame

end EdgeLLM.Ports.Generation
