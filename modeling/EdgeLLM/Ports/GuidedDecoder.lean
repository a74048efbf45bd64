import EdgeLLM.Ports.Tokenizer
import EdgeLLM.Verified.SiblingLinks

/-!
# Masks for a draft tree

`GuidedDecoder` constrains the verification of a draft: before the tokens of a step are
sampled, `fillMasksForDraftTree` gives each node of a draft tree the mask of the grammar
after the path to that node; afterwards `advanceCommitted` feeds the grammar the tokens
that were sampled.  The matcher is xgrammar's and a parameter here.
-/

namespace EdgeLLM.Ports.Generation

open Verified

/-! ## Bitmasks and vocabularies -/

/-- One row of the bitmask, in words of 32 tokens. -/
abbrev BitmaskRow : Type := List (BitVec 32)

def rowAllows (row : BitmaskRow) (outputToken : Nat) : Bool :=
  (row.getD (outputToken / 32) 0 >>> (outputToken % 32)) &&& 1 != 0

def rowHasAnyToken (row : BitmaskRow) : Bool :=
  row.foldl (fun acc word => acc ||| word) 0 != 0

theorem foldl_or_eq_zero (row : BitmaskRow) :
    ∀ acc : BitVec 32, row.foldl (fun acc word => acc ||| word) acc = 0 →
      acc = 0 ∧ ∀ word ∈ row, word = 0 := by
  induction row with
  | nil =>
    intro acc h
    exact ⟨h, fun word hword => by cases hword⟩
  | cons word rest ih =>
    intro acc h
    obtain ⟨hor, hrest⟩ := ih (acc ||| word) h
    obtain ⟨hacc, hword⟩ := BitVec.or_eq_zero_iff.1 hor
    refine ⟨hacc, ?_⟩
    intro other hother
    rw [List.mem_cons] at hother
    rcases hother with hsame | hin
    · rw [hsame]
      exact hword
    · exact hrest other hin

/-- A row that allows a token has one. -/
theorem rowHasAnyToken_of_allows {row : BitmaskRow} {outputToken : Nat}
    (h : rowAllows row outputToken = true) : rowHasAnyToken row = true := by
  rw [rowHasAnyToken, bne_iff_ne]
  intro hnone
  have hzero := (foldl_or_eq_zero row 0 hnone).2
  have hword : row.getD (outputToken / 32) 0 = 0 := by
    rw [List.getD_eq_getElem?_getD]
    cases hget : row[outputToken / 32]? with
    | none => rfl
    | some word => exact hzero word (List.mem_of_getElem? hget)
  rw [rowAllows, hword] at h
  simp at h

/-- The vocabulary of the engine's logits.  `fullToOutput` is nothing where the engine
does not prune; both spaces are then the same. -/
structure OutputVocab where
  outputVocabSize : Nat
  fullVocabSize : Nat
  fullToOutput : Option (List Int) := none
  bounded : ∀ fullId : Nat, fullId < fullVocabSize →
    (match fullToOutput with
    | none => (fullId : Int)
    | some table => table.getD fullId (-1)) < (outputVocabSize : Int)

def OutputVocab.toOutputSpace (vocab : OutputVocab) (fullId : Token) : Int :=
  if fullId < 0 ∨ (vocab.fullVocabSize : Int) ≤ fullId then -1
  else
    match vocab.fullToOutput with
    | none => (fullId.toNat : Int)
    | some table => table.getD fullId.toNat (-1)

theorem OutputVocab.toOutputSpace_lt (vocab : OutputVocab) (fullId : Token) :
    vocab.toOutputSpace fullId < vocab.outputVocabSize := by
  rw [toOutputSpace]
  split
  · omega
  · rename_i hin
    rw [not_or] at hin
    apply vocab.bounded fullId.toNat
    exact (Int.toNat_lt (Int.not_lt.1 hin.1)).2 (Int.not_le.1 hin.2)

/-- The loop of `initialize` that builds `fullToOutput`, from output id `outputId` on. -/
def fillFullToOutput : Nat → List Int → List Int → List Int
  | _, [], fullToOutput => fullToOutput
  | outputId, fullId :: rest, fullToOutput =>
    fillFullToOutput (outputId + 1) rest
      (if 0 ≤ fullId ∧ fullId.toNat < fullToOutput.length then
        fullToOutput.set fullId.toNat outputId
      else fullToOutput)

theorem fillFullToOutput_lt (outputToFull : List Int) :
    ∀ {outputId : Nat} {fullToOutput : List Int}, (∀ id ∈ fullToOutput, id < (outputId : Int)) →
        ∀ id ∈ fillFullToOutput outputId outputToFull fullToOutput,
          id < ((outputId + outputToFull.length : Nat) : Int) := by
  induction outputToFull with
  | nil =>
    intro outputId fullToOutput h
    exact h
  | cons fullId rest ih =>
    intro outputId fullToOutput h
    have hnext := @ih (outputId + 1) (if 0 ≤ fullId ∧ fullId.toNat < fullToOutput.length then
        fullToOutput.set fullId.toNat outputId
      else fullToOutput) (by
        intro id hid
        split at hid
        · cases List.mem_or_eq_of_mem_set hid with
          | inl hold =>
            have := h id hold
            omega
          | inr hnew => omega
        · have := h id hid
          omega)
    rw [List.length_cons, show outputId + (rest.length + 1) = outputId + 1 + rest.length by omega]
    exact hnext

/-- The vocabulary of an engine that prunes. -/
def OutputVocab.reduced (outputToFull : List Int) (fullVocabSize : Nat) : OutputVocab where
  outputVocabSize := outputToFull.length
  fullVocabSize := fullVocabSize
  fullToOutput := some (fillFullToOutput 0 outputToFull (List.replicate fullVocabSize (-1)))
  bounded := by
    intro fullId _
    have hall := @fillFullToOutput_lt outputToFull 0 (List.replicate fullVocabSize (-1)) (by
      intro id hid
      rw [List.eq_of_mem_replicate hid]
      omega)
    dsimp only
    rw [List.getD_eq_getElem?_getD]
    cases hget : (fillFullToOutput 0 outputToFull (List.replicate fullVocabSize (-1)))[fullId]? with
    | none =>
      show (-1 : Int) < _
      omega
    | some id =>
      have hlt := hall id (List.mem_of_getElem? hget)
      rw [Nat.zero_add] at hlt
      exact hlt

/-- The vocabulary of an engine that does not prune. -/
def OutputVocab.full (vocabSize : Nat) : OutputVocab where
  outputVocabSize := vocabSize
  fullVocabSize := vocabSize
  bounded := by
    intro fullId h
    exact Int.ofNat_lt.2 h

/-! ## The matcher -/

/-- What the decoder calls of xgrammar's matcher; `rollback` is `Rollback(1)`. -/
structure MatcherApi (Matcher : Type) where
  acceptToken : Matcher → Nat → Bool × Matcher
  rollback : Matcher → Matcher
  isTerminated : Matcher → Bool
  fillNextTokenBitmask : Matcher → BitmaskRow

/-- A matcher is a deterministic automaton: a rejected token changes nothing, `rollback`
undoes an accepted one, and the mask has the tokens that are accepted next. -/
structure MatcherApi.Lawful {Matcher : Type} (api : MatcherApi Matcher) (outputVocabSize : Nat) :
    Prop where
  rejected : ∀ m t, (api.acceptToken m t).1 = false → (api.acceptToken m t).2 = m
  rollback_accepted : ∀ m t, (api.acceptToken m t).1 = true →
    api.rollback (api.acceptToken m t).2 = m
  fill : ∀ m t, api.isTerminated m = false → t < outputVocabSize →
    rowAllows (api.fillNextTokenBitmask m) t = (api.acceptToken m t).1

/-- The states after accepted tokens. -/
inductive MatcherApi.Reachable {Matcher : Type} (api : MatcherApi Matcher) (m : Matcher) :
    Matcher → Prop
  | start : api.Reachable m m
  | accepted (m' : Matcher) (t : Nat) (reachable : api.Reachable m m')
    (accepts : (api.acceptToken m' t).1 = true) : api.Reachable m (api.acceptToken m' t).2

/-- Each state that is reached, and has not terminated, accepts some token. -/
def MatcherApi.Live {Matcher : Type} (api : MatcherApi Matcher) (outputVocabSize : Nat)
    (m : Matcher) : Prop :=
  ∀ m', api.Reachable m m' → api.isTerminated m' = false →
    ∃ t, t < outputVocabSize ∧ (api.acceptToken m' t).1 = true

/-- What does not change while a decoder runs. -/
structure GuideConfig (Matcher : Type) where
  api : MatcherApi Matcher
  vocab : OutputVocab
  reasoningEnd : List Token := []

def GuideConfig.isReasoningEnd {Matcher : Type} (config : GuideConfig Matcher) (fullId : Token) :
    Bool :=
  decide (0 ≤ fullId) && config.reasoningEnd.contains fullId

/-! ## The walk -/

/-- The draft tree of one slot. -/
structure SlotTree where
  base : Nat
  nodeCount : Nat
  token : Nat → Token
  parentOf : Nat → Int

/-- What the walk over one slot mutates. -/
structure Walk (Matcher : Type) where
  matcher : Matcher
  hostBitmask : Nat → BitmaskRow
  rowNeedsMask : Nat → Bool
  anyRowNeedsMask : Bool
  warnedUnmappable : Bool

namespace Walk

variable {Matcher : Type}

/-- Fill a row with the mask of the matcher. -/
def fillRow (w : Walk Matcher) (api : MatcherApi Matcher) (row : Nat) : Walk Matcher :=
  { w with
    hostBitmask := Function.update w.hostBitmask row (api.fillNextTokenBitmask w.matcher)
    rowNeedsMask := Function.update w.rowNeedsMask row true
    anyRowNeedsMask := true }

/-- Fill the row of a separator: it is flagged only if it has a token. -/
def fillSeparatorRow (w : Walk Matcher) (api : MatcherApi Matcher) (row : Nat) : Walk Matcher :=
  if rowHasAnyToken (api.fillNextTokenBitmask w.matcher) then w.fillRow api row
  else
    { w with
      hostBitmask := Function.update w.hostBitmask row (api.fillNextTokenBitmask w.matcher) }

end Walk

/-- The lambda `visit`; the fuel bounds the depth. -/
def visit {Matcher : Type} (config : GuideConfig Matcher) (tree : SlotTree) (links : SiblingLinks) :
    Nat → Nat → Bool → Walk Matcher → Walk Matcher
  | 0, _, _, w => w
  | fuel + 1, node, reasoningEnded, w =>
    let row := tree.base + node
    let fullId := tree.token node
    if reasoningEnded = false then
      -- the separator is not fed to the matcher, but the grammar governs its row
      let ended := config.isReasoningEnd fullId
      let w := if ended then w.fillSeparatorRow config.api row else w
      (links.children tree.nodeCount node).foldl
        (fun w child => visit config tree links fuel child ended w) w
    else
      let outputId := config.vocab.toOutputSpace fullId
      if outputId < 0 then { w with warnedUnmappable := true }
      else
        let parentRow := tree.base + (tree.parentOf node).toNat
        if rowAllows (w.hostBitmask parentRow) outputId.toNat then
          let accepted := config.api.acceptToken w.matcher outputId.toNat
          let w := { w with matcher := accepted.2 }
          if accepted.1 then
            let w :=
              if config.api.isTerminated w.matcher then w
              else
                (links.children tree.nodeCount node).foldl
                  (fun w child => visit config tree links fuel child true w)
                  (w.fillRow config.api row)
            { w with matcher := config.api.rollback w.matcher }
          else w
        else w

/-! ## The decoder -/

/-- `GuidedDecoder`: the matchers of the slots and the rows of the bitmask, on the host
and as they were uploaded. -/
structure GuidedDecoder (Matcher : Type) where
  config : GuideConfig Matcher
  maxRows : Nat
  matchers : List (Option Matcher)
  hostBitmask : Nat → BitmaskRow := fun _ => []
  hostRowNeedsMask : Nat → Bool := fun _ => false
  deviceBitmask : Nat → BitmaskRow := fun _ => []
  deviceRowNeedsMask : Nat → Bool := fun _ => false
  warnedUnmappable : List Bool := []

/-- Why the decoder throws. -/
inductive GuidedFailure where
  | rowCount
  | parentOrder

/-- The draft geometry of a step, as it was captured; no parents make a chain, no counts
a full tree. -/
structure DraftTopology where
  draftTokensFullSpace : Nat → Token
  parentIds : Option (Nat → Int) := none
  validCounts : Option (Nat → Int) := none

namespace DraftTopology

/-- The nodes that were built for a slot. -/
def nodeCount (topology : DraftTopology) (rowsPerSlot slot : Nat) : Nat :=
  match topology.validCounts with
  | none => rowsPerSlot
  | some validCounts => (min (validCounts slot) rowsPerSlot).toNat

/-- The tree of a slot. -/
def tree (topology : DraftTopology) (rowsPerSlot slot : Nat) : SlotTree where
  base := slot * rowsPerSlot
  nodeCount := topology.nodeCount rowsPerSlot slot
  token := fun node => topology.draftTokensFullSpace (slot * rowsPerSlot + node)
  parentOf := fun node =>
    match topology.parentIds with
    | none => (node : Int) - 1
    | some parentIds => parentIds (slot * rowsPerSlot + node)

end DraftTopology

/-- The descending pass that links the nodes up to `node` to their parents. -/
def linkNodes (parentOf : Nat → Int) : Nat → SiblingLinks → Except GuidedFailure SiblingLinks
  | 0, links => .ok links
  | node + 1, links =>
    -- a node without a parent hangs off nothing
    if parentOf (node + 1) < 0 then linkNodes parentOf node links
    else if parentOf (node + 1) < (node + 1 : Nat) then
      linkNodes parentOf node (links.push (parentOf (node + 1)).toNat (node + 1))
    else .error .parentOrder

/-- What the loop over the slots carries. -/
structure FillState (Matcher : Type) where
  decoder : GuidedDecoder Matcher
  anyRowNeedsMask : Bool := false
  unsatisfiableSlots : List Nat := []

namespace GuidedDecoder

variable {Matcher : Type}

/-- The matcher of a slot that has a grammar. -/
def matcher? (decoder : GuidedDecoder Matcher) (slot : Nat) : Option Matcher :=
  (decoder.matchers[slot]?).join

/-- The flags of the rows of a slot, cleared. -/
def clearRows (decoder : GuidedDecoder Matcher) (base rowsPerSlot : Nat) : GuidedDecoder Matcher :=
  { decoder with
    hostRowNeedsMask := fun row =>
      if base ≤ row ∧ row < base + rowsPerSlot then false else decoder.hostRowNeedsMask row }

/-- What the walk has left. -/
def afterWalk (decoder : GuidedDecoder Matcher) (slot : Nat) (w : Walk Matcher) :
    GuidedDecoder Matcher :=
  { decoder with
    matchers := decoder.matchers.set slot (some w.matcher)
    hostBitmask := w.hostBitmask
    hostRowNeedsMask := w.rowNeedsMask
    warnedUnmappable := decoder.warnedUnmappable.set slot w.warnedUnmappable }

end GuidedDecoder

/-- The walk over a linked tree: the root was consumed by the matcher before.  `none` is a
root row without a token. -/
def walkTree {Matcher : Type} (config : GuideConfig Matcher) (tree : SlotTree)
    (links : SiblingLinks) (rootReasoningEnded : Bool) (w : Walk Matcher) :
    Option (Walk Matcher) × Walk Matcher :=
  let visitRoot (w : Walk Matcher) : Walk Matcher :=
    (links.children tree.nodeCount 0).foldl
      (fun w child => visit config tree links tree.nodeCount child rootReasoningEnded w) w
  if rootReasoningEnded then
    let row := config.api.fillNextTokenBitmask w.matcher
    let filled : Walk Matcher :=
      { w with hostBitmask := Function.update w.hostBitmask tree.base row }
    if rowHasAnyToken row then (some (visitRoot (w.fillRow config.api tree.base)), filled)
    else (none, filled)
  else (some (visitRoot w), w)

/-- The body of the loop over the slots. -/
def fillSlot {Matcher : Type} (topology : DraftTopology) (rowsPerSlot : Nat)
    (slotSuppressed reasoningEndedPerSlot : List Bool) (fill : FillState Matcher) (slot : Nat) :
    Except GuidedFailure (FillState Matcher) :=
  let tree := topology.tree rowsPerSlot slot
  let decoder := fill.decoder.clearRows tree.base rowsPerSlot
  let config := decoder.config
  match decoder.matcher? slot with
  | none => .ok { fill with decoder := decoder }
  | some matcher =>
    if slotSuppressed.getD slot false || config.api.isTerminated matcher then
      .ok { fill with decoder := decoder }
    else if tree.nodeCount = 0 then .ok { fill with decoder := decoder }
    else
      match linkNodes tree.parentOf (tree.nodeCount - 1) ⟨fun _ => -1, fun _ => -1⟩ with
      | .error failure => .error failure
      | .ok links =>
        let w : Walk Matcher :=
          { matcher := matcher
            hostBitmask := decoder.hostBitmask
            rowNeedsMask := decoder.hostRowNeedsMask
            anyRowNeedsMask := fill.anyRowNeedsMask
            warnedUnmappable := decoder.warnedUnmappable.getD slot false }
        match walkTree config tree links (reasoningEndedPerSlot.getD slot false) w with
        | (some w, _) => .ok
            { fill with
              decoder := decoder.afterWalk slot w
              anyRowNeedsMask := w.anyRowNeedsMask }
        | (none, w) => .ok
            { fill with
              decoder := decoder.afterWalk slot w
              unsatisfiableSlots := fill.unsatisfiableSlots ++ [slot] }

/-- The loop over the slots. -/
def fillSlots {Matcher : Type} (topology : DraftTopology) (rowsPerSlot : Nat)
    (slotSuppressed reasoningEndedPerSlot : List Bool) :
    List Nat → FillState Matcher → Except GuidedFailure (FillState Matcher)
  | [], fill => .ok fill
  | slot :: slots, fill =>
    match fillSlot topology rowsPerSlot slotSuppressed reasoningEndedPerSlot fill slot with
    | .error failure => .error failure
    | .ok fill => fillSlots topology rowsPerSlot slotSuppressed reasoningEndedPerSlot slots fill

namespace GuidedDecoder

variable {Matcher : Type}

/-- The uploads: the flags always, the rows only if one of them is flagged. -/
def upload (decoder : GuidedDecoder Matcher) (totalRows : Nat) (anyRowNeedsMask : Bool) :
    GuidedDecoder Matcher :=
  { decoder with
    deviceRowNeedsMask := fun row =>
      if row < totalRows then decoder.hostRowNeedsMask row else decoder.deviceRowNeedsMask row
    deviceBitmask := fun row =>
      if anyRowNeedsMask && decide (row < totalRows) then decoder.hostBitmask row
      else decoder.deviceBitmask row }

/-- `fillMasksForDraftTree`, with the slots that it calls unsatisfiable. -/
def fillMasksForDraftTree (decoder : GuidedDecoder Matcher) (activeBatchSize rowsPerSlot : Nat)
    (topology : DraftTopology) (slotSuppressed reasoningEndedPerSlot : List Bool) :
    Except GuidedFailure (GuidedDecoder Matcher × List Nat) :=
  if activeBatchSize = 0 ∨ rowsPerSlot = 0 then .ok (decoder, [])
  else if activeBatchSize * rowsPerSlot ≤ decoder.maxRows then
    match fillSlots topology rowsPerSlot slotSuppressed reasoningEndedPerSlot
      (List.range activeBatchSize) { decoder := decoder } with
    | .error failure => .error failure
    | .ok fill => .ok
        (fill.decoder.upload (activeBatchSize * rowsPerSlot) fill.anyRowNeedsMask,
          fill.unsatisfiableSlots)
  else .error .rowCount

/-- The mask that the kernel applies to a row. -/
def mask (decoder : GuidedDecoder Matcher) (row : Nat) : Option BitmaskRow :=
  if decoder.deviceRowNeedsMask row then some (decoder.deviceBitmask row) else none

end GuidedDecoder

/-- What governs the next token: the matcher, and whether the reasoning has ended. -/
structure GuideState (Matcher : Type) where
  matcher : Matcher
  reasoningEnded : Bool

/-- The loop of `advanceCommitted`. -/
def advanceTokens {Matcher : Type} (config : GuideConfig Matcher) :
    List Token → GuideState Matcher → Bool × GuideState Matcher
  | [], st => (true, st)
  | fullId :: rest, st =>
    if st.reasoningEnded = false then
      advanceTokens config rest { st with reasoningEnded := config.isReasoningEnd fullId }
    else if config.api.isTerminated st.matcher then (true, st)
    else
      let outputId := config.vocab.toOutputSpace fullId
      if outputId < 0 then (false, st)
      else
        let accepted := config.api.acceptToken st.matcher outputId.toNat
        if accepted.1 then advanceTokens config rest { st with matcher := accepted.2 }
        else (false, { st with matcher := accepted.2 })

/-- `advanceCommitted`: whether the grammar took the tokens, the decoder and the latch. -/
def GuidedDecoder.advanceCommitted {Matcher : Type} (decoder : GuidedDecoder Matcher) (slot : Nat)
    (committedFullSpace : List Token) (reasoningEnded : Bool) :
    Bool × GuidedDecoder Matcher × Bool :=
  match decoder.matcher? slot with
  | none => (true, decoder, reasoningEnded)
  | some matcher =>
    let out := advanceTokens decoder.config committedFullSpace ⟨matcher, reasoningEnded⟩
    (out.1, { decoder with matchers := decoder.matchers.set slot (some out.2.matcher) },
      out.2.reasoningEnded)

end EdgeLLM.Ports.Generation
