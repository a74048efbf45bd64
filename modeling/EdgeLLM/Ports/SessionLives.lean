import EdgeLLM.Ports.SlotLife

/-!
# Sessions are made of lives

Every pass over the batch takes each slot through the stages of a step, so what
holds along every life of one slot holds in every session.
-/

namespace EdgeLLM.Ports.Generation

open Verified Checked

namespace GenerationSession

/-- Every result was filed for a finished slot. -/
def FiledFromLives (cfg : SessionConfig) (s : GenerationSession) : Prop :=
  ∀ result ∈ s.completedBatches, ∃ (row : ExecutionRow) (generationRound : Nat),
    row.Lives cfg ∧ row.finished = true ∧ result.2 = resultOf generationRound row

/-- A session between two operations: every slot has come to a step boundary,
the pending joiner apart. -/
structure Alive (cfg : SessionConfig) (s : GenerationSession) : Prop where
  rows : ∀ i row, s.rows[i]? = some row →
    if s.mPending = some i then row.Pending else row.Lives cfg
  pendingLive : ∀ i, s.mPending = some i → i < s.rows.length
  filed : FiledFromLives cfg s

/-- A session that an operation has given up. -/
structure GivenUp (cfg : SessionConfig) (s : GenerationSession) : Prop where
  rows : ∀ row ∈ s.rows, row.Torn cfg
  filed : FiledFromLives cfg s

section Alive

variable {cfg : SessionConfig} {s : GenerationSession}

theorem Alive.lives (h : Alive cfg s) (hpending : s.mPending = none) :
    ∀ row ∈ s.rows, row.Lives cfg := by
  intro row hmem
  obtain ⟨i, hi⟩ := List.mem_iff_getElem?.1 hmem
  have hrow := h.rows i row hi
  rwa [hpending, if_neg (by simp)] at hrow

theorem Alive.of_lives (hpending : s.mPending = none) (hrows : ∀ row ∈ s.rows, row.Lives cfg)
    (hfiled : FiledFromLives cfg s) : Alive cfg s where
  rows := by
    intro i row hi
    rw [hpending, if_neg (by simp)]
    exact hrows row (List.mem_of_getElem? hi)
  pendingLive := by
    intro i hi
    rw [hpending] at hi
    cases hi
  filed := hfiled

theorem Alive.givenUp (h : Alive cfg s) : GivenUp cfg s where
  rows := by
    intro row hmem
    obtain ⟨i, hi⟩ := List.mem_iff_getElem?.1 hmem
    have hrow := h.rows i row hi
    split at hrow
    · exact .pending hrow
    · exact .lives hrow
  filed := h.filed

/-- Eviction files slots at a step boundary and keeps the others. -/
theorem Alive.evict (h : Alive cfg s) (hpending : s.mPending = none) : Alive cfg s.evict := by
  have hlives := h.lives hpending
  rw [GenerationSession.evict]
  split
  · have hnone : s.compact.mPending = none := hpending
    apply Alive.of_lives hnone
    · exact fun row hmem => hlives row (List.mem_of_mem_filter hmem)
    · intro result hmem
      rcases List.mem_append.1 hmem with hold | hnew
      · exact h.filed result hold
      · obtain ⟨row, hrow, rfl⟩ := List.mem_map.1 hnew
        have hgone := List.mem_filter.1 hrow
        exact ⟨row, s.generationRound, hlives row hgone.1, hgone.2, rfl⟩
  · exact h

theorem mem_stageRows {states : Nat → Bool} {tokens : StepTokens} {stage : Stage}
    {row : ExecutionRow} (hmem : row ∈ stageRows cfg s states tokens stage) :
    ∃ before ∈ s.rows, ∃ i, row = SlotStep.upTo cfg ⟨s.hasGuidedDecoding, states i,
      tokens.slot i⟩ before stage := by
  obtain ⟨i, hi, rfl⟩ := List.mem_mapIdx.1 hmem
  exact ⟨s.rows[i], List.getElem_mem hi, i, rfl⟩

theorem ensures_advance_alive (h : Alive cfg s) (hpending : s.mPending = none)
    (input : AdvanceInput) :
    Ensures (advance cfg input) (fun _ s' => Alive cfg s') (fun _ s' => GivenUp cfg s') s := by
  have hlives := h.lives hpending
  apply (advance_spec input).mono
  · intro _ s' hstep
    obtain ⟨states, -, rfl⟩ := hstep
    refine Alive.evict (Alive.of_lives hpending ?_ h.filed) hpending
    intro row hmem
    obtain ⟨before, hbefore, i, rfl⟩ := mem_stageRows hmem
    exact (hlives before hbefore).apply (.step _)
  · intro _ s' htorn
    obtain ⟨states, stage, generationRound, rfl⟩ := htorn
    refine ⟨?_, h.filed⟩
    intro row hmem
    obtain ⟨before, hbefore, i, rfl⟩ := mem_stageRows hmem
    exact .step (hlives before hbefore) _ stage

/-- `primeFromPrefill` on the founders, or once more on a running batch. -/
theorem ensures_prime_alive (hpending : s.mPending = none)
    (hrows : (∀ row ∈ s.rows, row.Lives cfg) ∨ ∀ row ∈ s.rows, row.Fresh cfg)
    (hfiled : FiledFromLives cfg s) (input : PrimeInput) :
    Ensures (primeFromPrefill cfg input) (fun _ s' => Alive cfg s')
      (fun _ s' => GivenUp cfg s') s := by
  cases hdiffusion : cfg.isDiffusionBackbone with
  | true =>
    rw [primeFromPrefill, if_pos hdiffusion]
    apply Alive.of_lives hpending _ hfiled
    rcases hrows with hlives | hfresh
    · exact hlives
    · exact fun row hmem => (hfresh row hmem).unprimed hdiffusion
  | false =>
    apply (primeFromPrefill_spec hdiffusion input).mono
    · intro _ s' hstep
      obtain ⟨states, -, rfl⟩ := hstep
      have hnone : (stageOf cfg s states .none .emitted).mPending = none := hpending
      have halive : Alive cfg (stageOf cfg s states .none .emitted) := by
        apply Alive.of_lives hnone _ hfiled
        intro row hmem
        obtain ⟨before, hbefore, i, rfl⟩ := mem_stageRows hmem
        rcases hrows with hlives | hfresh
        · exact (hlives before hbefore).apply (.step _)
        · exact (hfresh before hbefore).primed hdiffusion rfl
      split
      · exact halive.evict hpending
      · exact halive
    · intro _ s' htorn
      obtain ⟨states, stage, rfl⟩ := htorn
      refine ⟨?_, hfiled⟩
      intro row hmem
      obtain ⟨before, hbefore, i, rfl⟩ := mem_stageRows hmem
      rcases hrows with hlives | hfresh
      · exact .step (hlives before hbefore) _ stage
      · exact .primed (hfresh before hbefore) _ rfl stage

/-- A new slot waits for its prefill at the end of the batch. -/
theorem Alive.getElem?_joined (h : Alive cfg s) {seed : SlotSeed} {skipSpecialTokens : Bool}
    {i : Nat} {row : ExecutionRow} (hi : (s.joined seed skipSpecialTokens).rows[i]? = some row) :
    if i = s.rows.length then row.Pending
    else if s.mPending = some i then row.Pending else row.Lives cfg := by
  have hrow : (s.rows ++ [seed.joinerRow skipSpecialTokens])[i]? = some row := hi
  split
  · rename_i heq
    rw [heq, List.getElem?_concat_length, Option.some.injEq] at hrow
    exact ⟨seed, skipSpecialTokens, hrow.symm⟩
  · rename_i hne
    have hlt : i < s.rows.length := by
      have hbound := (List.getElem?_eq_some_iff.1 hrow).1
      rw [List.length_append, List.length_singleton] at hbound
      omega
    rw [List.getElem?_append_left hlt] at hrow
    exact h.rows i row hrow

theorem getElem?_seated (good : Nat → ExecutionRow → Prop) {slot : Nat} {outcome : PrefillOutcome}
    {finalize : FinalizeOutcome}
    (hslot : ∀ row, s.rows[slot]? = some row → good slot (seatedRow cfg outcome finalize row))
    (hothers : ∀ i row, i ≠ slot → s.rows[i]? = some row → good i row) :
    ∀ i row, (s.seated cfg slot outcome finalize).rows[i]? = some row → good i row := by
  intro i row hi
  have hmodified : (s.rows.modify slot (seatedRow cfg outcome finalize))[i]? = some row := hi
  rw [List.getElem?_modify] at hmodified
  obtain ⟨before, hbefore, rfl⟩ := Option.map_eq_some_iff.1 hmodified
  by_cases heq : slot = i
  · rw [if_pos heq, ← heq]
    exact hslot before (heq ▸ hbefore)
  · rw [if_neg heq]
    exact hothers i before (Ne.symm heq) hbefore

/-- The seated prefill of a fused admission returns. -/
def Op.Returns (cfg : SessionConfig) : Op → Prop
  | .seatAdmission _ _ outcome finalize =>
    ∃ decision, seatedExit cfg outcome finalize = .ok decision
  | _ => True

theorem ensures_seatAdmission_alive (h : Alive cfg s) {seed : SlotSeed} {skipSpecialTokens : Bool}
    {outcome : PrefillOutcome} {finalize : FinalizeOutcome}
    (hreturns : (Op.seatAdmission seed skipSpecialTokens outcome finalize).Returns cfg) :
    Ensures (seatAdmission cfg seed skipSpecialTokens outcome finalize)
      (fun _ s' => Alive cfg s') (fun _ s' => Alive cfg s') s := by
  obtain ⟨decision, hexit⟩ := hreturns
  rw [seatAdmission, ensures_bind]
  apply (seatSlot_spec seed skipSpecialTokens).mono
  · rintro slot s₁ ⟨rfl, hne, rfl⟩
    have hlength : (s.joined seed skipSpecialTokens).rows.length = s.rows.length + 1 :=
      List.length_append
    have hseated : Alive cfg
        ((s.joined seed skipSpecialTokens).seated cfg s.rows.length outcome finalize) := by
      refine ⟨?_, ?_, h.filed⟩
      · apply getElem?_seated fun i row =>
          if s.mPending = some i then row.Pending else row.Lives cfg
        · intro row hrow
          have hnew := h.getElem?_joined hrow
          rw [if_pos rfl] at hnew
          -- a pending joiner comes before the new slot
          rw [if_neg (fun hpending => Nat.lt_irrefl _ (h.pendingLive _ hpending))]
          exact hnew.seated hexit
        · intro i row hother hrow
          have hold := h.getElem?_joined hrow
          rwa [if_neg hother] at hold
      · intro i hi
        have hlt := h.pendingLive i hi
        show i < (List.modify _ _ _).length
        rw [List.length_modify, hlength]
        omega
    apply (prefillSeated_spec s.rows.length outcome finalize).mono
    · rintro _ s₂ ⟨-, rfl⟩
      exact hseated
    · intro _ s₂ hfail
      cases hfail with
      | inl hdead =>
        -- the new slot is live and is not the first one
        exfalso
        apply hdead.1
        refine ⟨List.length_pos_iff.2 hne, ?_⟩
        rw [hlength]
        omega
      | inr hthrew =>
        rw [hthrew.2]
        exact hseated
  · rintro _ s₁ rfl
    exact h

theorem ensures_stepperAdmit_alive (h : Alive cfg s) (seed : SlotSeed) (skipSpecialTokens : Bool) :
    Ensures (stepperAdmit seed skipSpecialTokens) (fun _ s' => Alive cfg s')
      (fun _ s' => Alive cfg s') s := by
  rw [stepperAdmit, ensures_bind, ensures_read, ensures_bind, ensures_check]
  refine ⟨fun hpending => ?_, fun _ => h⟩
  rw [ensures_bind]
  apply (seatSlot_spec seed skipSpecialTokens).mono
  · rintro slot s₁ ⟨rfl, -, rfl⟩
    rw [ensures_modify]
    refine ⟨?_, ?_, h.filed⟩
    · intro i row hi
      have hrow := h.getElem?_joined hi
      have hnone : s.mPending = none := hpending
      rw [hnone, if_neg (show ¬ none = some i by simp)] at hrow
      show if some s.rows.length = some i then row.Pending else row.Lives cfg
      by_cases heq : i = s.rows.length
      · rw [if_pos heq] at hrow
        rw [if_pos (congrArg some heq.symm)]
        exact hrow
      · rw [if_neg heq] at hrow
        rw [if_neg (fun hsome => heq (Option.some.inj hsome).symm)]
        exact hrow
    · intro i hi
      cases hi
      show s.rows.length < (s.rows ++ [_]).length
      rw [List.length_append, List.length_singleton]
      omega
  · rintro _ s₁ rfl
    exact h

theorem ensures_stepperPrefill_alive (h : Alive cfg s) (outcome : PrefillOutcome)
    (finalize : FinalizeOutcome) (input : PrimeInput) :
    Ensures (stepperPrefill cfg outcome finalize input) (fun _ s' => Alive cfg s')
      (fun _ s' => GivenUp cfg s') s := by
  rw [stepperPrefill, ensures_bind, ensures_read]
  cases hpending : s.mPending with
  | none =>
    simp only [id, hpending]
    exact ensures_prime_alive hpending (Or.inl (h.lives hpending)) h.filed input
  | some slot =>
    simp only [id, hpending]
    have hslot : ∀ row, s.rows[slot]? = some row → row.Pending := by
      intro row hrow
      have halive := h.rows slot row hrow
      rwa [hpending, if_pos rfl] at halive
    have hothers : ∀ i row, i ≠ slot → s.rows[i]? = some row → row.Lives cfg := by
      intro i row hne hrow
      have halive := h.rows i row hrow
      rwa [hpending, if_neg (fun hsome => hne (Option.some.inj hsome).symm)] at halive
    rw [ensures_bind, ensures_modify, ensures_bind]
    apply (prefillSeated_spec slot outcome finalize).mono
    · rintro decision s₁ ⟨hexit, rfl⟩
      have hseated : Alive cfg
          (({ s with mPending := none } : GenerationSession).seated cfg slot outcome finalize) := by
        apply Alive.of_lives (s := ({ s with mPending := none } : GenerationSession).seated cfg
          slot outcome finalize) rfl _ h.filed
        intro row hmem
        obtain ⟨i, hi⟩ := List.mem_iff_getElem?.1 hmem
        refine getElem?_seated (fun _ row => row.Lives cfg) ?_ hothers i row hi
        exact fun row hrow => (hslot row hrow).seated hexit
      rw [ensures_bind, ensures_read, ensures_ite]
      constructor
      · intro _
        apply (ensures_performBatchEvict input.evicted).mono
        · rintro _ s' rfl
          exact hseated.evict rfl
        · rintro _ s' rfl
          exact hseated.givenUp
      · exact fun _ => hseated
    · intro _ s₁ hfail
      rcases hfail with hdead | hthrew
      · rw [hdead.2]
        exact ⟨h.givenUp.rows, h.filed⟩
      · rw [hthrew.2]
        refine ⟨?_, h.filed⟩
        intro row hmem
        obtain ⟨i, hi⟩ := List.mem_iff_getElem?.1 hmem
        refine getElem?_seated (fun _ row => row.Torn cfg) ?_ ?_ i row hi
        · intro row hrow
          obtain ⟨seed, skip, rfl⟩ := hslot row hrow
          exact .seated seed skip outcome finalize
        · exact fun i row hne hrow => .lives (hothers i row hne hrow)

/-- A cancellation reaches one slot, the pending joiner or a life. -/
theorem Alive.cancel (h : Alive cfg s) (slot : Nat) :
    Alive cfg { s with rows := s.rows.modify slot ExecutionRow.cancel } where
  rows := by
    intro i row hi
    have hmodified : (s.rows.modify slot ExecutionRow.cancel)[i]? = some row := hi
    rw [List.getElem?_modify] at hmodified
    obtain ⟨before, hbefore, rfl⟩ := Option.map_eq_some_iff.1 hmodified
    have hrow := h.rows i before hbefore
    show if s.mPending = some i then _ else _
    split
    · rename_i hpending
      rw [if_pos hpending] at hrow
      split
      · exact hrow.cancel
      · exact hrow
    · rename_i hlive
      rw [if_neg hlive] at hrow
      split
      · exact hrow.apply .cancel
      · exact hrow
  pendingLive := by
    intro i hi
    show i < (List.modify _ _ _).length
    rw [List.length_modify]
    exact h.pendingLive i hi
  filed := h.filed

/-- One operation: it leaves the session at a step boundary unless it gives the
session up. -/
theorem ensures_call_alive (h : Alive cfg s) {op : Op} (hreturns : op.Returns cfg) :
    Ensures (call cfg op) (fun _ s' => Alive cfg s')
      (fun _ s' => GivenUp cfg s' ∧ (op.fatal = false → Alive cfg s')) s := by
  have hboth : ∀ {s' : GenerationSession} {p : Prop}, Alive cfg s' →
      GivenUp cfg s' ∧ (p → Alive cfg s') :=
    fun halive => ⟨halive.givenUp, fun _ => halive⟩
  have hfatal : ∀ {s' : GenerationSession} {p : Prop}, GivenUp cfg s' →
      GivenUp cfg s' ∧ (true = false → p) :=
    fun hgiven => ⟨hgiven, fun hfalse => by cases hfalse⟩
  cases op with
  | advance input =>
    rw [call, ensures_bind, ensures_read, ensures_bind, ensures_check]
    constructor
    · intro hpending
      apply (ensures_advance_alive h hpending input).mono
      · exact fun _ _ halive => halive
      · exact fun _ _ hgiven => hfatal hgiven
    · exact fun _ => hboth h
  | seatAdmission seed skip outcome finalize =>
    rw [call, ensures_bind]
    apply (ensures_seatAdmission_alive h hreturns).mono
    · exact fun _ _ halive => halive
    · exact fun _ _ halive => hboth halive
  | stepperAdmit seed skip =>
    apply (ensures_stepperAdmit_alive h seed skip).mono
    · exact fun _ _ halive => halive
    · exact fun _ _ halive => hboth halive
  | stepperPrefill outcome finalize input =>
    apply (ensures_stepperPrefill_alive h outcome finalize input).mono
    · exact fun _ _ halive => halive
    · exact fun _ _ hgiven => hfatal hgiven
  | cancel i => exact h.cancel i
  | takeCompleted firstIndex =>
    refine ⟨h.rows, h.pendingLive, ?_⟩
    exact fun result hmem => h.filed result (List.mem_of_mem_filter hmem)

end Alive

/-! ## Runs -/

/-- The prefill samples a token for every founder but in a diffusion backbone. -/
def Prefilled (cfg : SessionConfig) (founders : List Founder) : Prop :=
  ∀ founder ∈ founders, founder.firstToken.isSome = !cfg.isDiffusionBackbone

/-- A session between two operations, as long as no fused admission throws out of
its prefill. -/
inductive Reached (cfg : SessionConfig) (founders : List Founder) (skipSpecialTokens : Bool) :
    GenerationSession → Prop where
  | primed {input : PrimeInput} {s : GenerationSession}
      (h : primeFromPrefill cfg input (found founders skipSpecialTokens) = (.ok ⟨⟩, s)) :
      Reached cfg founders skipSpecialTokens s
  | step {op : Op} {s s' : GenerationSession} (before : Reached cfg founders skipSpecialTokens s)
      (hreturns : op.Returns cfg) (h : call cfg op s = (.ok ⟨⟩, s')) :
      Reached cfg founders skipSpecialTokens s'
  | rejected {op : Op} {s s' : GenerationSession} {failure : SessionFailure}
      (before : Reached cfg founders skipSpecialTokens s) (hreturns : op.Returns cfg)
      (hrejected : op.fatal = false) (h : call cfg op s = (.error failure, s')) :
      Reached cfg founders skipSpecialTokens s'

/-- A session that was given up: before its first step boundary, or by a failed
operation. -/
inductive Abandoned (cfg : SessionConfig) (founders : List Founder) (skipSpecialTokens : Bool) :
    GenerationSession → Prop where
  | founding : Abandoned cfg founders skipSpecialTokens (found founders skipSpecialTokens)
  | priming {input : PrimeInput} {s : GenerationSession} {failure : SessionFailure}
      (h : primeFromPrefill cfg input (found founders skipSpecialTokens) = (.error failure, s)) :
      Abandoned cfg founders skipSpecialTokens s
  | step {op : Op} {s s' : GenerationSession} {failure : SessionFailure}
      (before : Reached cfg founders skipSpecialTokens s) (hreturns : op.Returns cfg)
      (h : call cfg op s = (.error failure, s')) :
      Abandoned cfg founders skipSpecialTokens s'

section Runs

variable {cfg : SessionConfig} {founders : List Founder} {skipSpecialTokens : Bool}
variable {s : GenerationSession}

theorem Prefilled.fresh (h : Prefilled cfg founders) (skipSpecialTokens : Bool) :
    ∀ row ∈ (found founders skipSpecialTokens).rows, row.Fresh cfg := by
  intro row hmem
  obtain ⟨founder, hfounder, rfl⟩ := List.mem_map.1 hmem
  exact ⟨founder, skipSpecialTokens, h founder hfounder, rfl⟩

theorem Prefilled.prime (h : Prefilled cfg founders) (skipSpecialTokens : Bool)
    (input : PrimeInput) : Ensures (primeFromPrefill cfg input) (fun _ s' => Alive cfg s')
      (fun _ s' => GivenUp cfg s') (found founders skipSpecialTokens) := by
  apply ensures_prime_alive rfl (Or.inr (h.fresh skipSpecialTokens))
  intro result hmem
  cases hmem

/-- Every slot between two operations, and every result filed, comes from a
life. -/
theorem Reached.alive (hprefilled : Prefilled cfg founders)
    (h : Reached cfg founders skipSpecialTokens s) : Alive cfg s := by
  induction h with
  | @primed input s hprime =>
    have hensures := hprefilled.prime skipSpecialTokens input
    rw [Ensures, hprime] at hensures
    exact hensures
  | step before hreturns hcall ih =>
    have hensures := ensures_call_alive ih hreturns
    rw [Ensures, hcall] at hensures
    exact hensures
  | rejected before hreturns hrejected hcall ih =>
    have hensures := ensures_call_alive ih hreturns
    rw [Ensures, hcall] at hensures
    exact hensures.2 hrejected

theorem Abandoned.givenUp (hprefilled : Prefilled cfg founders)
    (h : Abandoned cfg founders skipSpecialTokens s) : GivenUp cfg s := by
  cases h with
  | founding =>
    refine ⟨fun row hmem => .fresh (hprefilled.fresh skipSpecialTokens row hmem), ?_⟩
    intro result hmem
    cases hmem
  | @priming input s failure hprime =>
    have hensures := hprefilled.prime skipSpecialTokens input
    rw [Ensures, hprime] at hensures
    exact hensures
  | step before hreturns hcall =>
    have hensures := ensures_call_alive (before.alive hprefilled) hreturns
    rw [Ensures, hcall] at hensures
    exact hensures.1

end Runs

end GenerationSession

end EdgeLLM.Ports.Generation
