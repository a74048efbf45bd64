import EdgeLLM.Ports.ContextCacheReachable

/-!
# The layout of a reuse plan

What lease layout and snapshot restore rely on: a plan leaves at least one
token to prefill, its bound and its private pages are the pages of the input,
base and draft path are equally long, and a reused token lies on a bound page
or on the private page that the partial snapshot is restored to.
-/

namespace EdgeLLM.Ports.ContextCache

open Verified

set_option linter.unusedSectionVars false

variable {H : Type} [DecidableEq H]

/-- The page index `preparePrefill` restores a partial snapshot to, if plans of
the mode have one. -/
def restorePage (mode : ReusePlanMode) (reuseTokenLength pageSize : Int) : Option Int :=
  match mode with
  | .vanilla | .spec => none
  | .hybrid => some (reuseTokenLength / pageSize)
  | .hybridMtp => some ((reuseTokenLength - 1) / pageSize)

/-- The layout of a plan for `inputTokenCount` tokens. -/
structure ReusePlan.LaidOut (mode : ReusePlanMode) (inputTokenCount pageSize : Int)
    (hasAttention ownsDraft : Bool) (plan : ReusePlan H) : Prop where
  mode_eq : plan.mode = mode
  nonneg : 0 ≤ plan.reuseTokenLength
  prefills : plan.reuseTokenLength < inputTokenCount
  base : hasAttention = true → plan.basePageBindings.length + plan.demand.baseKvPages =
    (inputTokenCount + pageSize - 1) / pageSize
  draft : ownsDraft = true → plan.specPageBindings.length = plan.basePageBindings.length ∧
    plan.specPageBindings.length + plan.demand.draftKvPages =
      (inputTokenCount + pageSize - 1) / pageSize
  resident : hasAttention = true → ∀ position, 0 ≤ position → position < plan.reuseTokenLength →
    position / pageSize < plan.basePageBindings.length ∨
      restorePage mode plan.reuseTokenLength pageSize = some (position / pageSize) ∧
        plan.partialKvSnapshotBinding.isSome = true
  restored : plan.partialKvSnapshotBinding.isSome = true →
    ∃ page, restorePage mode plan.reuseTokenLength pageSize = some page ∧
      plan.basePageBindings.length ≤ page ∧
      page < plan.basePageBindings.length + plan.demand.baseKvPages ∧
      0 < plan.reuseTokenLength - page * pageSize

section PageCounts

variable {inputTokenCount pageSize : Int} (hpage : 0 < pageSize)

include hpage

/-- The page of the last token is the last page. -/
theorem inputPages_eq :
    (inputTokenCount + pageSize - 1) / pageSize = (inputTokenCount - 1) / pageSize + 1 := by
  rw [show inputTokenCount + pageSize - 1 = inputTokenCount - 1 + 1 * pageSize by omega,
    Int.add_mul_ediv_right _ _ (by omega)]

/-- A shorter prefix ends on an earlier page, or on the last. -/
theorem page_lt_inputPages {position : Int} (hlt : position < inputTokenCount) :
    position / pageSize < (inputTokenCount + pageSize - 1) / pageSize := by
  have hle : position / pageSize ≤ (inputTokenCount - 1) / pageSize :=
    Int.ediv_le_ediv hpage (by omega)
  rw [inputPages_eq hpage]
  omega

theorem inputPages_pos (hinput : 0 < inputTokenCount) :
    0 < (inputTokenCount + pageSize - 1) / pageSize := by
  have hlt := page_lt_inputPages hpage hinput
  rwa [Int.zero_ediv] at hlt

/-- Whole pages of an input are pages of it, and leave a token over unless they
are all of it. -/
theorem fullPages_lt {count : Int} (hcount : count ≤ inputTokenCount / pageSize)
    (hnot : ¬(inputTokenCount % pageSize = 0 ∧
      count = (inputTokenCount + pageSize - 1) / pageSize)) :
    count * pageSize < inputTokenCount := by
  have hdiv := Int.mul_ediv_add_emod inputTokenCount pageSize
  have hmod := Int.emod_nonneg inputTokenCount (Int.ne_of_gt hpage)
  have hle : count * pageSize ≤ inputTokenCount / pageSize * pageSize :=
    Int.mul_le_mul_of_nonneg_right hcount (by omega)
  have hcomm := Int.mul_comm pageSize (inputTokenCount / pageSize)
  by_cases hzero : inputTokenCount % pageSize = 0
  · have hends : (inputTokenCount + pageSize - 1) / pageSize = inputTokenCount / pageSize := by
      rw [show inputTokenCount + pageSize - 1 =
          pageSize - 1 + inputTokenCount / pageSize * pageSize by omega,
        Int.add_mul_ediv_right _ _ (by omega), Int.ediv_eq_zero_of_lt (by omega) (by omega),
        Int.zero_add]
    have hlt : count < inputTokenCount / pageSize := by
      rw [hends] at hnot
      omega
    have hstep : (count + 1) * pageSize ≤ inputTokenCount / pageSize * pageSize :=
      Int.mul_le_mul_of_nonneg_right (by omega) (by omega)
    rw [Int.add_mul] at hstep
    omega
  · omega

/-- The pages kept of a matched prefix leave a token over if a match of the whole
input gives up a page. -/
theorem keptPages_lt {kept matched : Int} (hkept : kept ≤ matched)
    (hmatched : matched ≤ inputTokenCount / pageSize) (hrewind : inputTokenCount % pageSize = 0 →
      matched = (inputTokenCount + pageSize - 1) / pageSize → kept < matched) :
    kept * pageSize < inputTokenCount := by
  have htotal : inputTokenCount / pageSize ≤ (inputTokenCount + pageSize - 1) / pageSize :=
    Int.ediv_le_ediv hpage (by omega)
  apply fullPages_lt hpage (by omega)
  intro hall
  have hless := hrewind hall.1 (by omega)
  omega

/-- A token before the end of some whole pages is on one of them. -/
theorem page_of_lt {position count : Int}
    (hlt : position < count * pageSize) : position / pageSize < count :=
  Int.ediv_lt_of_lt_mul hpage hlt

end PageCounts

/-! ## The planners -/

section Planners

variable {hashes : List H} {inputTokenCount pageSize : Int} {policy : ContextCacheLookupPolicy}

variable {mode : ReusePlanMode} {ownsDraft : Bool} {contract : SpecReuseContract} {id : RecordId}
variable {record : CacheRecord H}

theorem laidOut_cold {plan : ReusePlan H} {hasAttention : Bool} (hinput : 0 < inputTokenCount)
    (hmode : plan.mode = mode) (hreuse : plan.reuseTokenLength = 0)
    (hpages : plan.basePageBindings = []) (hspec : plan.specPageBindings = [])
    (hbase : hasAttention = true →
      plan.demand.baseKvPages = (inputTokenCount + pageSize - 1) / pageSize)
    (hdraft : ownsDraft = true →
      plan.demand.draftKvPages = (inputTokenCount + pageSize - 1) / pageSize)
    (hlastPage : plan.partialKvSnapshotBinding = none) :
    plan.LaidOut mode inputTokenCount pageSize hasAttention ownsDraft where
  mode_eq := hmode
  nonneg := by rw [hreuse]
  prefills := by rw [hreuse]; exact hinput
  base := by
    intro hattention
    rw [hpages, hbase hattention, List.length_nil]
    exact Int.zero_add _
  draft := by
    intro howns
    rw [hpages, hspec, hdraft howns, List.length_nil]
    exact ⟨rfl, Int.zero_add _⟩
  resident := by
    intro _ position hlow hhigh
    omega
  restored := by simp [hlastPage]

theorem exists_of_outcome {x : Except Check (ReusePlan H)} {Q : ReusePlan H → Prop}
    (h : Outcome x Q fun _ => False) : ∃ plan, x = .ok plan ∧ Q plan := by
  cases x with
  | ok plan => exact ⟨plan, rfl, h⟩
  | error e => exact h.elim

variable (hpage : 0 < pageSize)

include hpage

theorem laidOut_pages {plan : ReusePlan H} {hasAttention : Bool} (hmode : plan.mode = mode)
    (hreuse : plan.reuseTokenLength = plan.basePageBindings.length * pageSize)
    (hprefills : plan.reuseTokenLength < inputTokenCount)
    (hbase : plan.basePageBindings.length + plan.demand.baseKvPages =
      (inputTokenCount + pageSize - 1) / pageSize)
    (hdraft : ownsDraft = true → plan.specPageBindings.length = plan.basePageBindings.length ∧
      plan.specPageBindings.length + plan.demand.draftKvPages =
        (inputTokenCount + pageSize - 1) / pageSize)
    (hlastPage : plan.partialKvSnapshotBinding = none) :
    plan.LaidOut mode inputTokenCount pageSize hasAttention ownsDraft where
  mode_eq := hmode
  nonneg := by
    rw [hreuse]
    exact Int.mul_nonneg (Int.natCast_nonneg _) (Int.le_of_lt hpage)
  prefills := hprefills
  base := fun _ => hbase
  draft := hdraft
  resident := by
    intro _ position _ hlt
    rw [hreuse] at hlt
    exact Or.inl (page_of_lt hpage hlt)
  restored := by simp [hlastPage]

/-- The registered contracts: at most one token ahead, and then an owned path. -/
def SpecReuseContract.Registered (contract : SpecReuseContract) : Prop :=
  contract.futureDependencyTokens = 0 ∨
    contract.futureDependencyTokens = 1 ∧ contract.ownsPagedSpecState = true

theorem SpecReuseContract.Registered.replayPages_eq (h : contract.Registered) :
    replayPages contract pageSize = .ok contract.futureDependencyTokens := by
  rw [replayPages, requireThat_of hpage]
  rcases h with hzero | hone
  · rw [hzero, requireThat_of (Int.le_refl 0)]
    show Except.ok ((0 + pageSize - 1) / pageSize) = _
    rw [Int.ediv_eq_zero_of_lt (by omega) (by omega)]
  · rw [hone.1, requireThat_of (by omega)]
    show Except.ok ((1 + pageSize - 1) / pageSize) = _
    rw [show 1 + pageSize - 1 = pageSize by omega, Int.ediv_self (by omega)]

/-- The paired prefix ends with at least the pages that are replayed or rewound. -/
theorem finishSpecReusePlan_laidOut (hinput : 0 < inputTokenCount)
    {contract : SpecReuseContract} (hcontract : contract.Registered) {basePageIds : List PageId}
    {paired : PairedPrefix} (hmatched : paired.blockCount ≤ inputTokenCount / pageSize)
    (hnonneg : 0 ≤ paired.blockCount)
    (hpos : contract.ownsPagedSpecState = true → 0 < paired.blockCount)
    (hbase : paired.blockCount ≤ basePageIds.length) (hspec : contract.ownsPagedSpecState = true →
      (paired.specPages.length : Int) = paired.blockCount) :
    ∃ plan, finishSpecReusePlan hashes inputTokenCount pageSize
        ((inputTokenCount + pageSize - 1) / pageSize) basePageIds paired contract = .ok plan ∧
      plan.LaidOut .spec inputTokenCount pageSize true contract.ownsPagedSpecState := by
  have hsome := inputPages_pos hpage hinput
  have hrewind : max contract.futureDependencyTokens (if inputTokenCount % pageSize = 0 ∧
      paired.blockCount = (inputTokenCount + pageSize - 1) / pageSize then 1 else 0) ≤
        paired.blockCount := by
    apply max_le
    · cases hcontract with
      | inl hzero => omega
      | inr hone =>
        have hpaired := hpos hone.2
        omega
    · split <;> omega
  have hfuture : 0 ≤ contract.futureDependencyTokens := by
    cases hcontract <;> omega
  rw [finishSpecReusePlan, hcontract.replayPages_eq hpage]
  simp only [bind, Except.bind]
  rw [requireThat_of hrewind]
  generalize hdropped : max contract.futureDependencyTokens (if inputTokenCount % pageSize = 0 ∧
      paired.blockCount = (inputTokenCount + pageSize - 1) / pageSize then 1 else 0) = dropped
    at hrewind ⊢
  have hdrop : 0 ≤ dropped := by
    rw [← hdropped]
    exact le_max_of_le_left hfuture
  have hlen : ((basePageIds.take (paired.blockCount - dropped).toNat).length : Int) =
      paired.blockCount - dropped := by
    rw [List.length_take]
    omega
  refine ⟨_, rfl, ?_⟩
  apply laidOut_pages hpage
  · rfl
  · rfl
  · show ((basePageIds.take (paired.blockCount - dropped).toNat).length : Int) * pageSize < _
    rw [hlen]
    apply keptPages_lt hpage (by omega) hmatched
    intro hzero hall
    have hone : 1 ≤ dropped := by
      rw [← hdropped, if_pos ⟨hzero, hall⟩]
      exact le_max_right _ _
    omega
  · exact add_sub_cancel _ _
  · intro howns
    have hspecLen : (paired.specPages.take (paired.blockCount - dropped).toNat).length =
        (basePageIds.take (paired.blockCount - dropped).toNat).length := by
      have hpages := hspec howns
      rw [List.length_take, List.length_take]
      omega
    simp only [if_pos howns]
    constructor
    · exact hspecLen
    · omega
  · rfl

/-- A complete checkpoint shorter than the input. -/
theorem acceptHybrid_laidOut {hasAttention : Bool}
    {key : HybridCheckpointKey H} {plan : ReusePlan H} (hpos : 0 < key.exactLength)
    (hshort : key.exactLength < inputTokenCount)
    (haccept : acceptHybrid hashes ((inputTokenCount + pageSize - 1) / pageSize) pageSize
      hasAttention key id record = some plan) :
    plan.LaidOut .hybrid inputTokenCount pageSize hasAttention false := by
  have hlast := page_lt_inputPages hpage hshort
  have hsplit := Int.mul_ediv_add_emod key.exactLength pageSize
  have hcomm := Int.mul_comm pageSize (key.exactLength / pageSize)
  have hmod := Int.emod_nonneg key.exactLength (Int.ne_of_gt hpage)
  unfold acceptHybrid at haccept
  rw [Option.ite_none_right_eq_some] at haccept
  obtain ⟨⟨-, hset, hpath, -⟩, hplan⟩ := haccept
  have hlastPage := hset.2
  cases hplan
  cases hasAttention with
  | false =>
    simp only [Bool.false_and] at hlastPage
    exact
      { mode_eq := rfl
        nonneg := Int.le_of_lt hpos
        prefills := hshort
        base := by simp
        draft := by simp
        resident := by simp
        restored := by simp [hlastPage] }
  | true =>
    rw [Bool.true_and] at hlastPage
    simp only [if_true] at hpath ⊢
    exact
      { mode_eq := rfl
        nonneg := Int.le_of_lt hpos
        prefills := hshort
        base := fun _ => by
          show (record.basePagePath.length : Int) + (_ - _) = _
          rw [hpath]
          exact add_sub_cancel _ _
        draft := by simp
        resident := by
          intro _ position hlow hhigh
          have hle : position / pageSize ≤ key.exactLength / pageSize :=
            Int.ediv_le_ediv hpage (Int.le_of_lt hhigh)
          by_cases hbound : position / pageSize < key.exactLength / pageSize
          · left
            show position / pageSize < (record.basePagePath.length : Int)
            omega
          · right
            -- the token is behind the whole pages, so the checkpoint has a partial page
            have heq : position / pageSize = key.exactLength / pageSize := by omega
            have hstart := Int.ediv_mul_le position (Int.ne_of_gt hpage)
            rw [heq] at hstart ⊢
            constructor
            · rfl
            · show record.partialKvSnapshotSlot.isSome = true
              rw [hlastPage, decide_eq_true_iff]
              have hbefore : position < key.exactLength := hhigh
              omega
        restored := by
          intro hsome
          have hrest : key.exactLength % pageSize ≠ 0 := by
            rw [hlastPage, decide_eq_true_iff] at hsome
            exact hsome
          refine ⟨key.exactLength / pageSize, rfl, ?_, ?_, ?_⟩
          · show (record.basePagePath.length : Int) ≤ _
            omega
          · show _ < (record.basePagePath.length : Int) + (_ - _)
            omega
          · show 0 < key.exactLength - _
            omega }

/-- A complete combined checkpoint shorter than the input. -/
theorem acceptHybridMtp_laidOut {key : HybridCheckpointKey H}
    {plan : ReusePlan H} (hpos : 0 < key.exactLength) (hshort : key.exactLength < inputTokenCount)
    (haccept : acceptHybridMtp hashes ((inputTokenCount + pageSize - 1) / pageSize) pageSize
      key id record = some plan) : plan.LaidOut .hybridMtp inputTokenCount pageSize true true := by
  have hlast := page_lt_inputPages hpage (show key.exactLength - 1 < inputTokenCount by omega)
  have hsplit := Int.mul_ediv_add_emod (key.exactLength - 1) pageSize
  have hcomm := Int.mul_comm pageSize ((key.exactLength - 1) / pageSize)
  have hmod := Int.emod_nonneg (key.exactLength - 1) (Int.ne_of_gt hpage)
  unfold acceptHybridMtp at haccept
  rw [Option.ite_none_right_eq_some] at haccept
  obtain ⟨⟨-, hset, hbase, hdraft⟩, hplan⟩ := haccept
  cases hplan
  have hprivate : (record.basePagePath.length : Int) + ((inputTokenCount + pageSize - 1) / pageSize -
      (key.exactLength - 1) / pageSize) = (inputTokenCount + pageSize - 1) / pageSize := by
    rw [hbase]
    exact add_sub_cancel _ _
  have hpaired : (specPages record.specState).length = record.basePagePath.length := by
    have hlen := hdraft.2
    omega
  exact
    { mode_eq := rfl
      nonneg := Int.le_of_lt hpos
      prefills := hshort
      base := fun _ => hprivate
      draft := by
        intro _
        constructor
        · exact hpaired
        · show ((specPages record.specState).length : Int) + _ = _
          rw [hpaired]
          exact hprivate
      resident := by
        intro _ position hlow hhigh
        have hbefore : position < key.exactLength := hhigh
        have hle : position / pageSize ≤ (key.exactLength - 1) / pageSize :=
          Int.ediv_le_ediv hpage (by omega)
        by_cases hbound : position / pageSize < (key.exactLength - 1) / pageSize
        · left
          show position / pageSize < (record.basePagePath.length : Int)
          omega
        · right
          have heq : position / pageSize = (key.exactLength - 1) / pageSize := by omega
          rw [heq]
          exact ⟨rfl, hset.2⟩
      restored := by
        intro _
        refine ⟨(key.exactLength - 1) / pageSize, rfl, ?_, ?_, ?_⟩
        · show (record.basePagePath.length : Int) ≤ _
          omega
        · show _ < (record.basePagePath.length : Int) + (_ - _)
          omega
        · show 0 < key.exactLength - _
          omega }

variable (hinput : 0 < inputTokenCount)
variable (hhashes : (hashes.length : Int) ≤ inputTokenCount / pageSize)

include hinput hhashes

theorem validate_ok : validateAndCountInputPages hashes inputTokenCount pageSize =
      .ok ((inputTokenCount + pageSize - 1) / pageSize) := by
  rw [validateAndCountInputPages, requireThat_of hpage, requireThat_of (Int.le_of_lt hinput),
    requireThat_of hhashes]
  rfl

theorem makeVanillaReusePlan_laidOut (index : BaseBlockIndex H) :
    ∃ plan, makeVanillaReusePlan hashes inputTokenCount pageSize index policy = .ok plan ∧
      plan.LaidOut .vanilla inputTokenCount pageSize true false := by
  have hlookup : (index.lookupPrefix hashes).pageIds.length ≤ hashes.length :=
    lookupPrefix_length_le hashes
  have hsome := inputPages_pos hpage hinput
  have hmatched : ((index.lookupPrefix hashes).pageIds.length : Int) ≤
      inputTokenCount / pageSize := by omega
  rw [makeVanillaReusePlan, validate_ok hpage hinput hhashes]
  simp only [bind, Except.bind]
  rw [if_neg (by omega)]
  by_cases hbypass : policy = .bypass
  · rw [if_pos hbypass]
    refine ⟨_, rfl, laidOut_pages hpage rfl (by simp) hinput (by simp) (by simp) rfl⟩
  · rw [if_neg hbypass]
    refine ⟨_, rfl, ?_⟩
    by_cases hrewind : inputTokenCount % pageSize = 0 ∧
        ((index.lookupPrefix hashes).pageIds.length : Int) =
          (inputTokenCount + pageSize - 1) / pageSize
    · -- the whole input matched: its last page is given up
      have hlen : ((index.lookupPrefix hashes).pageIds.dropLast.length : Int) =
          (index.lookupPrefix hashes).pageIds.length - 1 := by
        rw [List.length_dropLast]
        omega
      simp only [if_pos hrewind]
      apply laidOut_pages hpage
      · rfl
      · rfl
      · show ((index.lookupPrefix hashes).pageIds.dropLast.length : Int) * pageSize < _
        exact keptPages_lt hpage (by omega) hmatched fun _ _ => by omega
      · exact add_sub_cancel _ _
      · simp
      · rfl
    · simp only [if_neg hrewind]
      apply laidOut_pages hpage
      · rfl
      · rfl
      · show ((index.lookupPrefix hashes).pageIds.length : Int) * pageSize < _
        exact keptPages_lt hpage (Int.le_refl _) hmatched
          fun hzero hall => absurd ⟨hzero, hall⟩ hrewind
      · exact add_sub_cancel _ _
      · simp
      · rfl

theorem makeSpecReusePlan_laidOut (index : BaseBlockIndex H)
    {store : CacheRecordStore H} (hs : store.Coherent) {specIndex : SpecPagedStateIndex H}
    (hcarries : specIndex.Carries store.specLedger) (hcontract : contract.Registered) :
    ∃ plan, makeSpecReusePlan hashes inputTokenCount pageSize policy index specIndex store
        contract = .ok plan ∧
      plan.LaidOut .spec inputTokenCount pageSize true contract.ownsPagedSpecState := by
  have hlookup : (index.lookupPrefix hashes).pageIds.length ≤ hashes.length :=
    lookupPrefix_length_le hashes
  have hvalid := validate_ok hpage hinput hhashes
  apply exists_of_outcome
  apply makeSpecReusePlan_rule hs hcarries
  · rw [hvalid]
    trivial
  · intro total kind htotal
    rw [hvalid, Except.ok.injEq] at htotal
    apply laidOut_cold hinput
    · rfl
    · rfl
    · rfl
    · rfl
    · exact fun _ => htotal.symm
    · intro howns
      show (if contract.ownsPagedSpecState then total else 0) = _
      rw [if_pos howns, htotal]
    · rfl
  · intro total paired htotal _ _ hnonneg hpos hbase hspec
    rw [hvalid, Except.ok.injEq] at htotal
    have hmatched : paired.blockCount ≤ inputTokenCount / pageSize := by omega
    have hfinish := @finishSpecReusePlan_laidOut H _ hashes _ _ hpage hinput _ hcontract _ _ hmatched
      hnonneg hpos hbase hspec
    rw [htotal] at hfinish
    obtain ⟨plan, hplan, hlaid⟩ := hfinish
    rw [hplan]
    exact hlaid

theorem makeHybridReusePlan_laidOut {store : CacheRecordStore H}
    (hs : store.Coherent) (candidates : List (HybridCheckpointCandidate H)) (hasAttention : Bool) :
    ∃ plan, makeHybridReusePlan candidates hashes inputTokenCount pageSize hasAttention store
        policy = .ok plan ∧ plan.LaidOut .hybrid inputTokenCount pageSize hasAttention false := by
  have hcold : ∀ kind, ReusePlan.LaidOut .hybrid inputTokenCount pageSize hasAttention false
      { mode := .hybrid, hybridHasAttention := hasAttention, kind := kind,
        demand := { baseKvPages :=
          if hasAttention then (inputTokenCount + pageSize - 1) / pageSize else 0 } :
          ReusePlan H } := by
    intro kind
    apply laidOut_cold hinput
    · rfl
    · rfl
    · rfl
    · rfl
    · intro hattention
      simp [hattention]
    · simp
    · rfl
  apply exists_of_outcome
  rw [makeHybridReusePlan, validate_ok hpage hinput hhashes, outcome_bind, outcome_ok]
  exact searchPlan_outcome hs (hcold _) (fun _ _ _ _ hpos hshort _ haccept =>
    acceptHybrid_laidOut hpage hpos hshort haccept) _

theorem makeHybridMtpReusePlan_laidOut {store : CacheRecordStore H}
    (hs : store.Coherent) (candidates : List (HybridCheckpointCandidate H)) :
    ∃ plan, makeHybridMtpReusePlan candidates hashes inputTokenCount pageSize store policy =
        .ok plan ∧ plan.LaidOut .hybridMtp inputTokenCount pageSize true true := by
  have hcold : ∀ kind, ReusePlan.LaidOut .hybridMtp inputTokenCount pageSize true true
      { mode := .hybridMtp, hybridHasAttention := true, kind := kind,
        demand :=
          { baseKvPages := (inputTokenCount + pageSize - 1) / pageSize
            draftKvPages := (inputTokenCount + pageSize - 1) / pageSize } : ReusePlan H } :=
    fun _ => laidOut_cold hinput rfl rfl rfl rfl (fun _ => rfl) (fun _ => rfl) rfl
  apply exists_of_outcome
  rw [makeHybridMtpReusePlan, validate_ok hpage hinput hhashes, outcome_bind, outcome_ok]
  exact searchPlan_outcome hs (hcold _) (fun _ _ _ _ hpos hshort _ haccept =>
    acceptHybridMtp_laidOut hpage hpos hshort haccept) _

end Planners

namespace World

/-- Reuse plans over every run: for any page size, any input of at least one
token, at most one hash for each whole page, and any lookup policy, no check of
the four planners fires and the plan is laid out — the speculative one for a
contract that looks no token ahead, or one token ahead with an owned path. -/
theorem reusePlans_laidOut {pageSize maxRecords : Int} {capacities : ResourceDemand}
    {registered : Option SpecReuseContract} {m : ContextCacheManager H}
    (h : ContextCacheManager.make pageSize capacities maxRecords registered = .ok m)
    (ops : List (Op H)) (hashes : List H) (inputTokenCount tokensPerPage : Int)
    (policy : ContextCacheLookupPolicy) (hpage : 0 < tokensPerPage) (hinput : 0 < inputTokenCount)
    (hhashes : (hashes.length : Int) ≤ inputTokenCount / tokensPerPage) :
    let reached := (run ops (start m)).manager
    (∃ plan, makeVanillaReusePlan hashes inputTokenCount tokensPerPage reached.baseIndex policy =
        .ok plan ∧
      plan.LaidOut .vanilla inputTokenCount tokensPerPage true false) ∧
    (∀ contract : SpecReuseContract, contract.Registered →
      ∃ plan, makeSpecReusePlan hashes inputTokenCount tokensPerPage policy reached.baseIndex
          reached.specIndex reached.records contract = .ok plan ∧
        plan.LaidOut .spec inputTokenCount tokensPerPage true contract.ownsPagedSpecState) ∧
    (∀ candidates hasAttention,
      ∃ plan, makeHybridReusePlan candidates hashes inputTokenCount tokensPerPage hasAttention
          reached.records policy = .ok plan ∧
        plan.LaidOut .hybrid inputTokenCount tokensPerPage hasAttention false) ∧
    (∀ candidates,
      ∃ plan, makeHybridMtpReusePlan candidates hashes inputTokenCount tokensPerPage
          reached.records policy = .ok plan ∧
        plan.LaidOut .hybridMtp inputTokenCount tokensPerPage true true) := by
  intro reached
  have hsound := (run_sound ops (start_sound h)).manager
  refine ⟨?_, ?_, ?_, ?_⟩
  · exact makeVanillaReusePlan_laidOut hpage hinput hhashes reached.baseIndex
  · intro contract hcontract
    exact makeSpecReusePlan_laidOut hpage hinput hhashes reached.baseIndex hsound.coherent
      hsound.carries hcontract
  · intro candidates hasAttention
    exact makeHybridReusePlan_laidOut hpage hinput hhashes hsound.coherent candidates hasAttention
  · intro candidates
    exact makeHybridMtpReusePlan_laidOut hpage hinput hhashes hsound.coherent candidates

/-- A published page of two tokens, then an input of three. -/
theorem reusePlans_laidOut_three :
    ∃ m, ContextCacheManager.make (H := Nat) 2 { baseKvPages := 2 } 1 none = .ok m ∧
      ∃ plan, makeVanillaReusePlan [7] 3 2 (run [.acquire .vanilla [7] 3 .useCache none,
          .growBasePages 0 1, .publish 0 ⟨[7], 2⟩, .release 0] (start m)).manager.baseIndex
          .useCache = .ok plan ∧
        plan.LaidOut .vanilla 3 2 true false := by
  have hmake : ContextCacheManager.make (H := Nat) 2 { baseKvPages := 2 } 1 none = .ok _ := rfl
  exact ⟨_, hmake, (reusePlans_laidOut hmake _ [7] 3 2 .useCache (by decide) (by decide)
    (by decide)).1⟩

/-- Two inputs outside: a contract that looks ahead without owning a path fires
the replay check on a cold input; and a checkpoint of a model without attention
is reused although it has no page at all. -/
theorem reusePlans_not_laidOut :
    (∃ m, ContextCacheManager.make (H := Nat) 1 {} 0 (some ⟨false, 1⟩) = .ok m ∧
      (run [] (start m)).manager.makePlan .spec [] 1 .useCache = .error .replayExceedsPath) ∧
    ∃ m, ContextCacheManager.make (H := Nat) 2 { recurrentSnapshotSlots := 2 } 1 none = .ok m ∧
      ∃ plan, makeHybridReusePlan [⟨2, 9⟩] [7] 3 2 false (run [
          .acquire (.hybrid [] false) [7] 3 .useCache none, .reserveHybridSnapshots 0 false,
          .publishHybrid 0 ⟨[7], ⟨9, 2⟩, { recurrentSnapshotSlot := 0 }⟩]
          (start m)).manager.records .useCache = .ok plan ∧
        plan.reuseTokenLength = 2 ∧ plan.basePageBindings = [] ∧
        plan.demand.baseKvPages = 0 := by
  constructor
  · exact ⟨_, rfl, rfl⟩
  · exact ⟨_, rfl, _, rfl, rfl, rfl, rfl⟩

end World

end EdgeLLM.Ports.ContextCache
