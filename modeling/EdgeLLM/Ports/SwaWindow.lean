import EdgeLLM.Verified.Checked
import EdgeLLM.Verified.Scatter

/-!
# One sequence of the bounded sliding window

A bounded-SWA sequence keeps a fixed private reservation of physical pages.
`advance` moves the sequence's endpoint: pages that fall out of the window are
staged for retirement, pages the new tokens need are drawn from the reserve.
The single-token and the multi-token path of the source are separate.

Token counts, logical pages and physical pages are non-negative `int32_t` in
the source and `Nat` here; the two page deltas, which the source tests for a
negative sign, are `Int`.
-/

namespace EdgeLLM.Ports.BoundedSwa

open Verified
open scoped List

/-- Identity of one physical page of the SWA pool. -/
abbrev PageId := Nat

/-- Largest `int32_t`. -/
def int32Max : Nat := 2 ^ 31 - 1

def kSwaBoundaryHeadroomPages : Nat := 1

def kSwaReplacementPages : Nat := 1

def computeSwaPrivatePagesPerSlot (slidingWindowCapacity tokensPerPage replacementPageCount : Nat) :
    Nat :=
  let retainedPages :=
    (slidingWindowCapacity + tokensPerPage - 1) / tokensPerPage + kSwaBoundaryHeadroomPages
  2 * retainedPages + replacementPageCount

/-- What the manager is constructed over: page and window size, and the shape
of the engine and of its sparse page table.  Both tables are built for the
engine's `maxBatchSize` (`makeSwaPageTable`, `makeIdentityPageTable`); the
proof fields are the checks of the constructors. -/
structure SwaGeometry where
  pageSize : Nat
  windowSize : Nat
  maxBatchSize : Nat
  maxPagesPerSeq : Nat
  numPages : Nat
  stream : Nat
  pageSize_pos : 0 < pageSize
  windowSize_pos : 0 < windowSize
  privatePages_le :
    computeSwaPrivatePagesPerSlot windowSize pageSize kSwaReplacementPages ≤ int32Max
  pool_reserves :
    maxBatchSize * computeSwaPrivatePagesPerSlot windowSize pageSize kSwaReplacementPages ≤ numPages

/-- `mPrivatePagesPerSequence`. -/
def SwaGeometry.privatePagesPerSequence (g : SwaGeometry) : Nat :=
  computeSwaPrivatePagesPerSlot g.windowSize g.pageSize kSwaReplacementPages

/-- The assertions of the page manager and of its page table, one constructor
per message; `device` is a CUDA call that threw, `terminated` is
`std::terminate`. -/
inductive SwaCheck where
  -- KVPageTable
  | rowSlotRange
  | entrySlotRange
  | entryLogicalRange
  | entryPageRange
  | entryDuplicatePage
  -- validateCompactionMapping
  | mappingSize
  | mappingBatchSize
  | mappingDestination
  | mappingDuplicate
  | mappingOmits
  -- BoundedSwaKVPageManager
  | streamDiffers
  | batchSizeRange
  | residentSlotRange
  | residentSlotsUnique
  | handleInvalid
  | advancePending
  | endpointBackward
  | stalePending
  | noPreparedAdvance
  | incompleteReservation
  | replacementNotRestored
  | prefillPhase
  | prefillLengthsSize
  | prefillLengthRange
  | prefillNotPrepared
  | completePrefillPhase
  | prefillEndpointDiffers
  | decodePhase
  | completeDecodePhase
  | compactionPhase
  | compactionNotPending
  | compactionMappingMissing
  | alreadyQuarantined
  | device
  | terminated

/-- The assertions that only a broken invariant can raise. -/
def SwaCheck.internal : SwaCheck → Bool
  | .rowSlotRange | .entrySlotRange | .entryLogicalRange | .entryPageRange
  | .entryDuplicatePage | .stalePending | .incompleteReservation | .replacementNotRestored
  | .alreadyQuarantined | .terminated => true
  | _ => false

/-! ## The retained range -/

/-- `SwaRetainedRange`: logical pages `[beginPage, endPage)`. -/
structure SwaRetainedRange where
  beginPage : Nat
  endPage : Nat

/-- `retainedRange`: the pages that hold a token of the window ending at
`endpoint`. -/
def retainedRange (endpoint pageSize windowSize : Nat) : SwaRetainedRange :=
  { beginPage := (endpoint - windowSize) / pageSize
    endPage := (endpoint + pageSize - 1) / pageSize }

section RetainedRange

variable (endpoint : Nat) {pageSize : Nat} (windowSize : Nat)

theorem retainedRange_zero (hpage : 0 < pageSize) :
    retainedRange 0 pageSize windowSize = ⟨0, 0⟩ := by
  have hend : (0 + pageSize - 1) / pageSize = 0 := Nat.div_eq_of_lt (by omega)
  rw [retainedRange, hend, Nat.zero_sub, Nat.zero_div]

theorem retainedRange_begin_le_end (pageSize : Nat) :
    (retainedRange endpoint pageSize windowSize).beginPage ≤
      (retainedRange endpoint pageSize windowSize).endPage := by
  rcases Nat.eq_zero_or_pos pageSize with hzero | hpage
  · simp [retainedRange, hzero]
  · exact Nat.div_le_div_right (by omega)

theorem retainedRange_begin_mono {endpoint endpoint' : Nat} (pageSize : Nat)
    (h : endpoint ≤ endpoint') : (retainedRange endpoint pageSize windowSize).beginPage ≤
      (retainedRange endpoint' pageSize windowSize).beginPage :=
  Nat.div_le_div_right (by omega)

/-- The end of the window counts the page that is being written. -/
theorem retainedRange_end (hpage : 0 < pageSize) :
    (retainedRange endpoint pageSize windowSize).endPage =
      if endpoint % pageSize = 0 then endpoint / pageSize else endpoint / pageSize + 1 := by
  show (endpoint + pageSize - 1) / pageSize = _
  have hdiv := Nat.div_add_mod endpoint pageSize
  have hmod := Nat.mod_lt endpoint hpage
  have hsplit : endpoint + pageSize - 1 =
      (endpoint % pageSize + pageSize - 1) + pageSize * (endpoint / pageSize) := by omega
  rw [hsplit, Nat.add_mul_div_left _ _ hpage]
  by_cases hzero : endpoint % pageSize = 0
  · rw [if_pos hzero, Nat.div_eq_of_lt (by omega), Nat.zero_add]
  · rw [if_neg hzero, Nat.div_eq_of_lt_le (k := 1) (by omega) (by omega), Nat.add_comm]

/-- One more token opens a page exactly at a page boundary. -/
theorem retainedRange_end_succ (hpage : 0 < pageSize) :
    (retainedRange (endpoint + 1) pageSize windowSize).endPage = endpoint / pageSize + 1 := by
  show (endpoint + 1 + pageSize - 1) / pageSize = _
  rw [show endpoint + 1 + pageSize - 1 = endpoint + pageSize by omega, Nat.add_div_right _ hpage]

/-- One more token lets go of at most one page. -/
theorem retainedRange_begin_succ (pageSize : Nat) :
    (retainedRange (endpoint + 1) pageSize windowSize).beginPage ≤
      (retainedRange endpoint pageSize windowSize).beginPage + 1 := by
  show (endpoint + 1 - windowSize) / pageSize ≤ (endpoint - windowSize) / pageSize + 1
  have hle : (endpoint + 1 - windowSize) / pageSize ≤ (endpoint - windowSize + 1) / pageSize :=
    Nat.div_le_div_right (by omega)
  rw [Nat.succ_div] at hle
  split at hle <;> omega

/-- The retained image fits half of the private reservation. -/
theorem retainedRange_span (hpage : 0 < pageSize) :
    (retainedRange endpoint pageSize windowSize).endPage ≤
      (retainedRange endpoint pageSize windowSize).beginPage +
        ((windowSize + pageSize - 1) / pageSize + kSwaBoundaryHeadroomPages) := by
  show (endpoint + pageSize - 1) / pageSize ≤
    (endpoint - windowSize) / pageSize + ((windowSize + pageSize - 1) / pageSize + 1)
  have hlast := Nat.lt_div_mul_add hpage (a := endpoint - windowSize)
  calc (endpoint + pageSize - 1) / pageSize
      ≤ ((windowSize + pageSize - 1) +
          pageSize * ((endpoint - windowSize) / pageSize + 1)) / pageSize := by
        apply Nat.div_le_div_right
        rw [Nat.mul_add, Nat.mul_one, Nat.mul_comm]
        omega
    _ = (endpoint - windowSize) / pageSize + ((windowSize + pageSize - 1) / pageSize + 1) := by
        rw [Nat.add_mul_div_left _ _ hpage]
        omega

end RetainedRange

/-! ## The state of a sequence -/

/-- One absolute logical-to-physical binding in a bounded SWA window. -/
structure SwaPageBinding where
  logicalPage : Nat
  page : PageId
deriving DecidableEq

structure ResidentRef where
  slot : Int
  epoch : Nat
deriving DecidableEq

/-- Request-local execution state for one bounded SWA sequence. -/
structure SwaKVCacheState where
  resident : ResidentRef
  pageSizeTokens : Nat
  windowSizeTokens : Nat
  exactResidentTokenCount : Nat := 0
  retainedLogicalPageBegin : Nat := 0
  retainedLogicalPageEnd : Nat := 0
  pageBindings : List SwaPageBinding := []
  reservedPages : List PageId := []
  newPageBindings : List SwaPageBinding := []
  pendingRetireBindings : List SwaPageBinding := []
  pendingEndpoint : Option Nat := none
deriving DecidableEq

def findBinding (state : SwaKVCacheState) (logicalPage : Nat) : Option SwaPageBinding :=
  if logicalPage < state.retainedLogicalPageBegin ∨ state.retainedLogicalPageEnd ≤ logicalPage then
    none
  else
    (state.pageBindings[logicalPage - state.retainedLogicalPageBegin]?).filter
      fun binding => binding.logicalPage = logicalPage

namespace SwaKVCacheState

/-- Draw the last reserved page and bind it to `logicalPage`. -/
def mapPage (state : SwaKVCacheState) (logicalPage : Nat) : SwaKVCacheState :=
  match state.reservedPages.getLast? with
  | none => state
  | some destination =>
    { state with
      reservedPages := state.reservedPages.dropLast
      pageBindings := state.pageBindings ++ [⟨logicalPage, destination⟩]
      newPageBindings := state.newPageBindings ++ [⟨logicalPage, destination⟩] }

/-- Stage the front binding for retirement. -/
def stageFront (state : SwaKVCacheState) : SwaKVCacheState :=
  match state.pageBindings with
  | [] => state
  | front :: rest =>
    { state with
      pendingRetireBindings := state.pendingRetireBindings ++ [front]
      pageBindings := rest }

@[simp] theorem stageFront_resident (state : SwaKVCacheState) :
    state.stageFront.resident = state.resident := by
  unfold stageFront
  split <;> rfl

@[simp] theorem stageFront_count (state : SwaKVCacheState) :
    state.stageFront.exactResidentTokenCount = state.exactResidentTokenCount := by
  unfold stageFront
  split <;> rfl

@[simp] theorem stageFront_newPageBindings (state : SwaKVCacheState) :
    state.stageFront.newPageBindings = state.newPageBindings := by
  unfold stageFront
  split <;> rfl

@[simp] theorem stageFront_reservedPages (state : SwaKVCacheState) :
    state.stageFront.reservedPages = state.reservedPages := by
  unfold stageFront
  split <;> rfl

theorem stageFront_bindings {state : SwaKVCacheState} {front : SwaPageBinding}
    {rest : List SwaPageBinding} (h : state.pageBindings = front :: rest) :
    state.stageFront.pageBindings = rest ∧
      state.stageFront.pendingRetireBindings = state.pendingRetireBindings ++ [front] := by
  rw [stageFront, h]
  exact ⟨rfl, rfl⟩

/-- Record the retained range and the prepared endpoint. -/
def retain (state : SwaKVCacheState) (retained : SwaRetainedRange)
    (newExactResidentTokenCount : Nat) : SwaKVCacheState :=
  { state with
    retainedLogicalPageBegin := retained.beginPage
    retainedLogicalPageEnd := retained.endPage
    pendingEndpoint := some newExactResidentTokenCount }

end SwaKVCacheState

/-- The single-token path of `advance`; `none` is `return false`. -/
def advanceOne (g : SwaGeometry) (state : SwaKVCacheState) :
    Except SwaCheck (Option SwaKVCacheState) :=
  let newExactResidentTokenCount := state.exactResidentTokenCount + 1
  let retained := retainedRange newExactResidentTokenCount g.pageSize g.windowSize
  let firstWritePage := state.exactResidentTokenCount / g.pageSize
  let writesExistingPartialPage : Bool := state.exactResidentTokenCount % g.pageSize ≠ 0
  let beginDelta : Int := retained.beginPage - state.retainedLogicalPageBegin
  let endDelta : Int := retained.endPage - state.retainedLogicalPageEnd
  let writeBinding := findBinding state firstWritePage
  let mapNewPage := writeBinding.isNone
  if beginDelta < 0 ∨ 1 < beginDelta ∨ endDelta < 0 ∨ 1 < endDelta then .ok none
  else if writeBinding.isSome ≠ writesExistingPartialPage then .ok none
  else if (mapNewPage ∧ (endDelta ≠ 1 ∨ firstWritePage ≠ state.retainedLogicalPageEnd)) ∨
      (¬mapNewPage ∧ endDelta ≠ 0) then .ok none
  else if ¬mapNewPage ∧ beginDelta = 0 then
    .ok (some { state with pendingEndpoint := some newExactResidentTokenCount })
  else if mapNewPage ∧ state.reservedPages = [] then .ok none
  else if beginDelta = 1 ∧ state.pageBindings.head?.map SwaPageBinding.logicalPage ≠
      some state.retainedLogicalPageBegin then .ok none
  else do
    requireThat (state.newPageBindings = [] ∧ state.pendingRetireBindings = []) .stalePending
    let mapped := if mapNewPage then state.mapPage firstWritePage else state
    let staged := if beginDelta = 1 then mapped.stageFront else mapped
    .ok (some (staged.retain retained newExactResidentTokenCount))

/-- The binding loop of the multi-token path over the retained logical pages:
the next bindings, the ones among them that are new, and the remaining
reserve. -/
def bindRange (state : SwaKVCacheState) (firstWritePage : Nat) (writesExistingPartialPage : Bool) :
    List Nat → List PageId →
      Option (List SwaPageBinding × List SwaPageBinding × List PageId)
  | [], nextReservedPages => some ([], [], nextReservedPages)
  | logicalPage :: rest, nextReservedPages =>
    match findBinding state logicalPage with
    | some binding =>
      if firstWritePage ≤ logicalPage ∧
          ¬(logicalPage = firstWritePage ∧ writesExistingPartialPage) then none
      else
        (bindRange state firstWritePage writesExistingPartialPage rest nextReservedPages).map
          fun (nextBindings, newBindings, reserved) =>
            (binding :: nextBindings, newBindings, reserved)
    | none =>
      if logicalPage < firstWritePage then none
      else
        match nextReservedPages.getLast? with
        | none => none
        | some destination =>
          (bindRange state firstWritePage writesExistingPartialPage rest
            nextReservedPages.dropLast).map
            fun (nextBindings, newBindings, reserved) =>
              (⟨logicalPage, destination⟩ :: nextBindings,
                ⟨logicalPage, destination⟩ :: newBindings, reserved)

/-- The multi-token path of `advance`; `none` is `return false`. -/
def advanceRange (g : SwaGeometry) (state : SwaKVCacheState) (newExactResidentTokenCount : Nat) :
    Option SwaKVCacheState :=
  let retained := retainedRange newExactResidentTokenCount g.pageSize g.windowSize
  let firstWritePage := state.exactResidentTokenCount / g.pageSize
  let writesExistingPartialPage : Bool := state.exactResidentTokenCount % g.pageSize ≠ 0
  if retained.beginPage < state.retainedLogicalPageBegin ∨
      retained.endPage < state.retainedLogicalPageEnd then none
  else
    let staleLogicalEnd := min retained.beginPage state.retainedLogicalPageEnd
    let staleCount := staleLogicalEnd - state.retainedLogicalPageBegin
    let retainedCount := retained.endPage - retained.beginPage
    let staleBindings := state.pageBindings.take staleCount
    match bindRange state firstWritePage writesExistingPartialPage
        (List.range' retained.beginPage retainedCount) state.reservedPages with
    | none => none
    | some (nextBindings, newBindings, nextReservedPages) =>
      if nextBindings.length ≠ retainedCount then none
      else
        let moved := { state with
          pageBindings := nextBindings
          reservedPages := nextReservedPages
          newPageBindings := newBindings
          pendingRetireBindings := staleBindings }
        some (moved.retain retained newExactResidentTokenCount)

/-- `advance`; `none` is `return false`, and neither it nor a throw changes the
sequence. -/
def advance (g : SwaGeometry) (state : SwaKVCacheState) (newExactResidentTokenCount : Nat) :
    Except SwaCheck (Option SwaKVCacheState) := do
  requireThat (state.pendingEndpoint = none) .advancePending
  requireThat (state.exactResidentTokenCount ≤ newExactResidentTokenCount) .endpointBackward
  if newExactResidentTokenCount = state.exactResidentTokenCount then
    .ok (some { state with pendingEndpoint := some newExactResidentTokenCount })
  else if g.maxPagesPerSeq <
      (retainedRange newExactResidentTokenCount g.pageSize g.windowSize).endPage then
    .ok none
  else if newExactResidentTokenCount = state.exactResidentTokenCount + 1 then
    advanceOne g state
  else
    .ok (advanceRange g state newExactResidentTokenCount)

/-! ## Well-formed sequences -/

namespace SwaKVCacheState

variable {g : SwaGeometry} {state state' : SwaKVCacheState}

/-- The bindings the slot's table row has to show: the window, and the pages
staged for retirement until the step completes. -/
def mapped (state : SwaKVCacheState) : List SwaPageBinding :=
  state.pageBindings ++ state.pendingRetireBindings

/-- Every page the sequence leases, in the order `releaseState` returns them. -/
def leased (state : SwaKVCacheState) : List PageId :=
  state.pageBindings.map SwaPageBinding.page ++ state.reservedPages ++
    state.pendingRetireBindings.map SwaPageBinding.page

/-- The endpoint the bindings are for: the prepared one, if there is one. -/
def endpoint (state : SwaKVCacheState) : Nat :=
  state.pendingEndpoint.getD state.exactResidentTokenCount

/-- The invariant of one sequence between calls. -/
structure Wf (g : SwaGeometry) (state : SwaKVCacheState) : Prop where
  window : retainedRange state.endpoint g.pageSize g.windowSize =
    ⟨state.retainedLogicalPageBegin, state.retainedLogicalPageEnd⟩
  logical : state.pageBindings.map SwaPageBinding.logicalPage =
    List.range' state.retainedLogicalPageBegin
      (state.retainedLogicalPageEnd - state.retainedLogicalPageBegin)
  width : state.retainedLogicalPageEnd ≤ g.maxPagesPerSeq
  forward : state.exactResidentTokenCount ≤ state.endpoint
  staged : ∀ binding ∈ state.pendingRetireBindings,
    binding.logicalPage < state.retainedLogicalPageBegin
  staged_nodup : (state.pendingRetireBindings.map SwaPageBinding.logicalPage).Nodup
  settled : state.pendingEndpoint = none →
    state.newPageBindings = [] ∧ state.pendingRetireBindings = []

/-- A sequence that has not advanced yet. -/
structure Fresh (state : SwaKVCacheState) : Prop where
  count : state.exactResidentTokenCount = 0
  retainedBegin : state.retainedLogicalPageBegin = 0
  retainedEnd : state.retainedLogicalPageEnd = 0
  bindings : state.pageBindings = []
  added : state.newPageBindings = []
  staged : state.pendingRetireBindings = []
  pending : state.pendingEndpoint = none

theorem Fresh.wf (h : state.Fresh) : state.Wf g where
  window := by
    rw [endpoint, h.pending, h.retainedBegin, h.retainedEnd, Option.getD_none, h.count]
    exact retainedRange_zero g.windowSize g.pageSize_pos
  logical := by rw [h.bindings, h.retainedBegin, h.retainedEnd]; rfl
  width := by rw [h.retainedEnd]; exact Nat.zero_le _
  forward := by rw [h.count]; exact Nat.zero_le _
  staged := by simp [h.staged]
  staged_nodup := by simp [h.staged]
  settled := fun _ => ⟨h.added, h.staged⟩

namespace Wf

theorem begin_le_end (h : state.Wf g) :
    state.retainedLogicalPageBegin ≤ state.retainedLogicalPageEnd := by
  have hle := retainedRange_begin_le_end state.endpoint g.windowSize g.pageSize
  rwa [h.window] at hle

theorem settledWindow (h : state.Wf g) (hpending : state.pendingEndpoint = none) :
    (retainedRange state.exactResidentTokenCount g.pageSize g.windowSize).beginPage =
        state.retainedLogicalPageBegin ∧
      (retainedRange state.exactResidentTokenCount g.pageSize g.windowSize).endPage =
        state.retainedLogicalPageEnd := by
  have hwindow := h.window
  rw [endpoint, hpending, Option.getD_none] at hwindow
  rw [hwindow]
  exact ⟨rfl, rfl⟩

theorem length_pageBindings (h : state.Wf g) : state.pageBindings.length =
      state.retainedLogicalPageEnd - state.retainedLogicalPageBegin := by
  have hlen := congrArg List.length h.logical
  rwa [List.length_map, List.length_range'] at hlen

/-- The window takes at most half of the reservation, without the replacement
page. -/
theorem two_mul_length_lt (h : state.Wf g) :
    2 * state.pageBindings.length + kSwaReplacementPages ≤ g.privatePagesPerSequence := by
  have hspan := retainedRange_span state.endpoint g.windowSize g.pageSize_pos
  rw [h.window] at hspan
  have hlen := h.length_pageBindings
  simp only [SwaGeometry.privatePagesPerSequence, computeSwaPrivatePagesPerSlot] at hspan ⊢
  omega

theorem logicalPage_getElem? (h : state.Wf g) {i : Nat} {binding : SwaPageBinding}
    (hget : state.pageBindings[i]? = some binding) :
    binding.logicalPage = state.retainedLogicalPageBegin + i ∧
      i < state.retainedLogicalPageEnd - state.retainedLogicalPageBegin := by
  have hmap : (state.pageBindings.map SwaPageBinding.logicalPage)[i]? =
      some binding.logicalPage := by rw [List.getElem?_map, hget]; rfl
  rw [h.logical, List.getElem?_eq_some_iff] at hmap
  obtain ⟨hlt, hval⟩ := hmap
  rw [List.length_range'] at hlt
  rw [List.getElem_range'] at hval
  omega

theorem mem_pageBindings (h : state.Wf g) {binding : SwaPageBinding}
    (hmem : binding ∈ state.pageBindings) : state.retainedLogicalPageBegin ≤ binding.logicalPage ∧
      binding.logicalPage < state.retainedLogicalPageEnd := by
  have hlogical : binding.logicalPage ∈ state.pageBindings.map SwaPageBinding.logicalPage :=
    List.mem_map_of_mem hmem
  rw [h.logical, List.mem_range'_1] at hlogical
  omega

/-- A sequence maps every logical page at most once. -/
theorem mapped_nodup (h : state.Wf g) : (state.mapped.map SwaPageBinding.logicalPage).Nodup := by
  rw [mapped, List.map_append, List.nodup_append']
  constructor
  · rw [h.logical]
    exact List.nodup_range'
  · constructor
    · exact h.staged_nodup
    · intro logicalPage hbound hstaged
      rw [List.mem_map] at hbound hstaged
      obtain ⟨bound, hbound, rfl⟩ := hbound
      obtain ⟨retired, hretired, heq⟩ := hstaged
      have hge := (h.mem_pageBindings hbound).1
      have hlt := h.staged retired hretired
      omega

/-- Every mapped logical page is a column of the table. -/
theorem mapped_lt (h : state.Wf g) {binding : SwaPageBinding} (hmem : binding ∈ state.mapped) :
    binding.logicalPage < g.maxPagesPerSeq := by
  have hwidth := h.width
  have hle := h.begin_le_end
  rcases List.mem_append.1 hmem with hbound | hstaged
  · have hlt := (h.mem_pageBindings hbound).2
    omega
  · have hlt := h.staged binding hstaged
    omega

end Wf

/-- The leased pages are the mapped ones and the reserve. -/
theorem leased_perm (state : SwaKVCacheState) :
    state.leased.Perm (state.mapped.map SwaPageBinding.page ++ state.reservedPages) := by
  rw [leased, mapped, List.map_append, List.append_assoc, List.append_assoc]
  exact List.Perm.append_left _ List.perm_append_comm

theorem length_leased (state : SwaKVCacheState) :
    state.leased.length = state.pageBindings.length + state.reservedPages.length +
      state.pendingRetireBindings.length := by
  simp only [leased, List.length_append, List.length_map]

/-- What a successful advance does to a settled sequence. -/
structure Advanced (g : SwaGeometry) (newExactResidentTokenCount : Nat)
    (state state' : SwaKVCacheState) : Prop where
  resident : state'.resident = state.resident
  count : state'.exactResidentTokenCount = state.exactResidentTokenCount
  pending : state'.pendingEndpoint = some newExactResidentTokenCount
  wf : state'.Wf g
  mapped : state'.mapped.Perm (state.mapped ++ state'.newPageBindings)
  drawn : state.reservedPages.Perm
    (state'.newPageBindings.map SwaPageBinding.page ++ state'.reservedPages)

theorem Advanced.leased {newExactResidentTokenCount : Nat}
    (h : Advanced g newExactResidentTokenCount state state') : state'.leased.Perm state.leased := by
  have hmapped := h.mapped.map SwaPageBinding.page
  rw [List.map_append] at hmapped
  calc state'.leased
      ~ state'.mapped.map SwaPageBinding.page ++ state'.reservedPages := state'.leased_perm
    _ ~ (state.mapped.map SwaPageBinding.page ++
          state'.newPageBindings.map SwaPageBinding.page) ++ state'.reservedPages :=
        hmapped.append_right _
    _ ~ state.mapped.map SwaPageBinding.page ++ state.reservedPages := by
        rw [List.append_assoc]
        exact List.Perm.append_left _ h.drawn.symm
    _ ~ state.leased := state.leased_perm.symm

end SwaKVCacheState

end EdgeLLM.Ports.BoundedSwa
