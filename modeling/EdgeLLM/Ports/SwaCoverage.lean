import EdgeLLM.Ports.SwaRuns

/-!
# The window is always covered

One sequence of an admitted request over its life: a prefill of `n` tokens and
then decode steps of one token, each step prepared (`advance`, `bindNewPages`)
and completed (`retire`).  No step is refused while the pages of its endpoint
fit the width of the table, and the tokens of the window are mapped from the
moment a step is prepared.
-/

namespace EdgeLLM.Ports.BoundedSwa

open Verified Checked
open scoped List

namespace SwaKVCacheState

variable {g : SwaGeometry} {state : SwaKVCacheState}

variable {firstWritePage low high logicalPage newExactResidentTokenCount : Nat}
variable {writesExistingPartialPage : Bool}

/-- Pages that are bound, and not begun anew, are kept. -/
theorem bindRange_found (logicalPages more : List Nat) (reserved : List PageId)
    (hfound : ∀ logicalPage ∈ logicalPages, (findBinding state logicalPage).isSome = true)
    (hold : ∀ logicalPage ∈ logicalPages, ¬(firstWritePage ≤ logicalPage ∧
      ¬(logicalPage = firstWritePage ∧ writesExistingPartialPage))) :
    bindRange state firstWritePage writesExistingPartialPage (logicalPages ++ more) reserved =
      (bindRange state firstWritePage writesExistingPartialPage more reserved).map
        fun (nextBindings, newBindings, rest) =>
          (logicalPages.filterMap (findBinding state) ++ nextBindings, newBindings, rest) := by
  induction logicalPages with
  | nil =>
    rw [List.nil_append, List.filterMap_nil]
    exact Option.map_id'.symm
  | cons logicalPage logicalPages ih =>
    have hhead := hfound logicalPage (List.mem_cons_self ..)
    have hkept := hold logicalPage (List.mem_cons_self ..)
    have htail := ih (fun page hmem => hfound page (List.mem_cons_of_mem _ hmem))
      (fun page hmem => hold page (List.mem_cons_of_mem _ hmem))
    cases hfind : findBinding state logicalPage with
    | none => simp [hfind] at hhead
    | some binding =>
      rw [List.cons_append, bindRange]
      simp only [hfind, if_neg hkept, htail, Option.map_map, List.filterMap_cons_some hfind]
      rfl

/-- Pages that are not bound and not behind the write page come from the
reserve. -/
theorem bindRange_unbound (logicalPages : List Nat) (reserved : List PageId)
    (hfresh : ∀ logicalPage ∈ logicalPages, findBinding state logicalPage = none)
    (hahead : ∀ logicalPage ∈ logicalPages, firstWritePage ≤ logicalPage)
    (hroom : logicalPages.length ≤ reserved.length) :
    (bindRange state firstWritePage writesExistingPartialPage logicalPages reserved).isSome =
      true := by
  induction logicalPages generalizing reserved with
  | nil => rfl
  | cons logicalPage logicalPages ih =>
    have hhead := hfresh logicalPage (List.mem_cons_self ..)
    have hwrite := hahead logicalPage (List.mem_cons_self ..)
    rw [List.length_cons] at hroom
    have hne : reserved ≠ [] := List.ne_nil_of_length_pos (by omega)
    have htail := ih reserved.dropLast
      (fun page hmem => hfresh page (List.mem_cons_of_mem _ hmem))
      (fun page hmem => hahead page (List.mem_cons_of_mem _ hmem))
      (by rw [List.length_dropLast]; omega)
    rw [bindRange]
    simp only [hhead, if_neg (Nat.not_lt.2 hwrite), List.getLast?_eq_some_getLast hne,
      Option.isSome_map]
    exact htail

/-! ## The pages of a later endpoint -/

/-- The retained range splits into the pages that are still bound and the ones
that are not bound yet. -/
theorem range'_split {bound : Nat} (hle : low ≤ high) (hbound : bound ≤ high) :
    List.range' low (high - low) = List.range' low (bound - low) ++
        List.range' (max low bound) (high - max low bound) := by
  have hmiddle : max low bound = low + 1 * (bound - low) := by omega
  have hcount : high - low = (bound - low) + (high - max low bound) := by omega
  rw [hcount, ← List.range'_append, ← hmiddle]

theorem findBinding_isSome (h : state.Wf g) (hge : state.retainedLogicalPageBegin ≤ logicalPage)
    (hlt : logicalPage < state.retainedLogicalPageEnd) :
    (findBinding state logicalPage).isSome = true := by
  have hlen := h.length_pageBindings
  rw [findBinding_eq h hge, List.getElem?_eq_getElem (by omega)]
  rfl

theorem findBinding_beyond (hge : state.retainedLogicalPageEnd ≤ logicalPage) :
    findBinding state logicalPage = none := by
  rw [findBinding, if_pos (Or.inr hge)]

/-- No bound page is begun anew: only the last one can be the write page, and
then it is begun already. -/
theorem not_begun_anew (h : state.Wf g) (hpending : state.pendingEndpoint = none)
    (hlt : logicalPage < state.retainedLogicalPageEnd) :
    ¬(state.exactResidentTokenCount / g.pageSize ≤ logicalPage ∧
      ¬(logicalPage = state.exactResidentTokenCount / g.pageSize ∧
        decide (state.exactResidentTokenCount % g.pageSize ≠ 0) = true)) := by
  have hend := firstWritePage_eq h hpending
  by_cases hzero : state.exactResidentTokenCount % g.pageSize = 0
  · rw [if_pos hzero] at hend
    omega
  · rw [if_neg hzero] at hend
    rintro ⟨hge, hnot⟩
    apply hnot
    constructor
    · omega
    · exact decide_eq_true hzero

/-- The binding loop of a later endpoint: the bound pages of the range, then
the loop over the unbound ones. -/
theorem bindRange_later (h : state.Wf g) (hpending : state.pendingEndpoint = none)
    (hlow : state.retainedLogicalPageBegin ≤ low) (hle : low ≤ high)
    (hhigh : state.retainedLogicalPageEnd ≤ high) (reserved : List PageId) :
    bindRange state (state.exactResidentTokenCount / g.pageSize)
        (decide (state.exactResidentTokenCount % g.pageSize ≠ 0))
        (List.range' low (high - low)) reserved =
      (bindRange state (state.exactResidentTokenCount / g.pageSize)
          (decide (state.exactResidentTokenCount % g.pageSize ≠ 0))
          (List.range' (max low state.retainedLogicalPageEnd)
            (high - max low state.retainedLogicalPageEnd)) reserved).map
        fun (nextBindings, newBindings, rest) =>
          (state.pageBindings.drop (low - state.retainedLogicalPageBegin) ++ nextBindings,
            newBindings, rest) := by
  have hkept := @filterMap_findBinding g state h _ (state.retainedLogicalPageEnd - low) hlow
    (by omega)
  rw [range'_split hle hhigh, bindRange_found, hkept]
  · intro logicalPage hmem
    rw [List.mem_range'_1] at hmem
    exact findBinding_isSome h (by omega) (by omega)
  · intro logicalPage hmem
    rw [List.mem_range'_1] at hmem
    exact not_begun_anew h hpending (by omega)

/-- The reserve of a settled sequence holds a whole window and the replacement
page. -/
theorem reserved_window (h : state.Wf g) (hpending : state.pendingEndpoint = none)
    (hreservation : state.leased.length = g.privatePagesPerSequence) (endpoint : Nat) :
    (retainedRange endpoint g.pageSize g.windowSize).endPage -
        (retainedRange endpoint g.pageSize g.windowSize).beginPage +
        kSwaReplacementPages ≤ state.reservedPages.length := by
  have hspan := retainedRange_span endpoint g.windowSize g.pageSize_pos
  have hbound := retainedRange_span state.endpoint g.windowSize g.pageSize_pos
  have hlen := h.length_pageBindings
  rw [h.window] at hbound
  rw [state.length_leased, (h.settled hpending).2, List.length_nil] at hreservation
  simp only [SwaGeometry.privatePagesPerSequence, computeSwaPrivatePagesPerSlot] at hreservation
  simp only at hbound
  omega

theorem retainedRange_end_mono {endpoint endpoint' : Nat} (pageSize windowSize : Nat)
    (h : endpoint ≤ endpoint') : (retainedRange endpoint pageSize windowSize).endPage ≤
      (retainedRange endpoint' pageSize windowSize).endPage :=
  Nat.div_le_div_right (by omega)

/-- Where a later endpoint's range lies relative to the settled one. -/
theorem later_range (h : state.Wf g) (hpending : state.pendingEndpoint = none)
    (hforward : state.exactResidentTokenCount ≤ newExactResidentTokenCount) :
    state.retainedLogicalPageBegin ≤
        (retainedRange newExactResidentTokenCount g.pageSize g.windowSize).beginPage ∧
      state.retainedLogicalPageEnd ≤
        (retainedRange newExactResidentTokenCount g.pageSize g.windowSize).endPage := by
  have hwindow := h.settledWindow hpending
  rw [← hwindow.1, ← hwindow.2]
  constructor
  · exact retainedRange_begin_mono g.windowSize g.pageSize hforward
  · exact retainedRange_end_mono g.pageSize g.windowSize hforward

/-- The multi-token path refuses no settled sequence. -/
theorem advanceRange_succeeds (h : state.Wf g) (hpending : state.pendingEndpoint = none)
    (hreservation : state.leased.length = g.privatePagesPerSequence)
    (hforward : state.exactResidentTokenCount ≤ newExactResidentTokenCount) :
    ∃ state', advanceRange g state newExactResidentTokenCount = some state' := by
  have hrange := later_range h hpending hforward
  have hle := retainedRange_begin_le_end newExactResidentTokenCount g.windowSize g.pageSize
  have hroom := reserved_window h hpending hreservation newExactResidentTokenCount
  have hend := firstWritePage_eq h hpending
  simp only [advanceRange]
  generalize retainedRange newExactResidentTokenCount g.pageSize g.windowSize = retained
    at hrange hle hroom ⊢
  have hunbound : (bindRange state (state.exactResidentTokenCount / g.pageSize)
      (decide (state.exactResidentTokenCount % g.pageSize ≠ 0))
      (List.range' retained.beginPage (retained.endPage - retained.beginPage))
      state.reservedPages).isSome = true := by
    rw [bindRange_later h hpending hrange.1 hle hrange.2, Option.isSome_map]
    apply bindRange_unbound
    · intro logicalPage hmem
      rw [List.mem_range'_1] at hmem
      exact findBinding_beyond (by omega)
    · intro logicalPage hmem
      rw [List.mem_range'_1] at hmem
      split at hend <;> omega
    · rw [List.length_range']
      omega
  rw [if_neg (by omega)]
  cases hbind : bindRange state (state.exactResidentTokenCount / g.pageSize)
      (decide (state.exactResidentTokenCount % g.pageSize ≠ 0))
      (List.range' retained.beginPage (retained.endPage - retained.beginPage))
      state.reservedPages with
  | none =>
    rw [hbind] at hunbound
    cases hunbound
  | some result =>
    obtain ⟨nextBindings, newBindings, rest⟩ := result
    have hlen := congrArg List.length (bindRange_spec hbind).1
    rw [List.length_map, List.length_range'] at hlen
    simp [hlen]

/-- Asking for the endpoint a settled sequence has changes no page. -/
theorem advanceRange_same (h : state.Wf g) (hpending : state.pendingEndpoint = none) :
    advanceRange g state state.exactResidentTokenCount =
      some { state with pendingEndpoint := some state.exactResidentTokenCount } := by
  have hle := h.begin_le_end
  have hlen := h.length_pageBindings
  have hbind := bindRange_later h hpending (Nat.le_refl _) hle (Nat.le_refl _)
    state.reservedPages
  have hwindow := h.window
  obtain ⟨hadded, hstaged⟩ := h.settled hpending
  rw [endpoint, hpending, Option.getD_none] at hwindow
  rw [Nat.max_eq_right hle, Nat.sub_self, Nat.sub_self, List.drop_zero] at hbind
  simp only [advanceRange, hwindow]
  rw [if_neg (by omega), hbind]
  simp [bindRange, Nat.min_eq_left hle, hlen, SwaKVCacheState.retain, hadded, hstaged]

/-- The single-token path stages the pages in front of the new window. -/
theorem staged_eq {moved : SwaKVCacheState} {oldBegin newBegin : Nat}
    (hstaged : moved.pendingRetireBindings = [])
    (hbegin : newBegin = oldBegin ∨ newBegin = oldBegin + 1)
    (hlen : newBegin - oldBegin ≤ moved.pageBindings.length) :
    (if newBegin ≠ oldBegin then moved.stageFront else moved) =
      { moved with
        pageBindings := moved.pageBindings.drop (newBegin - oldBegin)
        pendingRetireBindings := moved.pageBindings.take (newBegin - oldBegin) } := by
  rcases hbegin with hsame | hnext
  · rw [if_neg (by simp [hsame]), hsame, Nat.sub_self, List.drop_zero, List.take_zero, ← hstaged]
  · have hone : newBegin - oldBegin = 1 := by omega
    rw [hone] at hlen
    rw [if_pos (by omega), hone]
    cases hbindings : moved.pageBindings with
    | nil =>
      rw [hbindings, List.length_nil] at hlen
      omega
    | cons front rest =>
      rw [stageFront]
      simp only [hbindings, hstaged]
      rfl

/-- On one token the two paths leave the same sequence: the same bindings, the
same reserve, the same pages drawn and the same pages staged. -/
theorem advanceRange_eq_steppedOne (h : state.Wf g) (hpending : state.pendingEndpoint = none)
    (hreserved : state.reservedPages ≠ []) :
    advanceRange g state (state.exactResidentTokenCount + 1) = some (state.steppedOne g) := by
  have hend := endPage_succ h hpending
  have hbegin := beginPage_succ h hpending
  have hkept := beginPage_succ_le g state
  have hwrite := firstWritePage_eq h hpending
  have hlen := h.length_pageBindings
  have hle := h.begin_le_end
  obtain ⟨hadded, hstaged⟩ := h.settled hpending
  simp only [advanceRange, steppedOne, opened]
  generalize retainedRange (state.exactResidentTokenCount + 1) g.pageSize g.windowSize = retained
    at hend hbegin hkept ⊢
  have hfit : retained.beginPage ≤ state.retainedLogicalPageEnd := by
    split at hwrite <;> omega
  have hlow : state.retainedLogicalPageBegin ≤ retained.beginPage := by omega
  have hbind := bindRange_later h hpending hlow (by omega : retained.beginPage ≤ retained.endPage)
    (by omega) state.reservedPages
  have hdrop : retained.beginPage - state.retainedLogicalPageBegin ≤ state.pageBindings.length := by
    omega
  rw [Nat.max_eq_right hfit] at hbind
  rw [if_neg (by omega), hbind, Nat.min_eq_left hfit]
  by_cases hzero : state.exactResidentTokenCount % g.pageSize = 0
  · -- the token opens a page: the loop draws the same reserved page
    rw [if_pos hzero] at hend hwrite
    have hunbound : findBinding state (state.exactResidentTokenCount / g.pageSize) = none :=
      findBinding_beyond (by omega)
    have hcount : retained.endPage - state.retainedLogicalPageEnd = 1 := by omega
    have hpage : state.retainedLogicalPageEnd = state.exactResidentTokenCount / g.pageSize := by
      omega
    have hlong : retained.beginPage - state.retainedLogicalPageBegin ≤ (state.pageBindings ++
        [(⟨state.exactResidentTokenCount / g.pageSize,
          state.reservedPages.getLast hreserved⟩ : SwaPageBinding)]).length := by
      rw [List.length_append]
      omega
    have hwindow : (state.pageBindings.drop (retained.beginPage - state.retainedLogicalPageBegin) ++
        [(⟨state.exactResidentTokenCount / g.pageSize,
          state.reservedPages.getLast hreserved⟩ : SwaPageBinding)]).length =
            retained.endPage - retained.beginPage := by
      rw [List.length_append, List.length_drop, List.length_singleton]
      omega
    rw [if_pos hzero, mapPage_eq hreserved hadded, staged_eq, hcount, hpage]
    · simp only [List.range'_one, bindRange, hunbound, Nat.lt_irrefl, if_false,
        List.getLast?_eq_some_getLast hreserved, Option.map_some,
        List.drop_append_of_le_length hdrop, List.take_append_of_le_length hdrop]
      rw [if_neg (not_not.2 hwindow)]
    · exact hstaged
    · exact hbegin
    · exact hlong
  · -- the token goes into the last bound page: nothing is drawn
    rw [if_neg hzero] at hend hwrite
    have hcount : retained.endPage - state.retainedLogicalPageEnd = 0 := by omega
    have hwindow : (state.pageBindings.drop
        (retained.beginPage - state.retainedLogicalPageBegin) ++ []).length =
          retained.endPage - retained.beginPage := by
      rw [List.append_nil, List.length_drop]
      omega
    rw [if_neg hzero, staged_eq hstaged hbegin hdrop, hcount]
    simp only [List.range'_zero, bindRange, Option.map_some]
    rw [if_neg (not_not.2 hwindow), List.append_nil, ← hadded]

/-- Within the width of the table, `advance` moves every settled sequence, and
to the sequence the multi-token path leaves. -/
theorem advance_eq_advanceRange (h : state.Wf g) (hpending : state.pendingEndpoint = none)
    (hreservation : state.leased.length = g.privatePagesPerSequence)
    (hforward : state.exactResidentTokenCount ≤ newExactResidentTokenCount)
    (hwidth : (retainedRange newExactResidentTokenCount g.pageSize g.windowSize).endPage ≤
      g.maxPagesPerSeq) : ∃ state', advance g state newExactResidentTokenCount = .ok (some state') ∧
      advanceRange g state newExactResidentTokenCount = some state' := by
  have hroom := reserved_window h hpending hreservation newExactResidentTokenCount
  have hne : state.reservedPages ≠ [] :=
    List.ne_nil_of_length_pos (by simp only [kSwaReplacementPages] at hroom; omega)
  have hready : requireThat (state.pendingEndpoint = none) SwaCheck.advancePending = .ok () :=
    requireThat_of hpending
  have hnotback : requireThat (state.exactResidentTokenCount ≤ newExactResidentTokenCount)
      SwaCheck.endpointBackward = .ok () := requireThat_of hforward
  rw [advance, hready, hnotback]
  show ∃ state', (if newExactResidentTokenCount = state.exactResidentTokenCount then _ else _) =
    Except.ok (some state') ∧ _
  by_cases hsame : newExactResidentTokenCount = state.exactResidentTokenCount
  · rw [if_pos hsame, hsame]
    exact ⟨_, rfl, advanceRange_same h hpending⟩
  · rw [if_neg hsame, if_neg (Nat.not_lt.2 hwidth)]
    by_cases hone : newExactResidentTokenCount = state.exactResidentTokenCount + 1
    · rw [if_pos hone, hone]
      exact ⟨_, advanceOne_eq h hpending hne, advanceRange_eq_steppedOne h hpending hne⟩
    · rw [if_neg hone]
      obtain ⟨state', hadvance⟩ := advanceRange_succeeds h hpending hreservation hforward
      exact ⟨state', by rw [hadvance], hadvance⟩

end SwaKVCacheState

/-! ## A sequence step by step -/

/-- The sequence and its row before the forward pass of step `d`: the prefill
of `promptLength` tokens, whose row is cleared first, then decode steps of one
token. -/
def prepareStep (g : SwaGeometry) (slot : Int) (promptLength : Nat) :
    Nat → Checked SwaCheck SlotFrame Bool
  | 0 => do
      SlotFrame.onTable fun table => table.clearRow g slot
      advanceAndBind g slot promptLength
  | _ + 1 => do
      let exactResidentTokenCount ← Checked.read fun frame => frame.state.exactResidentTokenCount
      advanceAndBind g slot (exactResidentTokenCount + 1)

/-- What step `d` starts from: every earlier step was prepared and completed. -/
def frameBefore (g : SwaGeometry) (slot : Int) (promptLength : Nat) (start : SlotFrame) :
    Nat → SlotFrame
  | 0 => start
  | d + 1 => (retire g slot
      (prepareStep g slot promptLength d (frameBefore g slot promptLength start d)).2).2

/-- The sequence and its row while step `d` runs. -/
def framePrepared (g : SwaGeometry) (slot : Int) (promptLength : Nat) (start : SlotFrame)
    (d : Nat) : SlotFrame :=
  (prepareStep g slot promptLength d (frameBefore g slot promptLength start d)).2

/-- A step to `endpoint` that started from `before`, ran as `prepared` and left
`completed`: the advance succeeds, on either path; the bindings are the pages
of the window; and a token of the window is mapped to one page throughout. -/
structure Covered (g : SwaGeometry) (slot : Int) (endpoint : Nat) (before : SwaKVCacheState)
    (prepared completed : SlotFrame) : Prop where
  advanced : advance g before endpoint = .ok (some prepared.state)
  single : endpoint = before.exactResidentTokenCount + 1 →
    advanceOne g before = .ok (some prepared.state)
  general : advanceRange g before endpoint = some prepared.state
  bindings : prepared.state.pageBindings.map SwaPageBinding.logicalPage =
    List.range' ((endpoint - g.windowSize) / g.pageSize)
      ((endpoint + g.pageSize - 1) / g.pageSize - (endpoint - g.windowSize) / g.pageSize)
  retired : completed.state = prepared.state.retired
  count : completed.state.exactResidentTokenCount = endpoint
  mapped : ∀ position, endpoint - g.windowSize ≤ position → position < endpoint →
    ∃ page, ⟨position / g.pageSize, page⟩ ∈ completed.state.pageBindings ∧
      (prepared.table.rows slot).entry (position / g.pageSize) = some page ∧
      (completed.table.rows slot).entry (position / g.pageSize) = some page
  shown : (prepared.table.rows slot).Shows prepared.state.mapped ∧
    (completed.table.rows slot).Shows completed.state.pageBindings

/-- A sequence between two steps. -/
structure Between (g : SwaGeometry) (slot : Int) (endpoint : Nat) (frame : SlotFrame) : Prop where
  sound : SlotSound g frame.state frame.table
  resident : frame.state.resident.slot = slot
  pending : frame.state.pendingEndpoint = none
  count : frame.state.exactResidentTokenCount = endpoint
  unwiped : slot ∉ frame.table.wiped

section Steps

variable {g : SwaGeometry} {slot : Int} {endpoint : Nat} {frame : SlotFrame}

/-- A token of the window lies on one of its pages. -/
theorem page_in_window {position : Nat} (hlow : endpoint - g.windowSize ≤ position)
    (hhigh : position < endpoint) : (endpoint - g.windowSize) / g.pageSize ≤ position / g.pageSize ∧
      position / g.pageSize < (endpoint + g.pageSize - 1) / g.pageSize := by
  have hpos := g.pageSize_pos
  constructor
  · exact Nat.div_le_div_right hlow
  · have hnext : position / g.pageSize + 1 = (position + g.pageSize) / g.pageSize :=
      (Nat.add_div_right position hpos).symm
    have hle : (position + g.pageSize) / g.pageSize ≤ (endpoint + g.pageSize - 1) / g.pageSize :=
      Nat.div_le_div_right (by omega)
    omega

theorem SwaKVCacheState.Wf.mapped_token {state : SwaKVCacheState} (h : state.Wf g) {position : Nat}
    (hlow : state.endpoint - g.windowSize ≤ position) (hhigh : position < state.endpoint) :
    ∃ page, ⟨position / g.pageSize, page⟩ ∈ state.pageBindings := by
  have hwindow := h.window
  have hin := page_in_window hlow hhigh
  rw [retainedRange, SwaRetainedRange.mk.injEq] at hwindow
  rw [hwindow.1, hwindow.2] at hin
  have hmem : position / g.pageSize ∈ state.pageBindings.map SwaPageBinding.logicalPage := by
    rw [h.logical, List.mem_range'_1]
    omega
  rw [List.mem_map] at hmem
  obtain ⟨binding, hbound, hpage⟩ := hmem
  rw [← hpage]
  exact ⟨binding.page, hbound⟩

theorem SlotSound.shows {state : SwaKVCacheState} {table : SwaPageTable}
    (h : SlotSound g state table) (hunwiped : state.resident.slot ∉ table.wiped) :
    (table.rows state.resident.slot).Shows state.mapped :=
  ⟨h.within, h.covers hunwiped⟩

/-- One step: no endpoint within the width of the table is refused, and the
step covers its window. -/
theorem step_covered (h : Between g slot endpoint frame) {next : Nat} (hforward : endpoint ≤ next)
    (hwidth : (retainedRange next g.pageSize g.windowSize).endPage ≤ g.maxPagesPerSeq) :
    ∃ prepared completed, advanceAndBind g slot next frame = (.ok true, prepared) ∧
      retire g slot prepared = (.ok (), completed) ∧
      Covered g slot next frame.state prepared completed ∧ Between g slot next completed := by
  have hslot := h.resident
  have hsound := h.sound
  have hcount := h.count
  -- the advance
  have hadvance := SwaKVCacheState.advance_eq_advanceRange hsound.wf h.pending hsound.reservation
    (by omega) hwidth
  obtain ⟨state', hadvance, hrange⟩ := hadvance
  have houtcome := SwaKVCacheState.advance_outcome next hsound.wf hsound.reserved_ne_nil
  rw [hadvance, outcome_ok] at houtcome
  have hadvanced := houtcome.2 state' rfl
  -- the drawn pages are bound
  have hbind := (advanceAndBind_of_advance frame hsound hadvance hadvanced).returns
  rw [hslot] at hbind
  obtain ⟨bound, prepared, hprepare, hbound, hstate, hkept, hwiped⟩ := hbind
  have hprepared : prepared.state.resident.slot = slot := by rw [hkept.kept.resident, hslot]
  have hpending : prepared.state.pendingEndpoint = some next := by
    rw [hstate]
    exact hadvanced.pending
  have hendpoint : prepared.state.endpoint = next := by
    rw [SwaKVCacheState.endpoint, hpending, Option.getD_some]
  have hunwiped : prepared.state.resident.slot ∉ prepared.table.wiped := by
    rw [hprepared, hwiped]
    exact h.unwiped
  -- the staged pages are retired
  have hretire := ((retire_state hkept.sound).mono (fun _ _ hdone => hdone)
    (fun _ _ hbad => Option.some_ne_none next (hpending.symm.trans hbad.1))).returns
  rw [hprepared] at hretire
  obtain ⟨_, completed, hrun, hretired, hkept', hwiped'⟩ := hretire
  have hcompleted : completed.state.resident.slot = slot := by
    rw [hkept'.kept.resident, hprepared]
  have hunwiped' : completed.state.resident.slot ∉ completed.table.wiped := by
    rw [hcompleted, hwiped', ← hprepared]
    exact hunwiped
  have hshown := hkept.sound.shows hunwiped
  have hshown' := hkept'.sound.shows hunwiped'
  rw [hprepared] at hshown
  rw [hcompleted] at hshown'
  have hbindings : completed.state.mapped = prepared.state.pageBindings := by
    rw [hretired, SwaKVCacheState.mapped, SwaKVCacheState.retired, List.append_nil]
  have hsame : completed.state.pageBindings = prepared.state.pageBindings := by
    rw [hretired]
    rfl
  refine ⟨prepared, completed, by rw [hprepare, hbound], hrun, ?_, ?_⟩
  · exact
      { advanced := by rw [hadvance, hstate]
        single := by
          intro hone
          have hpaths := SwaKVCacheState.advanceOne_eq hsound.wf h.pending
            (hsound.reserved_ne_nil h.pending)
          have hgeneral := SwaKVCacheState.advanceRange_eq_steppedOne hsound.wf h.pending
            (hsound.reserved_ne_nil h.pending)
          rw [hone, hgeneral, Option.some.injEq] at hrange
          rw [hpaths, hrange, hstate]
        general := by rw [hrange, hstate]
        bindings := by
          have hwindow := hkept.sound.wf.window
          rw [hendpoint, retainedRange, SwaRetainedRange.mk.injEq] at hwindow
          rw [hwindow.1, hwindow.2]
          exact hkept.sound.wf.logical
        retired := hretired
        count := by rw [hretired]; exact hendpoint
        mapped := by
          intro position hlow hhigh
          rw [← hendpoint] at hlow hhigh
          have htoken := hkept.sound.wf.mapped_token hlow hhigh
          obtain ⟨page, hmem⟩ := htoken
          refine ⟨page, by rw [hsame]; exact hmem, ?_, ?_⟩
          · exact hshown.2 ⟨_, page⟩ (List.mem_append_left _ hmem)
          · exact hshown'.2 ⟨_, page⟩ (by rw [hbindings]; exact hmem)
        shown := ⟨hshown, by rwa [hbindings, ← hsame] at hshown'⟩ }
  · exact
      { sound := hkept'.sound
        resident := hcompleted
        pending := by rw [hretired]; rfl
        count := by rw [hretired]; exact hendpoint
        unwiped := hcompleted ▸ hunwiped' }

/-- The prefill starts from an empty row. -/
theorem prepareStep_zero (h : Between g slot 0 frame) (hfresh : frame.state.Fresh)
    (promptLength : Nat) : ∃ cleared, prepareStep g slot promptLength 0 frame =
        advanceAndBind g slot promptLength cleared ∧
      cleared.state = frame.state ∧ Between g slot 0 cleared := by
  have hslot := h.resident
  have hactive : (frame.table.rows frame.state.resident.slot).active = ∅ := by
    apply Finset.eq_empty_of_forall_notMem
    intro page
    apply h.sound.within.not_mem_active
    simp [SwaKVCacheState.mapped, hfresh.bindings, hfresh.staged]
  have hwipe := SwaPageTable.wipe_wiped_of_active hactive
  have hclear := @SwaPageTable.clearRow_eq g frame.table _ h.sound.slot
  rw [hslot] at hwipe hclear
  refine ⟨⟨frame.state, frame.table.wipe slot⟩, ?_, rfl, ?_⟩
  · have hrun : SlotFrame.onTable (fun table => table.clearRow g slot) frame =
        (.ok (), ⟨frame.state, frame.table.wipe slot⟩) := by
      simp only [SlotFrame.onTable, Checked.zoom, Checked.mutate, hclear]
    exact bind_of_ok hrun
  · exact
      { sound := hslot ▸ h.sound.wipe
        resident := hslot
        pending := h.pending
        count := h.count
        unwiped := by
          rw [hwipe]
          exact h.unwiped }

/-- Every step of an admitted sequence: induction over the steps before it. -/
theorem steps_covered (h : Between g slot 0 frame) (hfresh : frame.state.Fresh)
    (promptLength d : Nat)
    (hwidth : (retainedRange (promptLength + d) g.pageSize g.windowSize).endPage ≤
      g.maxPagesPerSeq) :
    (prepareStep g slot promptLength d (frameBefore g slot promptLength frame d)).1 = .ok true ∧
      (retire g slot (framePrepared g slot promptLength frame d)).1 = .ok () ∧
      Covered g slot (promptLength + d) (frameBefore g slot promptLength frame d).state
        (framePrepared g slot promptLength frame d)
        (frameBefore g slot promptLength frame (d + 1)) ∧
      Between g slot (promptLength + d) (frameBefore g slot promptLength frame (d + 1)) := by
  induction d with
  | zero =>
    obtain ⟨cleared, hprepare, hstate, hcleared⟩ := prepareStep_zero h hfresh promptLength
    have hstep := step_covered hcleared (Nat.zero_le promptLength) hwidth
    obtain ⟨prepared, completed, hadvance, hretire, hcovered, hbetween⟩ := hstep
    rw [hstate] at hcovered
    simp only [frameBefore, framePrepared, hprepare, hadvance, hretire]
    exact ⟨trivial, trivial, hcovered, hbetween⟩
  | succ d ih =>
    have hmono := SwaKVCacheState.retainedRange_end_mono g.pageSize g.windowSize
      (Nat.le_add_right (promptLength + d) 1)
    have hbefore := (ih (Nat.le_trans hmono hwidth)).2.2.2
    have hstep := step_covered hbefore (Nat.le_add_right _ 1) hwidth
    obtain ⟨prepared, completed, hadvance, hretire, hcovered, hbetween⟩ := hstep
    have hprepare : prepareStep g slot promptLength (d + 1)
        (frameBefore g slot promptLength frame (d + 1)) = (.ok true, prepared) := by
      rw [← hadvance, ← hbefore.count]
      rfl
    rw [frameBefore.eq_2 _ _ _ _ (d + 1), framePrepared, hprepare]
    simp only [hretire]
    exact ⟨trivial, trivial, hcovered, hbetween⟩

end Steps

namespace SwaPageManager

variable {g : SwaGeometry}

/-- An admission that succeeds leaves a live, admitted request. -/
theorem beginRequest_admitted (residents : List ResidentRef) (stream : Nat) (m : SwaPageManager) :
    Ensures (beginRequest g residents stream) (fun status m' => status = .kOk → m'.faulted = false ∧
        ∃ impl, m'.handle = some impl ∧ impl.phase = .kAdmitted) (fun _ _ => True) m := by
  rw [beginRequest, ensures_bind, ensures_check]
  constructor
  · intro _
    rw [ensures_bind, ensures_read, ensures_ite]
    constructor
    · exact fun _ hok => by cases hok
    · intro _
      rw [ensures_ite]
      constructor
      · exact fun _ hok => by cases hok
      · intro _
        rw [ensures_bind, ensures_check]
        constructor
        · intro _
          rw [ensures_bind, ensures_ofExcept]
          cases checkResidents g [] residents with
          | error e => trivial
          | ok _ =>
            rw [outcome_ok, ensures_ite]
            constructor
            · exact fun _ hok => by cases hok
            · intro _
              rw [ensures_bind, ensures_modify, ensures_pure]
              exact fun _ => ⟨rfl, _, rfl, rfl⟩
        · exact fun _ => trivial
  · exact fun _ => trivial

/-- A request that was just admitted has fresh sequences on unwiped rows. -/
theorem admitted_between {m : SwaPageManager} (hinv : Inv g m) (hfaulted : m.faulted = false)
    {impl : RequestImpl} (himpl : m.handle = some impl) (hphase : impl.phase = .kAdmitted)
    {state : SwaKVCacheState} (hmem : state ∈ m.held) :
    Between g state.resident.slot 0 ⟨state, m.table⟩ ∧ state.Fresh := by
  obtain ⟨hquarantine, -, hcore, hunwiped, hlive⟩ := hinv.of_handle himpl
  have hstate : state ∈ impl.states := by
    simpa [held, himpl, hquarantine] using hmem
  have hfresh := hlive.fresh hfaulted hphase state hstate
  constructor
  · exact
      { sound := hcore.batch.sound state hstate
        resident := rfl
        pending := hfresh.pending
        count := hfresh.count
        unwiped := hunwiped hfaulted state hstate }
  · exact hfresh

/-- After any run, let a request be admitted, and take any of its sequences
through a prefill of any length and any number of decode steps.  Every step
whose endpoint's pages fit the width of the table is prepared and completed:
`advance` accepts it, and the multi-token path, too, leaves the same sequence;
the bindings are the contiguous pages of the window; and every token of the
window is mapped, to one page, before and after the step's retirement. -/
theorem window_always_covered (g : SwaGeometry) (ops : List (Op × List DeviceOutcome))
    (residents : List ResidentRef) (stream : Nat) (device : List DeviceOutcome) (m : SwaPageManager)
    (hadmitted : step g (.beginRequest residents stream) device (run g ops (initial g)) =
      (.ok .kOk, m))
    (state : SwaKVCacheState) (hstate : state ∈ m.held) (promptLength d : Nat)
    (hwidth : (promptLength + d + g.pageSize - 1) / g.pageSize ≤ g.maxPagesPerSeq) :
    let start : SlotFrame := ⟨state, m.table⟩
    let slot := state.resident.slot
    let before := frameBefore g slot promptLength start d
    let prepared := framePrepared g slot promptLength start d
    let completed := frameBefore g slot promptLength start (d + 1)
    (prepareStep g slot promptLength d before).1 = .ok true ∧
      (retire g slot prepared).1 = .ok () ∧
      Covered g slot (promptLength + d) before.state prepared completed := by
  have hinv := (step_inv (run_inv ops (initial g) initial_inv)
    (.beginRequest residents stream) device).1
  have hlive := (beginRequest_admitted residents stream _).of_ok hadmitted rfl
  rw [hadmitted] at hinv
  obtain ⟨hfaulted, impl, himpl, hphase⟩ := hlive
  have hstart := admitted_between hinv hfaulted himpl hphase hstate
  have hsteps := steps_covered hstart.1 hstart.2 promptLength d hwidth
  exact ⟨hsteps.1, hsteps.2.1, hsteps.2.2.1⟩

/-- One token of prompt and one decode step in pages of one token: the second
step retires the page of the first. -/
theorem window_always_covered_two :
    let m := (step narrow (.beginRequest [⟨0, 0⟩] 0) [] (initial narrow)).2
    let state : SwaKVCacheState :=
      { resident := ⟨0, 0⟩, pageSizeTokens := 1, windowSizeTokens := 1,
        reservedPages := [4, 3, 2, 1, 0] }
    Covered narrow 0 2 (frameBefore narrow 0 1 ⟨state, m.table⟩ 1).state
      (framePrepared narrow 0 1 ⟨state, m.table⟩ 1) (frameBefore narrow 0 1 ⟨state, m.table⟩ 2) :=
  (window_always_covered narrow [] [⟨0, 0⟩] 0 [] _ rfl _ (List.mem_singleton.2 rfl) 1 1
    (by decide)).2.2

end SwaPageManager

end EdgeLLM.Ports.BoundedSwa
