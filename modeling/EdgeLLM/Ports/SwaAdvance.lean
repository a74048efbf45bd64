import EdgeLLM.Ports.SwaWindow

/-!
# Advancing one sequence

Both paths of `advance` are advances in the sense of
`SwaKVCacheState.Advanced`: the single-token path by computing it on a settled
sequence, the multi-token path by induction over its binding loop.
-/

namespace EdgeLLM.Ports.BoundedSwa

open Verified
open scoped List

namespace SwaKVCacheState

variable {g : SwaGeometry} {state state' : SwaKVCacheState}

/-! ## The single-token path -/

variable {logicalPage newExactResidentTokenCount : Nat} {binding : SwaPageBinding}

theorem findBinding_eq (h : state.Wf g) (hge : state.retainedLogicalPageBegin ≤ logicalPage) :
    findBinding state logicalPage =
      state.pageBindings[logicalPage - state.retainedLogicalPageBegin]? := by
  have hle := h.begin_le_end
  have hlen := h.length_pageBindings
  rw [findBinding]
  cases hget : state.pageBindings[logicalPage - state.retainedLogicalPageBegin]? with
  | none =>
    rw [Option.filter_none]
    split <;> rfl
  | some binding =>
    have hlogical := h.logicalPage_getElem? hget
    rw [if_neg (by omega), Option.filter_some, if_pos (by simp; omega)]

/-- The page a settled sequence writes next is its last bound page when that
page is begun, and the one after it otherwise. -/
theorem firstWritePage_eq (h : state.Wf g) (hpending : state.pendingEndpoint = none) :
    state.retainedLogicalPageEnd = state.exactResidentTokenCount / g.pageSize +
      if state.exactResidentTokenCount % g.pageSize = 0 then 0 else 1 := by
  have hend := (h.settledWindow hpending).2
  rw [retainedRange_end _ _ g.pageSize_pos] at hend
  rw [← hend]
  split <;> rfl

theorem begin_le_firstWritePage (h : state.Wf g) (hpending : state.pendingEndpoint = none) :
    state.retainedLogicalPageBegin ≤ state.exactResidentTokenCount / g.pageSize := by
  rw [← (h.settledWindow hpending).1]
  exact Nat.div_le_div_right (Nat.sub_le _ _)

theorem findBinding_firstWritePage (h : state.Wf g) (hpending : state.pendingEndpoint = none) :
    (findBinding state (state.exactResidentTokenCount / g.pageSize)).isSome =
      decide (state.exactResidentTokenCount % g.pageSize ≠ 0) := by
  have hge := begin_le_firstWritePage h hpending
  have hend := firstWritePage_eq h hpending
  have hlen := h.length_pageBindings
  rw [findBinding_eq h hge]
  by_cases hzero : state.exactResidentTokenCount % g.pageSize = 0
  · rw [if_pos hzero] at hend
    rw [List.getElem?_eq_none (by omega)]
    simp [hzero]
  · rw [if_neg hzero] at hend
    rw [List.getElem?_eq_getElem (by omega)]
    simp [hzero]

/-- One more token opens the next page exactly at a page boundary. -/
theorem endPage_succ (h : state.Wf g) (hpending : state.pendingEndpoint = none) :
    (retainedRange (state.exactResidentTokenCount + 1) g.pageSize g.windowSize).endPage =
      state.retainedLogicalPageEnd +
        if state.exactResidentTokenCount % g.pageSize = 0 then 1 else 0 := by
  rw [retainedRange_end_succ _ _ g.pageSize_pos, firstWritePage_eq h hpending]
  split <;> omega

/-- One more token lets go of the front page or of none. -/
theorem beginPage_succ (h : state.Wf g) (hpending : state.pendingEndpoint = none) :
    (retainedRange (state.exactResidentTokenCount + 1) g.pageSize g.windowSize).beginPage =
        state.retainedLogicalPageBegin ∨
      (retainedRange (state.exactResidentTokenCount + 1) g.pageSize g.windowSize).beginPage =
        state.retainedLogicalPageBegin + 1 := by
  have hbegin := (h.settledWindow hpending).1
  have hmono := retainedRange_begin_mono g.windowSize g.pageSize
    (Nat.le_add_right state.exactResidentTokenCount 1)
  have hsucc := retainedRange_begin_succ state.exactResidentTokenCount g.windowSize g.pageSize
  omega

/-- The page being written stays in the window. -/
theorem beginPage_succ_le (g : SwaGeometry) (state : SwaKVCacheState) :
    (retainedRange (state.exactResidentTokenCount + 1) g.pageSize g.windowSize).beginPage ≤
      state.exactResidentTokenCount / g.pageSize := by
  have hpos := g.windowSize_pos
  exact Nat.div_le_div_right (by omega)

/-- A transition that takes its staged bindings from the window and its new
ones from the reserve is an advance. -/
theorem advanced_retain (moved : SwaKVCacheState) (h : state.Wf g)
    (hpending : state.pendingEndpoint = none)
    (hforward : state.exactResidentTokenCount ≤ newExactResidentTokenCount)
    (hwidth : (retainedRange newExactResidentTokenCount g.pageSize g.windowSize).endPage ≤
      g.maxPagesPerSeq) (hresident : moved.resident = state.resident)
    (hcount : moved.exactResidentTokenCount = state.exactResidentTokenCount)
    (hlogical : moved.pageBindings.map SwaPageBinding.logicalPage =
      List.range' (retainedRange newExactResidentTokenCount g.pageSize g.windowSize).beginPage
        ((retainedRange newExactResidentTokenCount g.pageSize g.windowSize).endPage -
          (retainedRange newExactResidentTokenCount g.pageSize g.windowSize).beginPage))
    (hmoved : moved.mapped ~ state.pageBindings ++ moved.newPageBindings)
    (hstaged : ∀ binding ∈ moved.pendingRetireBindings, binding.logicalPage <
      (retainedRange newExactResidentTokenCount g.pageSize g.windowSize).beginPage)
    (hfront : moved.pendingRetireBindings.Sublist state.pageBindings)
    (hdrawn : state.reservedPages ~
      moved.newPageBindings.map SwaPageBinding.page ++ moved.reservedPages) :
    Advanced g newExactResidentTokenCount state
      (moved.retain (retainedRange newExactResidentTokenCount g.pageSize g.windowSize)
        newExactResidentTokenCount) where
  resident := hresident
  count := hcount
  pending := rfl
  mapped := by
    rw [mapped.eq_1 state, (h.settled hpending).2, List.append_nil]
    exact hmoved
  drawn := hdrawn
  wf :=
    { window := rfl
      logical := hlogical
      width := hwidth
      forward := hcount ▸ hforward
      staged := hstaged
      staged_nodup := by
        have hnodup : (state.pageBindings.map SwaPageBinding.logicalPage).Nodup := by
          rw [h.logical]
          exact List.nodup_range'
        exact hnodup.sublist (hfront.map _)
      settled := by simp [retain] }

/-- The settled sequence with the page of the next token mapped if the token
opens one. -/
def opened (g : SwaGeometry) (state : SwaKVCacheState) : SwaKVCacheState :=
  if state.exactResidentTokenCount % g.pageSize = 0 then
    state.mapPage (state.exactResidentTokenCount / g.pageSize)
  else state

/-- The sequence after the single-token path. -/
def steppedOne (g : SwaGeometry) (state : SwaKVCacheState) : SwaKVCacheState :=
  let retained := retainedRange (state.exactResidentTokenCount + 1) g.pageSize g.windowSize
  let opened := state.opened g
  let staged :=
    if retained.beginPage ≠ state.retainedLogicalPageBegin then opened.stageFront else opened
  staged.retain retained (state.exactResidentTokenCount + 1)

/-- On a settled sequence the single-token path does not refuse. -/
theorem advanceOne_eq (h : state.Wf g) (hpending : state.pendingEndpoint = none)
    (hreserved : state.reservedPages ≠ []) :
    advanceOne g state = .ok (some (state.steppedOne g)) := by
  have hend := endPage_succ h hpending
  have hbegin := beginPage_succ h hpending
  have hsome := findBinding_firstWritePage h hpending
  have hwrite := firstWritePage_eq h hpending
  have hlow := begin_le_firstWritePage h hpending
  have hlen := h.length_pageBindings
  obtain ⟨hadded, hstaged⟩ := h.settled hpending
  have hnone : (findBinding state (state.exactResidentTokenCount / g.pageSize)).isNone =
      decide (state.exactResidentTokenCount % g.pageSize = 0) := by
    rw [← Option.not_isSome, hsome]
    simp
  have hdelta : (state.retainedLogicalPageBegin : Int) + 1 - state.retainedLogicalPageBegin = 1 := by
    omega
  have hfront : state.retainedLogicalPageBegin < state.retainedLogicalPageEnd →
      state.pageBindings.head?.map SwaPageBinding.logicalPage =
        some state.retainedLogicalPageBegin := by
    intro hlt
    rw [← List.head?_map, h.logical, List.head?_range', if_neg (by omega)]
  have hkept := beginPage_succ_le g state
  simp only [advanceOne, hsome, hnone, steppedOne, opened]
  generalize retainedRange (state.exactResidentTokenCount + 1) g.pageSize g.windowSize = retained
    at hend hbegin hkept ⊢
  obtain ⟨nextBegin, nextEnd⟩ := retained
  simp only at hend hbegin hkept ⊢
  by_cases hzero : state.exactResidentTokenCount % g.pageSize = 0
  · rw [if_pos hzero] at hend hwrite
    rw [if_neg (by omega), if_neg (by simp), if_neg (by simp [hzero]; omega),
      if_neg (by simp [hzero]), if_neg (by simp [hreserved])]
    rcases hbegin with hsame | hnext
    · simp [hsame, hzero, hadded, hstaged, requireThat, bind, Except.bind]
    · have hhead := hfront (by omega)
      simp [hnext, hzero, hdelta, hhead, hadded, hstaged, requireThat, bind, Except.bind]
  · rw [if_neg hzero] at hend hwrite
    rw [if_neg (by omega), if_neg (by simp), if_neg (by simp [hzero]; omega)]
    rcases hbegin with hsame | hnext
    · simp [hsame, hend, hzero, SwaKVCacheState.retain]
    · have hhead := hfront (by omega)
      simp [hnext, hzero, hdelta, hhead, hadded, hstaged, requireThat, bind, Except.bind]

/-- What mapping the page of the next token does to a settled sequence. -/
structure Opened (g : SwaGeometry) (state opened : SwaKVCacheState) : Prop where
  resident : opened.resident = state.resident
  count : opened.exactResidentTokenCount = state.exactResidentTokenCount
  staged : opened.pendingRetireBindings = []
  bindings : opened.pageBindings = state.pageBindings ++ opened.newPageBindings
  logical : opened.pageBindings.map SwaPageBinding.logicalPage =
    List.range' state.retainedLogicalPageBegin
      ((retainedRange (state.exactResidentTokenCount + 1) g.pageSize g.windowSize).endPage -
        state.retainedLogicalPageBegin)
  drawn : state.reservedPages ~
    opened.newPageBindings.map SwaPageBinding.page ++ opened.reservedPages

/-- Mapping a page in a sequence that has drawn none. -/
theorem mapPage_eq (hreserved : state.reservedPages ≠ []) (hadded : state.newPageBindings = []) :
    state.mapPage logicalPage =
      { state with
        reservedPages := state.reservedPages.dropLast
        pageBindings :=
          state.pageBindings ++ [⟨logicalPage, state.reservedPages.getLast hreserved⟩]
        newPageBindings := [⟨logicalPage, state.reservedPages.getLast hreserved⟩] } := by
  rw [mapPage, List.getLast?_eq_some_getLast hreserved, hadded]
  rfl

theorem opened_spec (h : state.Wf g) (hpending : state.pendingEndpoint = none)
    (hreserved : state.reservedPages ≠ []) : Opened g state (state.opened g) := by
  have hend := endPage_succ h hpending
  have hwrite := firstWritePage_eq h hpending
  have hle := h.begin_le_end
  obtain ⟨hadded, hstaged⟩ := h.settled hpending
  rw [opened]
  by_cases hzero : state.exactResidentTokenCount % g.pageSize = 0
  · rw [if_pos hzero] at hend hwrite ⊢
    rw [mapPage_eq hreserved hadded]
    exact
      { resident := rfl
        count := rfl
        staged := hstaged
        bindings := rfl
        logical := by
          rw [List.map_append, h.logical, hend,
            show state.retainedLogicalPageEnd + 1 - state.retainedLogicalPageBegin =
              (state.retainedLogicalPageEnd - state.retainedLogicalPageBegin) + 1 by omega,
            List.range'_1_concat]
          simp only [List.map_cons, List.map_nil, List.append_cancel_left_eq, List.cons.injEq,
            and_true]
          omega
        drawn := by
          have hsplit := List.dropLast_append_getLast hreserved
          calc state.reservedPages
              ~ state.reservedPages.dropLast ++ [state.reservedPages.getLast hreserved] := by
                rw [hsplit]
            _ ~ [state.reservedPages.getLast hreserved] ++ state.reservedPages.dropLast :=
                List.perm_append_comm }
  · rw [if_neg hzero] at hend ⊢
    exact
      { resident := rfl
        count := rfl
        staged := hstaged
        bindings := by rw [hadded, List.append_nil]
        logical := by rw [h.logical, hend, Nat.add_zero]
        drawn := by rw [hadded, List.map_nil, List.nil_append] }

theorem steppedOne_advanced (h : state.Wf g) (hpending : state.pendingEndpoint = none)
    (hreserved : state.reservedPages ≠ [])
    (hwidth : (retainedRange (state.exactResidentTokenCount + 1) g.pageSize g.windowSize).endPage ≤
      g.maxPagesPerSeq) :
    Advanced g (state.exactResidentTokenCount + 1) state (state.steppedOne g) := by
  have hopened := opened_spec h hpending hreserved
  have hbegin := beginPage_succ h hpending
  have hlt : state.retainedLogicalPageBegin <
      (retainedRange (state.exactResidentTokenCount + 1) g.pageSize g.windowSize).endPage := by
    have hlow := begin_le_firstWritePage h hpending
    rw [retainedRange_end_succ _ _ g.pageSize_pos]
    omega
  have hlogical := hopened.logical
  have hle := Nat.le_add_right state.exactResidentTokenCount 1
  rw [steppedOne]
  by_cases hsame : (retainedRange (state.exactResidentTokenCount + 1) g.pageSize
      g.windowSize).beginPage = state.retainedLogicalPageBegin
  · rw [if_neg (by simp [hsame])]
    apply advanced_retain (state.opened g) h hpending hle hwidth hopened.resident hopened.count
    · rw [hsame]
      exact hlogical
    · rw [mapped, hopened.staged, List.append_nil, hopened.bindings]
    · simp [hopened.staged]
    · simp [hopened.staged]
    · exact hopened.drawn
  · rw [if_pos hsame]
    have hnext := hbegin.resolve_left hsame
    have hspan : (retainedRange (state.exactResidentTokenCount + 1) g.pageSize g.windowSize).endPage -
        state.retainedLogicalPageBegin =
          ((retainedRange (state.exactResidentTokenCount + 1) g.pageSize g.windowSize).endPage -
            (state.retainedLogicalPageBegin + 1)) + 1 := by omega
    rw [hspan, List.range'_succ] at hlogical
    obtain ⟨front, rest, hsplit, hhead, htail⟩ := List.map_eq_cons_iff.1 hlogical
    obtain ⟨hkeep, hstage⟩ := stageFront_bindings hsplit
    rw [hopened.staged, List.nil_append] at hstage
    have hfront : [front].Sublist state.pageBindings := by
      have hkept := beginPage_succ_le g state
      have hwrite := firstWritePage_eq h hpending
      have hlen := h.length_pageBindings
      have hbindings := hopened.bindings
      cases hold : state.pageBindings with
      | nil =>
        rw [hold, List.length_nil] at hlen
        omega
      | cons first others =>
        rw [hsplit, hold, List.cons_append, List.cons.injEq] at hbindings
        rw [hbindings.1]
        exact List.singleton_sublist.2 (List.mem_cons_self ..)
    apply advanced_retain (state.opened g).stageFront h hpending hle hwidth
    · rw [stageFront_resident, hopened.resident]
    · rw [stageFront_count, hopened.count]
    · rw [hkeep, hnext]
      exact htail
    · rw [mapped, hkeep, hstage, stageFront_newPageBindings, ← hopened.bindings, hsplit]
      exact List.perm_append_comm
    · intro binding hmem
      rw [hstage, List.mem_singleton] at hmem
      rw [hmem, hhead, hnext]
      omega
    · rw [hstage]
      exact hfront
    · rw [stageFront_newPageBindings, stageFront_reservedPages]
      exact hopened.drawn

/-! ## The multi-token path -/

theorem findBinding_logicalPage (hfind : findBinding state logicalPage = some binding) :
    binding.logicalPage = logicalPage := by
  rw [findBinding] at hfind
  split at hfind
  · cases hfind
  · rw [Option.filter_eq_some_iff] at hfind
    exact of_decide_eq_true hfind.2

/-- The binding loop keeps what it finds, binds the rest to reserved pages and
returns the window in logical order. -/
theorem bindRange_spec {firstWritePage : Nat} {writesExistingPartialPage : Bool}
    {logicalPages : List Nat} {reserved rest : List PageId}
    {nextBindings newBindings : List SwaPageBinding}
    (hbind : bindRange state firstWritePage writesExistingPartialPage logicalPages reserved =
      some (nextBindings, newBindings, rest)) :
    nextBindings.map SwaPageBinding.logicalPage = logicalPages ∧
      nextBindings ~ logicalPages.filterMap (findBinding state) ++ newBindings ∧
      reserved ~ newBindings.map SwaPageBinding.page ++ rest := by
  induction logicalPages generalizing reserved nextBindings newBindings with
  | nil =>
    simp only [bindRange, Option.some.injEq, Prod.mk.injEq] at hbind
    obtain ⟨rfl, rfl, rfl⟩ := hbind
    exact ⟨rfl, List.Perm.refl _, List.Perm.refl _⟩
  | cons logicalPage logicalPages ih =>
    rw [bindRange] at hbind
    cases hfind : findBinding state logicalPage with
    | some binding =>
      simp only [hfind] at hbind
      split at hbind
      · cases hbind
      · rw [Option.map_eq_some_iff] at hbind
        obtain ⟨⟨next, added, left⟩, htail, heq⟩ := hbind
        simp only [Prod.mk.injEq] at heq
        obtain ⟨rfl, rfl, rfl⟩ := heq
        obtain ⟨hlogical, hmoved, hdrawn⟩ := ih htail
        constructor
        · rw [List.map_cons, hlogical, findBinding_logicalPage hfind]
        · constructor
          · rw [List.filterMap_cons_some hfind]
            exact hmoved.cons binding
          · exact hdrawn
    | none =>
      simp only [hfind] at hbind
      split at hbind
      · cases hbind
      · cases hlast : reserved.getLast? with
        | none => simp [hlast] at hbind
        | some destination =>
          simp only [hlast, Option.map_eq_some_iff] at hbind
          obtain ⟨⟨next, added, left⟩, htail, heq⟩ := hbind
          simp only [Prod.mk.injEq] at heq
          obtain ⟨rfl, rfl, rfl⟩ := heq
          obtain ⟨hlogical, hmoved, hdrawn⟩ := ih htail
          constructor
          · rw [List.map_cons, hlogical]
          · constructor
            · rw [List.filterMap_cons_none hfind]
              exact (hmoved.cons _).trans List.perm_middle.symm
            · have hsplit : reserved.dropLast ++ [destination] = reserved :=
                List.dropLast_append_getLast? destination hlast
              calc reserved
                  ~ reserved.dropLast ++ [destination] := by rw [hsplit]
                _ ~ [destination] ++ reserved.dropLast := List.perm_append_comm
                _ ~ [destination] ++ (added.map SwaPageBinding.page ++ left) :=
                    hdrawn.append_left _

/-- The retained part of the old window is what the loop finds. -/
theorem filterMap_findBinding (h : state.Wf g) {start count : Nat}
    (hstart : state.retainedLogicalPageBegin ≤ start)
    (hcount : state.retainedLogicalPageEnd ≤ start + count) :
    (List.range' start count).filterMap (findBinding state) =
      state.pageBindings.drop (start - state.retainedLogicalPageBegin) := by
  have hlen := h.length_pageBindings
  have hshift : List.range' start count =
      (List.range' (start - state.retainedLogicalPageBegin) count).map
        (state.retainedLogicalPageBegin + ·) := by
    rw [List.map_add_range', Nat.add_sub_cancel' hstart]
  have hread : ∀ i, findBinding state (state.retainedLogicalPageBegin + i) =
      state.pageBindings[i]? := by
    intro i
    rw [findBinding_eq h (Nat.le_add_right _ _), Nat.add_sub_cancel_left]
  rw [hshift, List.filterMap_map]
  calc (List.range' (start - state.retainedLogicalPageBegin) count).filterMap
        (findBinding state ∘ (state.retainedLogicalPageBegin + ·))
      = (List.range' (start - state.retainedLogicalPageBegin) count).filterMap
          (fun i => state.pageBindings[i]?) := List.filterMap_congr fun i _ => hread i
    _ = (state.pageBindings.drop (start - state.retainedLogicalPageBegin)).take count :=
        filterMap_range'_getElem? _ _ _
    _ = state.pageBindings.drop (start - state.retainedLogicalPageBegin) := by
        apply List.take_of_length_le
        rw [List.length_drop]
        omega

/-- The stale front and the retained part make up the old window. -/
theorem stale_append_retained (h : state.Wf g) (start : Nat) : state.pageBindings.take
        (min start state.retainedLogicalPageEnd - state.retainedLogicalPageBegin) ++
      state.pageBindings.drop (start - state.retainedLogicalPageBegin) = state.pageBindings := by
  have hlen := h.length_pageBindings
  by_cases hin : start ≤ state.retainedLogicalPageEnd
  · rw [Nat.min_eq_left hin, List.take_append_drop]
  · rw [Nat.min_eq_right (by omega), List.take_of_length_le (by omega),
      List.drop_eq_nil_of_le (by omega), List.append_nil]

theorem stale_lt (h : state.Wf g) {start : Nat} (hmem : binding ∈ state.pageBindings.take
      (min start state.retainedLogicalPageEnd - state.retainedLogicalPageBegin)) :
    binding.logicalPage < start := by
  obtain ⟨i, hget⟩ := List.mem_iff_getElem?.1 hmem
  rw [List.getElem?_take] at hget
  split at hget
  · have hlogical := (h.logicalPage_getElem? hget).1
    omega
  · cases hget

theorem advanceRange_advanced (h : state.Wf g) (hpending : state.pendingEndpoint = none)
    (hforward : state.exactResidentTokenCount ≤ newExactResidentTokenCount)
    (hwidth : (retainedRange newExactResidentTokenCount g.pageSize g.windowSize).endPage ≤
      g.maxPagesPerSeq) (hadvance : advanceRange g state newExactResidentTokenCount = some state') :
    Advanced g newExactResidentTokenCount state state' := by
  have hle := retainedRange_begin_le_end newExactResidentTokenCount g.windowSize g.pageSize
  simp only [advanceRange] at hadvance
  split at hadvance
  · cases hadvance
  · rename_i hrange
    split at hadvance
    · cases hadvance
    · rename_i nextBindings newBindings rest hbind
      split at hadvance
      · cases hadvance
      · cases hadvance
        obtain ⟨hlogical, hmoved, hdrawn⟩ := bindRange_spec hbind
        apply advanced_retain _ h hpending hforward hwidth
        · rfl
        · rfl
        · exact hlogical
        · rw [filterMap_findBinding h (by omega) (by omega)] at hmoved
          have hsplit := stale_append_retained h
            (retainedRange newExactResidentTokenCount g.pageSize g.windowSize).beginPage
          show nextBindings ++ state.pageBindings.take _ ~ state.pageBindings ++ newBindings
          nth_rewrite 2 [← hsplit]
          rw [List.append_assoc]
          exact List.perm_append_comm.trans (hmoved.append_left _)
        · exact fun binding hmem => stale_lt h hmem
        · exact List.take_sublist _ _
        · exact hdrawn

/-- What `advance` does to a sequence with a reserve: it throws exactly when an
earlier advance is unfinished or the endpoint moves backward, and what it
returns is an advance. -/
theorem advance_outcome (newExactResidentTokenCount : Nat) (h : state.Wf g)
    (hreserved : state.pendingEndpoint = none → state.reservedPages ≠ []) :
    Outcome (advance g state newExactResidentTokenCount) (fun next => state.pendingEndpoint = none ∧
        ∀ state', next = some state' → Advanced g newExactResidentTokenCount state state')
      (fun e => e = .advancePending ∧ state.pendingEndpoint ≠ none ∨ e = .endpointBackward ∧
          newExactResidentTokenCount < state.exactResidentTokenCount) := by
  rw [advance, outcome_bind, outcome_requireThat]
  constructor
  · intro hpending
    rw [outcome_bind, outcome_requireThat]
    constructor
    · intro hforward
      by_cases hsame : newExactResidentTokenCount = state.exactResidentTokenCount
      · rw [if_pos hsame, outcome_ok]
        refine ⟨hpending, fun state' heq => ?_⟩
        cases heq
        have hwindow := h.window
        rw [endpoint, hpending, Option.getD_none] at hwindow
        exact
          { resident := rfl
            count := rfl
            pending := rfl
            wf :=
              { window := by rw [endpoint, Option.getD_some, hsame]; exact hwindow
                logical := h.logical
                width := h.width
                forward := hforward
                staged := h.staged
                staged_nodup := h.staged_nodup
                settled := fun hnone => (Option.some_ne_none _ hnone).elim }
            mapped := by rw [(h.settled hpending).1, List.append_nil]; rfl
            drawn := by rw [(h.settled hpending).1]; rfl }
      · rw [if_neg hsame]
        by_cases hwidth : g.maxPagesPerSeq <
            (retainedRange newExactResidentTokenCount g.pageSize g.windowSize).endPage
        · rw [if_pos hwidth, outcome_ok]
          exact ⟨hpending, fun state' heq => by cases heq⟩
        · rw [if_neg hwidth]
          have hwidth := Nat.le_of_not_lt hwidth
          by_cases hone : newExactResidentTokenCount = state.exactResidentTokenCount + 1
          · rw [if_pos hone, advanceOne_eq h hpending (hreserved hpending), outcome_ok]
            refine ⟨hpending, fun state' heq => ?_⟩
            cases heq
            rw [hone] at hwidth ⊢
            exact steppedOne_advanced h hpending (hreserved hpending) hwidth
          · rw [if_neg hone, outcome_ok]
            exact ⟨hpending, fun state' heq =>
              advanceRange_advanced h hpending hforward hwidth heq⟩
    · intro hback
      exact Or.inr ⟨rfl, Nat.lt_of_not_le hback⟩
  · intro hpending
    exact Or.inl ⟨rfl, hpending⟩

/-- A fresh sequence binds its whole window from the reserve. -/
theorem bindRange_fresh (h : state.Fresh) (logicalPages : List Nat) (reserved : List PageId)
    (hroom : logicalPages.length ≤ reserved.length) : ∃ nextBindings newBindings rest,
      bindRange state 0 false logicalPages reserved = some (nextBindings, newBindings, rest) ∧
        nextBindings.length = logicalPages.length := by
  induction logicalPages generalizing reserved with
  | nil => exact ⟨[], [], reserved, rfl, rfl⟩
  | cons logicalPage logicalPages ih =>
    have hfind : findBinding state logicalPage = none := by
      rw [findBinding, if_pos]
      rw [h.retainedBegin, h.retainedEnd]
      omega
    rw [List.length_cons] at hroom
    have hne : reserved ≠ [] := List.ne_nil_of_length_pos (by omega)
    obtain ⟨next, added, rest, htail, hlen⟩ := ih reserved.dropLast (by
      rw [List.length_dropLast]
      omega)
    refine ⟨⟨logicalPage, reserved.getLast hne⟩ :: next,
      ⟨logicalPage, reserved.getLast hne⟩ :: added, rest, ?_, by simp [hlen]⟩
    simp [bindRange, hfind, List.getLast?_eq_some_getLast hne, htail]

/-- The first advance of a sequence succeeds within the width of the table. -/
theorem advance_fresh (h : state.Fresh)
    (hwidth : (retainedRange newExactResidentTokenCount g.pageSize g.windowSize).endPage ≤
      g.maxPagesPerSeq) (hreserved : g.privatePagesPerSequence ≤ state.reservedPages.length) :
    ∃ state', advance g state newExactResidentTokenCount = .ok (some state') := by
  have hspan := retainedRange_span newExactResidentTokenCount g.windowSize g.pageSize_pos
  simp only [SwaGeometry.privatePagesPerSequence, computeSwaPrivatePagesPerSlot,
    kSwaReplacementPages] at hreserved
  have hne : state.reservedPages ≠ [] := List.ne_nil_of_length_pos (by omega)
  have hpending : requireThat (state.pendingEndpoint = none) SwaCheck.advancePending = .ok () :=
    requireThat_of h.pending
  have hforward : requireThat (state.exactResidentTokenCount ≤ newExactResidentTokenCount)
      SwaCheck.endpointBackward = .ok () := by
    apply requireThat_of
    rw [h.count]
    exact Nat.zero_le _
  rw [advance, hpending, hforward]
  show ∃ state', (if newExactResidentTokenCount = state.exactResidentTokenCount then _ else _) =
    Except.ok (some state')
  by_cases hsame : newExactResidentTokenCount = state.exactResidentTokenCount
  · rw [if_pos hsame]
    exact ⟨_, rfl⟩
  rw [if_neg hsame, if_neg (Nat.not_lt.2 hwidth)]
  by_cases hone : newExactResidentTokenCount = state.exactResidentTokenCount + 1
  · rw [if_pos hone]
    exact ⟨_, advanceOne_eq h.wf h.pending hne⟩
  · rw [if_neg hone]
    obtain ⟨next, added, rest, hbind, hlen⟩ := bindRange_fresh h
      (List.range' (retainedRange newExactResidentTokenCount g.pageSize g.windowSize).beginPage
        ((retainedRange newExactResidentTokenCount g.pageSize g.windowSize).endPage -
          (retainedRange newExactResidentTokenCount g.pageSize g.windowSize).beginPage))
      state.reservedPages (by rw [List.length_range']; omega)
    rw [List.length_range'] at hlen
    simp [advanceRange, h.count, h.retainedBegin, h.retainedEnd, hbind, hlen]

end SwaKVCacheState

end EdgeLLM.Ports.BoundedSwa
