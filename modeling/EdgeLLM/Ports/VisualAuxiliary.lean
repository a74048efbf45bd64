import EdgeLLM.Ports.VisualBatch
import EdgeLLM.Verified.Tables

/-!
# The compacted auxiliary inputs

The loop over the positions of a slot moves the kept ids to the front, in place,
and collects the ordinals of the kept visual tokens; over the slots the ordinals
continue where the preceding slots end.
-/

namespace EdgeLLM.Ports.VisualPruner

open Verified

/-! ## Ordinals of visual tokens -/

/-- Whether the token at a position is a visual one. -/
def isVisual (imageTokenId : Int) (ids : List Int) (pos : Nat) : Bool :=
  decide (ids.getD pos 0 = imageTokenId)

/-- How many visual tokens stand in front of a position. -/
def ordinalBefore (imageTokenId : Int) (ids : List Int) (pos : Nat) : Nat :=
  ((List.range pos).filter (isVisual imageTokenId ids)).length

section Ordinals

variable {imageTokenId : Int} {ids : List Int} {pos : Nat}

theorem filter_visual (h : ids.getD pos 0 = imageTokenId) :
    [pos].filter (isVisual imageTokenId ids) = [pos] :=
  List.filter_cons_of_pos (decide_eq_true h)

theorem filter_not_visual (h : ids.getD pos 0 ≠ imageTokenId) :
    [pos].filter (isVisual imageTokenId ids) = [] :=
  List.filter_cons_of_neg fun hvisual => h (of_decide_eq_true hvisual)

theorem ordinalBefore_succ : ordinalBefore imageTokenId ids (pos + 1) =
    if ids.getD pos 0 = imageTokenId then ordinalBefore imageTokenId ids pos + 1
    else ordinalBefore imageTokenId ids pos := by
  unfold ordinalBefore
  rw [List.range_succ, List.filter_append, List.length_append]
  by_cases hvisual : ids.getD pos 0 = imageTokenId
  · rw [if_pos hvisual, filter_visual hvisual]
    rfl
  · rw [if_neg hvisual, filter_not_visual hvisual]
    rfl

/-- The visual tokens are numbered one after the other. -/
theorem map_ordinalBefore (pos : Nat) :
    ((List.range pos).filter (isVisual imageTokenId ids)).map (ordinalBefore imageTokenId ids) =
      List.range (ordinalBefore imageTokenId ids pos) := by
  induction pos with
  | zero => rfl
  | succ pos ih =>
    rw [List.range_succ, List.filter_append, List.map_append, ih, ordinalBefore_succ]
    by_cases hvisual : ids.getD pos 0 = imageTokenId
    · rw [if_pos hvisual, filter_visual hvisual, List.range_succ]
      rfl
    · rw [if_neg hvisual, filter_not_visual hvisual]
      exact List.append_nil _

theorem countP_eq_ordinalBefore : ids.countP (fun id => decide (id = imageTokenId)) =
    ordinalBefore imageTokenId ids ids.length := by
  conv_lhs => rw [← map_range_getD ids 0]
  rw [List.countP_map, List.countP_eq_length_filter]
  rfl

end Ordinals

/-! ## The positions of a slot -/

/-- The loop has passed `pos` positions. -/
structure AuxiliaryCursor.Visited (cursor : AuxiliaryCursor) (imageTokenId : Int) (ids : List Int)
    (kept : Nat → Bool) (slotBase : Nat) (start : List Nat) (pos : Nat) : Prop where
  k_eq : cursor.k = ((List.range pos).filter kept).length
  length_eq : cursor.ids.length = ids.length
  moved : ∀ a < cursor.k,
    cursor.ids.getD a 0 = ids.getD (((List.range ids.length).filter kept).getD a 0) 0
  ahead : ∀ a, pos ≤ a → cursor.ids.getD a 0 = ids.getD a 0
  ordinal_eq : cursor.ordinal = ordinalBefore imageTokenId ids pos
  featureKeep_eq : cursor.featureKeep = start ++
    (((List.range pos).filter kept).filter (isVisual imageTokenId ids)).map
      fun p => slotBase + ordinalBefore imageTokenId ids p

section Visiting

variable {imageTokenId : Int} {ids : List Int} {kept : Nat → Bool} {slotBase pos : Nat}
  {start : List Nat} {cursor : AuxiliaryCursor}

theorem AuxiliaryCursor.Visited.k_le
    (h : cursor.Visited imageTokenId ids kept slotBase start pos) : cursor.k ≤ pos := by
  rw [h.k_eq]
  exact (List.length_filter_le _ _).trans (Nat.le_of_eq List.length_range)

/-- A turn of the loop, at a kept position or at another. -/
theorem AuxiliaryCursor.Visited.visit
    (h : cursor.Visited imageTokenId ids kept slotBase start pos) (hpos : pos < ids.length) :
    (cursor.visit imageTokenId ((List.range ids.length).filter kept) slotBase pos).Visited
      imageTokenId ids kept slotBase start (pos + 1) := by
  obtain ⟨later, hlater, hsplit⟩ := filter_range_split kept hpos
  have hk := h.k_le
  have hid : cursor.ids.getD pos 0 = ids.getD pos 0 := h.ahead pos (Nat.le_refl pos)
  have hpassed : (List.range (pos + 1)).filter kept =
      (List.range pos).filter kept ++ [pos].filter kept := by
    rw [List.range_succ, List.filter_append]
  unfold AuxiliaryCursor.visit
  dsimp only
  rw [hid]
  by_cases hkept : kept pos = true
  · rw [List.filter_cons_of_pos hkept, List.filter_nil] at hsplit hpassed
    have hcurrent : ((List.range ids.length).filter kept).getD cursor.k 0 = pos := by
      rw [hsplit, h.k_eq, List.getD_append_right _ _ _ _ (Nat.le_refl _), Nat.sub_self]
      rfl
    have hmore : cursor.k < ((List.range ids.length).filter kept).length := by
      rw [hsplit, h.k_eq, List.length_append]
      exact Nat.lt_add_of_pos_right (Nat.succ_pos _)
    rw [if_pos ⟨hmore, hcurrent.symm⟩]
    refine ⟨?_, ?_, ?_, ?_, ?_, ?_⟩
    · dsimp only
      rw [hpassed, List.length_append, h.k_eq]
      rfl
    · dsimp only
      rw [List.length_set, h.length_eq]
    · intro a ha
      dsimp only at ha ⊢
      rw [getD_set (by rw [h.length_eq]; omega)]
      by_cases heq : a = cursor.k
      · rw [if_pos heq, heq, hcurrent]
      · rw [if_neg heq]
        exact h.moved a (by omega)
    · intro a ha
      dsimp only
      rw [getD_set (by rw [h.length_eq]; omega), if_neg (by omega)]
      exact h.ahead a (by omega)
    · dsimp only
      rw [ordinalBefore_succ, h.ordinal_eq]
    · dsimp only
      rw [hpassed, List.filter_append, List.map_append, h.ordinal_eq, h.featureKeep_eq]
      by_cases hvisual : ids.getD pos 0 = imageTokenId
      · rw [if_pos hvisual, filter_visual hvisual, List.append_assoc]
        rfl
      · rw [if_neg hvisual, filter_not_visual hvisual]
        exact congrArg (start ++ ·) (List.append_nil _).symm
  · rw [List.filter_cons_of_neg hkept, List.filter_nil] at hsplit hpassed
    rw [List.append_nil] at hpassed
    rw [List.nil_append] at hsplit
    have hother : ¬(cursor.k < ((List.range ids.length).filter kept).length ∧
        pos = ((List.range ids.length).filter kept).getD cursor.k 0) := by
      intro hboth
      obtain ⟨hmore, hcurrent⟩ := hboth
      have hmem : pos ∈ later := by
        rw [hsplit, h.k_eq, List.length_append] at hmore
        rw [hsplit, h.k_eq, List.getD_append_right _ _ _ _ (Nat.le_refl _), Nat.sub_self,
          List.getD_eq_getElem _ _ (by omega)] at hcurrent
        rw [hcurrent]
        exact List.getElem_mem _
      exact Nat.lt_irrefl pos (hlater pos hmem)
    rw [if_neg hother]
    refine ⟨?_, h.length_eq, h.moved, fun a ha => h.ahead a (by omega), ?_, ?_⟩
    · dsimp only
      rw [hpassed, h.k_eq]
    · dsimp only
      rw [ordinalBefore_succ, h.ordinal_eq]
    · dsimp only
      rw [hpassed, h.featureKeep_eq]

theorem visited_foldl {n : Nat} (hn : n ≤ ids.length) : ((List.range n).foldl
      (AuxiliaryCursor.visit imageTokenId ((List.range ids.length).filter kept) slotBase)
      ⟨ids, 0, 0, start⟩).Visited imageTokenId ids kept slotBase start n := by
  induction n with
  | zero =>
    refine ⟨rfl, rfl, ?_, fun a _ => rfl, rfl, (List.append_nil start).symm⟩
    intro a ha
    cases ha
  | succ n ih =>
    rw [List.range_succ, List.foldl_append]
    exact (ih (Nat.le_of_succ_le hn)).visit hn

theorem visit_all {keep : List Nat} (hkeep : keep.Pairwise (· < ·))
    (hlt : ∀ p ∈ keep, p < ids.length) :
    let cursor := (List.range ids.length).foldl
      (AuxiliaryCursor.visit imageTokenId keep slotBase) ⟨ids, 0, 0, start⟩
    cursor.ids.take keep.length = (keep.map fun p => ids.getD p 0) ∧
      cursor.ordinal = ordinalBefore imageTokenId ids ids.length ∧
      cursor.featureKeep = start ++ (keep.filter (isVisual imageTokenId ids)).map
        fun p => slotBase + ordinalBefore imageTokenId ids p := by
  have heq := eq_filter_range hkeep hlt
  generalize (fun i => keep.contains i) = kept at heq
  subst heq
  have h := @visited_foldl imageTokenId ids kept slotBase start _ (Nat.le_refl ids.length)
  refine ⟨?_, h.ordinal_eq, h.featureKeep_eq⟩
  apply List.ext_getElem
  · rw [List.length_take, h.length_eq, List.length_map]
    have hle := List.length_filter_le kept (List.range ids.length)
    rw [List.length_range] at hle
    exact Nat.min_eq_left hle
  · intro a ha ha'
    rw [List.length_map] at ha'
    have hmoved := h.moved a (by rw [h.k_eq]; exact ha')
    rw [List.length_take] at ha
    rw [List.getElem_take, List.getElem_map, ← List.getD_eq_getElem _ 0 (by omega), hmoved,
      List.getD_eq_getElem _ 0 ha']

end Visiting

/-! ## The slots -/

/-- The visual tokens of a slot. -/
def slotVisuals (imageTokenId : Int) (hostTokenIds : List (List Int)) (i : Nat) : Nat :=
  ordinalBefore imageTokenId (hostTokenIds.getD i []) (hostTokenIds.getD i []).length

/-- The feature rows of the kept visual tokens of the first `batch` slots, numbered over
all visual tokens. -/
def keptOrdinals (imageTokenId : Int) (hostTokenIds : List (List Int)) (keep : Nat → List Nat)
    (batch : Nat) : List Nat :=
  (List.range batch).flatMap fun i =>
    ((keep i).filter (isVisual imageTokenId (hostTokenIds.getD i []))).map fun p =>
      blockStart (slotVisuals imageTokenId hostTokenIds) i +
        ordinalBefore imageTokenId (hostTokenIds.getD i []) p

/-- The kept ids of the first `batch` slots, and the other slots as they are. -/
def compactedIds (hostTokenIds : List (List Int)) (keep : Nat → List Nat) (batch : Nat) :
    List (List Int) :=
  (List.range hostTokenIds.length).map fun i =>
    if i < batch then (keep i).map fun p => (hostTokenIds.getD i []).getD p 0
    else hostTokenIds.getD i []

/-- Keep lists of the slots and the counts of what they drop. -/
structure KeepsSlots (hostTokenIds : List (List Int)) (keep : Nat → List Nat)
    (prunedTokens : List Nat) (batch : Nat) : Prop where
  batch_le : batch ≤ hostTokenIds.length
  length_eq : prunedTokens.length = batch
  ascending : ∀ i < batch, (keep i).Pairwise (· < ·)
  lt : ∀ i < batch, ∀ p ∈ keep i, p < (hostTokenIds.getD i []).length
  pruned : ∀ i < batch,
    prunedTokens.getD i 0 = (hostTokenIds.getD i []).length - (keep i).length

section Slots

variable {imageTokenId : Int} {hostTokenIds : List (List Int)} {keep : Nat → List Nat}
  {prunedTokens : List Nat} {batch i : Nat}

theorem KeepsSlots.sublist (h : KeepsSlots hostTokenIds keep prunedTokens batch) (hi : i < batch) :
    (keep i).Sublist (List.range (hostTokenIds.getD i []).length) :=
  sublist_range (h.ascending i hi) (h.lt i hi)

theorem KeepsSlots.length_le (h : KeepsSlots hostTokenIds keep prunedTokens batch)
    (hi : i < batch) : (keep i).length ≤ (hostTokenIds.getD i []).length :=
  (h.sublist hi).length_le.trans (Nat.le_of_eq List.length_range)

/-- A slot without a dropped token keeps all of them. -/
theorem KeepsSlots.eq_range (h : KeepsSlots hostTokenIds keep prunedTokens batch) (hi : i < batch)
    (hpruned : prunedTokens.getD i 0 = 0) :
    keep i = List.range (hostTokenIds.getD i []).length := by
  apply (h.sublist hi).eq_of_length
  have hcount := h.pruned i hi
  have hle := h.length_le hi
  rw [List.length_range]
  omega

theorem map_eq_self_of_range (hkeep : keep i = List.range (hostTokenIds.getD i []).length) :
    ((keep i).map fun p => (hostTokenIds.getD i []).getD p 0) = hostTokenIds.getD i [] := by
  rw [hkeep]
  exact map_range_getD _ 0

theorem compactedIds_zero : compactedIds hostTokenIds keep 0 = hostTokenIds := by
  unfold compactedIds
  exact map_range_getD hostTokenIds []

theorem compactedIds_idle (hkeep : keep i = List.range (hostTokenIds.getD i []).length) :
    compactedIds hostTokenIds keep (i + 1) = compactedIds hostTokenIds keep i := by
  unfold compactedIds
  apply List.map_congr_left
  intro j _
  by_cases heq : j = i
  · rw [heq, if_pos (Nat.lt_succ_self i), if_neg (Nat.lt_irrefl i), map_eq_self_of_range hkeep]
  · by_cases hlt : j < i
    · rw [if_pos hlt, if_pos (Nat.lt_succ_of_lt hlt)]
    · rw [if_neg hlt, if_neg (by omega)]

theorem compactedIds_succ : (compactedIds hostTokenIds keep i).set i
        ((keep i).map fun p => (hostTokenIds.getD i []).getD p 0) =
      compactedIds hostTokenIds keep (i + 1) := by
  unfold compactedIds
  apply set_map_range
  · exact if_pos (Nat.lt_succ_self i)
  · intro j _ hj
    by_cases hlt : j < i
    · rw [if_pos hlt, if_pos (Nat.lt_succ_of_lt hlt)]
    · rw [if_neg hlt, if_neg (by omega)]

/-- The ordinals are among those of all visual tokens. -/
theorem KeepsSlots.keptOrdinals_sublist (h : KeepsSlots hostTokenIds keep prunedTokens batch)
    {n : Nat} (hn : n ≤ batch) : (keptOrdinals imageTokenId hostTokenIds keep n).Sublist
      (List.range (blockStart (slotVisuals imageTokenId hostTokenIds) n)) := by
  induction n with
  | zero => exact List.nil_sublist _
  | succ n ih =>
    rw [← flatMap_range_blocks] at ih ⊢
    unfold keptOrdinals at ih ⊢
    rw [flatMap_range_succ, flatMap_range_succ]
    apply (ih (Nat.le_of_succ_le hn)).append
    unfold slotVisuals
    rw [← map_ordinalBefore, List.map_map]
    exact ((h.sublist hn).filter _).map _

end Slots

section Pass

variable {config : Config} {hostTokenIds : List (List Int)} {keep : Nat → List Nat}
  {prunedTokens : List Nat} {batch : Nat}

/-- The pass over the slots, before slot `i`. -/
def passedSlots (config : Config) (hostTokenIds : List (List Int)) (keep : Nat → List Nat)
    (i : Nat) : AuxiliaryPass where
  hostTokenIds := compactedIds hostTokenIds keep i
  featureKeep := keptOrdinals config.imageTokenId hostTokenIds keep i
  slotBase := blockStart (slotVisuals config.imageTokenId hostTokenIds) i

theorem compactSlot_passed (h : KeepsSlots hostTokenIds keep prunedTokens batch) {i : Nat}
    (hi : i < batch) :
    (passedSlots config hostTokenIds keep i).compactSlot config keep prunedTokens i =
      .ok (passedSlots config hostTokenIds keep (i + 1)) := by
  have hlt : i < hostTokenIds.length := Nat.lt_of_lt_of_le hi h.batch_le
  have hids : (compactedIds hostTokenIds keep i).getD i [] = hostTokenIds.getD i [] := by
    unfold compactedIds
    rw [getD_map_range hlt, if_neg (Nat.lt_irrefl i)]
  have hfeatures : keptOrdinals config.imageTokenId hostTokenIds keep (i + 1) =
      keptOrdinals config.imageTokenId hostTokenIds keep i ++
        ((keep i).filter (isVisual config.imageTokenId (hostTokenIds.getD i []))).map fun p =>
          blockStart (slotVisuals config.imageTokenId hostTokenIds) i +
            ordinalBefore config.imageTokenId (hostTokenIds.getD i []) p := flatMap_range_succ
  unfold AuxiliaryPass.compactSlot passedSlots
  dsimp only
  rw [hids, hfeatures, blockStart_succ]
  by_cases hpruned : prunedTokens.getD i 0 = 0
  · have hall := h.eq_range hi hpruned
    rw [if_pos hpruned, compactedIds_idle hall, hall, countP_eq_ordinalBefore,
      ← map_ordinalBefore, List.map_map]
    rfl
  · rw [if_neg hpruned, check_bind_eq_ok, requireThat_eq_ok]
    have hcount := h.pruned i hi
    have hle := h.length_le hi
    refine ⟨by omega, ?_⟩
    obtain ⟨hmoved, hordinal, hordinals⟩ := @visit_all config.imageTokenId
      (hostTokenIds.getD i []) (blockStart (slotVisuals config.imageTokenId hostTokenIds) i)
      (keptOrdinals config.imageTokenId hostTokenIds keep i) _ (h.ascending i hi) (h.lt i hi)
    rw [hmoved, hordinal, hordinals, compactedIds_succ]
    rfl

theorem foldlM_passed (h : KeepsSlots hostTokenIds keep prunedTokens batch) :
    (List.range batch).foldlM (AuxiliaryPass.compactSlot config keep prunedTokens)
        ⟨hostTokenIds, [], 0⟩ = .ok (passedSlots config hostTokenIds keep batch) := by
  have hloop := foldlM_range_eq_ok (passedSlots config hostTokenIds keep)
    fun i hi => @compactSlot_passed config _ _ _ _ h i hi
  have hstart : passedSlots config hostTokenIds keep 0 = ⟨hostTokenIds, [], 0⟩ := by
    unfold passedSlots
    rw [compactedIds_zero]
    rfl
  rw [hstart] at hloop
  exact hloop

theorem map_some_filterMap {γ : Type} {rows : List γ} {ordinals : List Nat}
    (h : ∀ o ∈ ordinals, o < rows.length) :
    (ordinals.filterMap fun o => rows[o]?).map some = ordinals.map fun o => rows[o]? := by
  induction ordinals with
  | nil => rfl
  | cons o ordinals ih =>
    have ho := h o List.mem_cons_self
    have hread : rows[o]? = some rows[o] := List.getElem?_eq_getElem ho
    rw [List.filterMap_cons_some hread, List.map_cons, List.map_cons, hread,
      ih fun o' ho' => h o' (List.mem_cons_of_mem o ho')]

theorem map_some_eq {γ : Type} (rows : List γ) :
    rows.map some = (List.range rows.length).map fun o => rows[o]? := by
  apply List.ext_getElem
  · rw [List.length_map, List.length_map, List.length_range]
  · intro o ho _
    rw [List.length_map] at ho
    rw [List.getElem_map, List.getElem_map, List.getElem_range, List.getElem?_eq_getElem ho]

/-- The feature rows are those of the ordinals. -/
def ServesOrdinals {γ : Type} (ordinals : List Nat) (old new : Option (List γ)) : Prop :=
  Option.Rel (fun rows rows' => rows'.map some = ordinals.map fun o : Nat => rows[o]?) old new

/-- The ids and the features are those of the kept tokens. -/
theorem compactAuxiliaryInputs_spec {γ : Type} {state : PrunerState} {visualFeatures : Option (List γ)}
    {result : List (List Int) × Option (List γ)}
    (h : KeepsSlots hostTokenIds state.slotKeepLists prunedTokens batch)
    (hfeatures : ∀ rows ∈ visualFeatures,
      rows.length = blockStart (slotVisuals config.imageTokenId hostTokenIds) batch)
    (hcompact : compactAuxiliaryInputs config state hostTokenIds batch prunedTokens
      visualFeatures = .ok result) :
    result.1 = compactedIds hostTokenIds state.slotKeepLists batch ∧
      ServesOrdinals (keptOrdinals config.imageTokenId hostTokenIds state.slotKeepLists batch)
        visualFeatures result.2 := by
  -- Where every visual token is kept, the features stay.
  have hall : keptOrdinals config.imageTokenId hostTokenIds state.slotKeepLists batch =
      List.range (blockStart (slotVisuals config.imageTokenId hostTokenIds) batch) →
      ServesOrdinals (keptOrdinals config.imageTokenId hostTokenIds state.slotKeepLists batch)
        visualFeatures visualFeatures := by
    intro heq
    cases hrows : visualFeatures with
    | none => exact Option.Rel.none
    | some rows =>
      apply Option.Rel.some
      rw [heq, ← hfeatures rows hrows]
      exact map_some_eq rows
  unfold compactAuxiliaryInputs at hcompact
  rw [check_bind_eq_ok] at hcompact
  replace hcompact := hcompact.2
  by_cases hnone : ∀ n ∈ prunedTokens.take batch, n = 0
  · rw [if_pos hnone] at hcompact
    cases hcompact
    have hzero : ∀ i < batch, state.slotKeepLists i =
        List.range (hostTokenIds.getD i []).length := by
      intro i hi
      apply h.eq_range hi
      have hlt : i < prunedTokens.length := by rwa [h.length_eq]
      rw [List.getD_eq_getElem _ _ hlt]
      apply hnone
      rw [List.take_of_length_le (Nat.le_of_eq h.length_eq)]
      exact List.getElem_mem hlt
    constructor
    · have hidle : ∀ n ≤ batch, compactedIds hostTokenIds state.slotKeepLists n = hostTokenIds := by
        intro n hn
        induction n with
        | zero => exact compactedIds_zero
        | succ n ih => rw [compactedIds_idle (hzero n hn), ih (Nat.le_of_succ_le hn)]
      exact (hidle batch (Nat.le_refl batch)).symm
    · apply hall
      rw [← flatMap_range_blocks]
      unfold keptOrdinals
      apply List.flatMap_congr
      intro i hi
      unfold slotVisuals
      rw [hzero i (List.mem_range.1 hi), ← map_ordinalBefore, List.map_map]
      rfl
  · rw [if_neg hnone, foldlM_passed h, bind_eq_ok] at hcompact
    obtain ⟨pass, hpass, hcompact⟩ := hcompact
    cases hpass
    have hsublist := @KeepsSlots.keptOrdinals_sublist config.imageTokenId _ _ _ _ h _
      (Nat.le_refl batch)
    by_cases hkept : (passedSlots config hostTokenIds state.slotKeepLists batch).featureKeep.length =
        (passedSlots config hostTokenIds state.slotKeepLists batch).slotBase
    · rw [if_pos hkept] at hcompact
      cases hcompact
      refine ⟨rfl, hall ?_⟩
      apply hsublist.eq_of_length
      rw [List.length_range]
      exact hkept
    · rw [if_neg hkept, bind_eq_ok] at hcompact
      obtain ⟨features, hgather, hcompact⟩ := hcompact
      cases hcompact
      refine ⟨rfl, ?_⟩
      cases hrows : visualFeatures with
      | none =>
        rw [hrows] at hgather
        cases hgather
        exact Option.Rel.none
      | some rows =>
        rw [hrows, Option.mapM_some, map_eq_pure_bind, bind_eq_ok] at hgather
        obtain ⟨rows', hrows', hpure⟩ := hgather
        cases hpure
        unfold compactFeatures at hrows'
        rw [check_bind_eq_ok, requireThat_eq_ok] at hrows'
        obtain ⟨hlength, hpure⟩ := hrows'
        cases hpure
        apply Option.Rel.some
        apply map_some_filterMap
        intro o ho
        rw [hlength]
        exact List.mem_range.1 (hsublist.subset ho)

end Pass

end EdgeLLM.Ports.VisualPruner
