import EdgeLLM.Ports.VisualPruner
import Mathlib.Data.List.Perm.Basic

/-!
# What a pruning request promises

The spans of a request lie one after the other, cover the visual positions and
can fill their quotas; positions that serve every span are distinct and as many
as the target.  `compactToKeepList` accepts exactly the distinct visual
positions within the target, and records an ascending keep list.
-/

namespace EdgeLLM.Ports.VisualPruner

open Verified

/-! ## The two kinds of positions -/

section Positions

variable {config : Config} {hostTokenIds : List Int}

theorem pairwise_imagePositions : (imagePositions config hostTokenIds).Pairwise (· < ·) :=
  List.pairwise_lt_range.filter _

theorem pairwise_textPositions : (textPositions config hostTokenIds).Pairwise (· < ·) :=
  List.pairwise_lt_range.filter _

theorem mem_imagePositions {k : Nat} : k ∈ imagePositions config hostTokenIds ↔
    k < hostTokenIds.length ∧ hostTokenIds.getD k 0 = config.imageTokenId := by
  unfold imagePositions
  rw [List.mem_filter, List.mem_range, decide_eq_true_iff]

theorem mem_textPositions {k : Nat} : k ∈ textPositions config hostTokenIds ↔
    k < hostTokenIds.length ∧ hostTokenIds.getD k 0 ≠ config.imageTokenId := by
  unfold textPositions
  rw [List.mem_filter, List.mem_range, decide_eq_true_iff]

theorem length_positions : (imagePositions config hostTokenIds).length +
    (textPositions config hostTokenIds).length = hostTokenIds.length := by
  have htotal := List.length_eq_length_filter_add (l := List.range hostTokenIds.length)
    fun i => decide (hostTokenIds.getD i 0 = config.imageTokenId)
  rw [List.length_range] at htotal
  unfold imagePositions textPositions
  simpa only [ne_eq, decide_not] using htotal.symm

theorem pruneRequest_eq_some {req : PruneRequest}
    (h : pruneRequest config hostTokenIds = some req) :
    req.imagePositions = imagePositions config hostTokenIds ∧
      req.textPositions = textPositions config hostTokenIds ∧
      req.imageSpans = imageSpans config req.imagePositions ∧
      req.targetImageTokens = (req.imageSpans.map fun span => span.targetTokens).sum ∧
      req.targetImageTokens < req.imagePositions.length ∧ req.origLen = hostTokenIds.length := by
  unfold pruneRequest at h
  dsimp only at h
  split at h
  · cases h
  · split at h
    · cases h
    · rename_i hmore
      cases h
      exact ⟨rfl, rfl, rfl, rfl, Nat.lt_of_not_le hmore, rfl⟩

end Positions

/-! ## Spans -/

/-- A span whose quota it can fill. -/
structure ImageSpan.Fillable (span : ImageSpan) : Prop where
  quota_pos : 0 < span.targetTokens
  quota_le : span.targetTokens ≤ span.stop - span.begin

/-- The position lies in the span. -/
def ImageSpan.Holds (span : ImageSpan) (p : Nat) : Prop := span.begin ≤ p ∧ p < span.stop

instance (span : ImageSpan) : DecidablePred span.Holds :=
  fun _ => inferInstanceAs (Decidable (_ ∧ _))

/-- The positions retain the quota of the span. -/
structure ImageSpan.Served (span : ImageSpan) (kept : List Nat) : Prop where
  nodup : kept.Nodup
  length : kept.length = span.targetTokens
  inside : ∀ p ∈ kept, span.Holds p

section Spans

variable {config : Config} {positions : List Nat}

theorem spanTarget_pos (spanLen : Nat) : 0 < spanTarget config spanLen := by
  unfold spanTarget
  omega

theorem spanTarget_le {spanLen : Nat} (h : 0 < spanLen) : spanTarget config spanLen ≤ spanLen := by
  unfold spanTarget
  omega

theorem fillable_of_mem_imageSpans (h : positions.Pairwise (· < ·)) {span : ImageSpan}
    (hspan : span ∈ imageSpans config positions) : span.Fillable := by
  obtain ⟨run, hrun, rfl⟩ := List.mem_map.1 hspan
  have hlt := lt_of_mem_coalesce h hrun
  exact ⟨spanTarget_pos _, spanTarget_le (Nat.sub_pos_of_lt hlt)⟩

theorem imageSpans_pairwise (h : positions.Pairwise (· < ·)) :
    (imageSpans config positions).Pairwise fun a b => a.stop ≤ b.begin :=
  List.pairwise_map.2 (coalesce_pairwise h)

theorem mem_imageSpans {k : Nat} :
    (∃ span ∈ imageSpans config positions, span.Holds k) ↔ k ∈ positions := by
  rw [← mem_coalesce positions]
  unfold imageSpans
  constructor
  · intro h
    obtain ⟨span, hspan, hholds⟩ := h
    obtain ⟨run, hrun, rfl⟩ := List.mem_map.1 hspan
    exact ⟨run, hrun, hholds⟩
  · intro h
    obtain ⟨run, hrun, hinside⟩ := h
    exact ⟨_, List.mem_map.2 ⟨run, hrun, rfl⟩, hinside⟩

/-- The positions that serve spans one after the other. -/
theorem served_flatten {spans : List ImageSpan} {kept : List (List Nat)}
    (h : List.Forall₂ ImageSpan.Served spans kept)
    (hspans : spans.Pairwise fun a b => a.stop ≤ b.begin) :
    kept.flatten.Nodup ∧ (∀ p ∈ kept.flatten, ∃ span ∈ spans, span.Holds p) ∧
      kept.flatten.length = (spans.map fun span => span.targetTokens).sum ∧ ∀ span ∈ spans,
        (kept.flatten.filter fun p => span.Holds p).length = span.targetTokens := by
  induction h with
  | nil =>
    refine ⟨List.nodup_nil, ?_, rfl, ?_⟩
    · intro p hp
      cases hp
    · intro span hspan
      cases hspan
  | @cons span block spans kept hserved _ ih =>
    rw [List.pairwise_cons] at hspans
    obtain ⟨hnodup, hinside, hlength, hquotas⟩ := ih hspans.2
    -- What serves the later spans lies behind this one.
    have hbehind : ∀ p ∈ kept.flatten, span.stop ≤ p := by
      intro p hp
      obtain ⟨later, hlater, hholds⟩ := hinside p hp
      exact (hspans.1 later hlater).trans hholds.1
    rw [List.flatten_cons]
    refine ⟨?_, ?_, ?_, ?_⟩
    · apply hserved.nodup.append hnodup
      intro p hp hmem
      have hstop := (hserved.inside p hp).2
      have hlate := hbehind p hmem
      omega
    · intro p hp
      rcases List.mem_append.1 hp with hblock | hrest
      · exact ⟨span, List.mem_cons_self, hserved.inside p hblock⟩
      · obtain ⟨later, hlater, hholds⟩ := hinside p hrest
        exact ⟨later, List.mem_cons_of_mem span hlater, hholds⟩
    · rw [List.length_append, hserved.length, hlength, List.map_cons, List.sum_cons]
    · intro other hother
      rw [List.filter_append, List.length_append]
      rcases List.mem_cons.1 hother with heq | hlater
      · subst heq
        have hall : block.filter (fun p => decide (other.Holds p)) = block :=
          List.filter_eq_self.2 fun p hp => decide_eq_true (hserved.inside p hp)
        have hnone : kept.flatten.filter (fun p => decide (other.Holds p)) = [] := by
          rw [List.filter_eq_nil_iff]
          intro p hp hholds
          have hlate := hbehind p hp
          have hstop := (of_decide_eq_true hholds).2
          omega
        rw [hall, hnone, hserved.length]
        rfl
      · have hnone : block.filter (fun p => decide (other.Holds p)) = [] := by
          rw [List.filter_eq_nil_iff]
          intro p hp hholds
          have hstop := (hserved.inside p hp).2
          have hbegin := (of_decide_eq_true hholds).1
          have hlate := hspans.1 other hlater
          omega
        rw [hnone, hquotas other hlater]
        exact Nat.zero_add _

end Spans

/-! ## Keep lists -/

variable {retained : List Int} {req : PruneRequest}

/-- The retained positions pass when they are distinct and marked. -/
theorem validateRetained_eq_ok {origLen : Nat} {isRetainable : Nat → Bool} :
    validateRetained origLen isRetainable retained = .ok () ↔ retained.Nodup ∧ ∀ idx ∈ retained,
        0 ≤ idx ∧ idx < origLen ∧ isRetainable idx.toNat = true := by
  induction retained generalizing isRetainable with
  | nil => exact ⟨fun _ => ⟨List.nodup_nil, fun idx hidx => absurd hidx List.not_mem_nil⟩,
      fun _ => rfl⟩
  | cons idx rest ih =>
    unfold validateRetained
    rw [check_bind_eq_ok, requireThat_eq_ok, ih, List.nodup_cons, List.forall_mem_cons]
    constructor
    · intro h
      obtain ⟨hidx, hnodup, hrest⟩ := h
      refine ⟨⟨?_, hnodup⟩, hidx, ?_⟩
      · intro hmem
        have hmark := (hrest idx hmem).2.2
        rw [Function.update_self] at hmark
        cases hmark
      · intro other hother
        obtain ⟨hpos, hlt, hmark⟩ := hrest other hother
        refine ⟨hpos, hlt, ?_⟩
        by_cases heq : other.toNat = idx.toNat
        · rw [heq, Function.update_self] at hmark
          cases hmark
        · rwa [Function.update_of_ne heq] at hmark
    · intro h
      obtain ⟨⟨hfresh, hnodup⟩, hidx, hrest⟩ := h
      refine ⟨hidx, hnodup, ?_⟩
      intro other hother
      obtain ⟨hpos, hlt, hmark⟩ := hrest other hother
      refine ⟨hpos, hlt, ?_⟩
      have hne : other.toNat ≠ idx.toNat := by
        intro heq
        have hsame : other = idx := by omega
        rw [hsame] at hother
        exact hfresh hother
      rw [Function.update_of_ne hne]
      exact hmark

/-- What may be retained of a request. -/
structure Retainable (req : PruneRequest) (retained : List Int) : Prop where
  nonempty : retained ≠ []
  length_le : retained.length ≤ req.targetImageTokens
  nodup : retained.Nodup
  visual : ∀ idx ∈ retained, 0 ≤ idx ∧ idx < req.origLen ∧ idx.toNat ∈ req.imagePositions

/-- The text positions and the retained ones, ascending. -/
def keepIndices (req : PruneRequest) (retained : List Int) : List Nat :=
  (req.textPositions ++ retained.map Int.toNat).insertionSort (· ≤ ·)

theorem length_keepIndices :
    (keepIndices req retained).length = req.textPositions.length + retained.length := by
  unfold keepIndices
  rw [List.length_insertionSort, List.length_append, List.length_map]

theorem compactToKeepList_eq_ok {keep : Option (List Nat)} :
    compactToKeepList retained req = .ok keep ↔ Retainable req retained ∧
      keep = if req.origLen ≤ (keepIndices req retained).length then none
        else some (keepIndices req retained) := by
  unfold compactToKeepList
  simp only [check_bind_eq_ok, requireThat_eq_ok, validateRetained_eq_ok]
  have hresult : ((if req.origLen ≤ ((req.textPositions ++
        retained.map Int.toNat).insertionSort (· ≤ ·)).length then pure none
      else pure (some ((req.textPositions ++ retained.map Int.toNat).insertionSort (· ≤ ·))) :
        Except String (Option (List Nat))) = .ok keep) ↔
      keep = if req.origLen ≤ (keepIndices req retained).length then none
        else some (keepIndices req retained) := by
    unfold keepIndices
    split
    · exact ⟨fun h => (Except.ok.inj h).symm, fun h => congrArg Except.ok h.symm⟩
    · exact ⟨fun h => (Except.ok.inj h).symm, fun h => congrArg Except.ok h.symm⟩
  rw [hresult, List.isEmpty_eq_false_iff]
  constructor
  · intro h
    obtain ⟨⟨hsome, hle⟩, ⟨hnodup, hvisual⟩, hkeep⟩ := h
    refine ⟨⟨hsome, hle, hnodup, ?_⟩, hkeep⟩
    intro idx hidx
    obtain ⟨hpos, hlt, hmem⟩ := hvisual idx hidx
    exact ⟨hpos, hlt, List.contains_iff_mem.1 hmem⟩
  · intro h
    obtain ⟨hretained, hkeep⟩ := h
    refine ⟨⟨hretained.nonempty, hretained.length_le⟩, ⟨hretained.nodup, ?_⟩, hkeep⟩
    intro idx hidx
    obtain ⟨hpos, hlt, hmem⟩ := hretained.visual idx hidx
    exact ⟨hpos, hlt, List.contains_iff_mem.2 hmem⟩

/-- Visual positions within the target are no rejected set and no full one. -/
theorem compactToKeepList_of_pruneRequest {config : Config} {hostTokenIds : List Int}
    (hreq : pruneRequest config hostTokenIds = some req) {retained : List Nat}
    (hnodup : retained.Nodup) (hnonempty : retained ≠ [])
    (hle : retained.length ≤ req.targetImageTokens)
    (hvisual : ∀ p ∈ retained, p ∈ req.imagePositions) :
    compactToKeepList (retained.map fun pos : Nat => (pos : Int)) req =
      .ok (some (keepIndices req (retained.map fun pos : Nat => (pos : Int)))) := by
  obtain ⟨himage, htext, -, -, hmore, horig⟩ := pruneRequest_eq_some hreq
  have htotal := @length_positions config hostTokenIds
  rw [← himage, ← htext, ← horig] at htotal
  rw [compactToKeepList_eq_ok]
  refine ⟨⟨?_, ?_, hnodup.map fun a b hab => Int.ofNat.inj hab, ?_⟩, ?_⟩
  · intro hnil
    exact hnonempty (List.map_eq_nil_iff.1 hnil)
  · rw [List.length_map]
    exact hle
  · intro idx hidx
    obtain ⟨p, hp, rfl⟩ := List.mem_map.1 hidx
    have hmem := hvisual p hp
    have hlt := (mem_imagePositions.1 (himage ▸ hmem)).1
    rw [← horig] at hlt
    exact ⟨Int.natCast_nonneg p, Int.ofNat_lt.2 hlt, hmem⟩
  · rw [if_neg]
    rw [length_keepIndices, List.length_map]
    omega

end EdgeLLM.Ports.VisualPruner
