import EdgeLLM.Ports.DartPruner
import EdgeLLM.Ports.VisualSelection

/-!
# No image is starved

The greedy growth of a span ends with exactly its quota: while it runs, the
retained positions and the candidates together are the span, so the candidates
suffice for what is missing, and the last pivot takes all of it.  The chunk
loop stages every span's pivots where the growth of that span reads them.
-/

namespace EdgeLLM.Ports.VisualPruner

open Verified

section Selection

variable {F : Type} [LinearOrder F]

/-! ## The best of a list -/

section TopByScore

variable {positions : List Nat} {scores : Nat → F} {count : Nat}

theorem mem_of_mem_topByScore {p : Nat} (h : p ∈ topByScore positions scores count) :
    p ∈ positions := by
  unfold topByScore at h
  exact (List.mem_insertionSort _).1 (List.mem_of_mem_take h)

theorem nodup_topByScore (h : positions.Nodup) : (topByScore positions scores count).Nodup := by
  unfold topByScore
  exact (List.take_sublist _ _).nodup ((List.perm_insertionSort _ _).nodup_iff.2 h)

theorem length_topByScore :
    (topByScore positions scores count).length = min count positions.length := by
  unfold topByScore
  rw [List.length_take, List.length_insertionSort]

/-- What is left after taking some of the distinct elements of a list. -/
theorem length_filter_not_contains {positions chosen : List Nat} (hpositions : positions.Nodup)
    (hchosen : chosen.Nodup) (hsub : ∀ p ∈ chosen, p ∈ positions) :
    (positions.filter fun p => !chosen.contains p).length + chosen.length = positions.length := by
  have hperm : (positions.filter fun p => chosen.contains p).Perm chosen := by
    rw [List.perm_ext_iff_of_nodup (hpositions.filter _) hchosen]
    intro p
    rw [List.mem_filter, List.contains_iff_mem]
    exact ⟨fun hp => hp.2, fun hp => ⟨hsub p hp, hp⟩⟩
  have htotal := List.length_eq_length_filter_add (l := positions) fun p => chosen.contains p
  rw [htotal, hperm.length_eq]
  omega

theorem disjoint_filter_not_contains {positions chosen : List Nat} :
    chosen.Disjoint (positions.filter fun p => !chosen.contains p) := by
  intro p hp hmem
  rw [List.mem_filter] at hmem
  simp [hp] at hmem

end TopByScore

/-- The growth ends with distinct positions, as many as the quota. -/
theorem growWith_spec (arithmetic : Arithmetic F) (scores : Scores F) {target : Nat}
    {pivots retained candidates : List Nat} (hretained : retained.Nodup)
    (hcandidates : candidates.Nodup) (hdisjoint : retained.Disjoint candidates)
    (hle : retained.length ≤ target) (henough : target ≤ retained.length + candidates.length)
    (hpivots : pivots = [] → retained.length = target) :
    (growWith arithmetic scores target pivots retained candidates).Nodup ∧
      (growWith arithmetic scores target pivots retained candidates).length = target ∧
      ∀ p ∈ growWith arithmetic scores target pivots retained candidates,
        p ∈ retained ∨ p ∈ candidates := by
  induction pivots generalizing retained candidates with
  | nil => exact ⟨hretained, hpivots rfl, fun _ hp => .inl hp⟩
  | cons pivot rest ih =>
    unfold growWith
    dsimp only
    by_cases hstop : target - retained.length = 0 ∨ candidates.isEmpty = true
    · rw [if_pos hstop]
      refine ⟨hretained, ?_, fun _ hp => .inl hp⟩
      rcases hstop with hzero | hempty
      · omega
      · rw [List.isEmpty_iff] at hempty
        rw [hempty, List.length_nil] at henough
        omega
    · rw [if_neg hstop]
      have hremaining : target - retained.length ≠ 0 := fun hzero => hstop (.inl hzero)
      generalize hper : (target - retained.length + (rest.length + 1) - 1) / (rest.length + 1) =
        perPivot
      have hchosen := @length_topByScore F _ candidates (simScore arithmetic scores pivot) perPivot
      have hsub : ∀ p ∈ topByScore candidates (simScore arithmetic scores pivot) perPivot,
          p ∈ candidates := fun _ hp => mem_of_mem_topByScore hp
      have hnodup := @nodup_topByScore F _ candidates (simScore arithmetic scores pivot) perPivot
        hcandidates
      generalize topByScore candidates (simScore arithmetic scores pivot) perPivot = chosen at *
      -- The quota of a pivot is no more than what is missing, and all of it at the last.
      have hperLe : perPivot ≤ target - retained.length := by
        rw [← hper]
        apply Nat.div_le_of_le_mul
        have hmul : target - retained.length + (rest.length + 1) - 1 ≤
            (rest.length + 1) * (target - retained.length) := by
          have hone : 1 ≤ target - retained.length := Nat.one_le_iff_ne_zero.2 hremaining
          rw [Nat.succ_mul]
          have hrest : rest.length * 1 ≤ rest.length * (target - retained.length) :=
            Nat.mul_le_mul_left _ hone
          omega
        exact hmul
      have hlast : rest = [] → perPivot = target - retained.length := by
        intro hnil
        rw [← hper, hnil, List.length_nil, Nat.zero_add, Nat.div_one, Nat.add_sub_cancel]
      have hleft := length_filter_not_contains hcandidates hnodup hsub
      have hretained' : (retained ++ chosen).Nodup :=
        hretained.append hnodup fun p hp hmem => hdisjoint hp (hsub p hmem)
      have hdisjoint' : (retained ++ chosen).Disjoint
          (candidates.filter fun c => !chosen.contains c) := by
        rw [List.disjoint_append_left]
        exact ⟨fun p hp hmem => hdisjoint hp (List.mem_of_mem_filter hmem),
          disjoint_filter_not_contains⟩
      have hlength : (retained ++ chosen).length = retained.length + chosen.length :=
        List.length_append
      obtain ⟨hfinal, hcount, hinside⟩ := ih hretained' (hcandidates.filter _) hdisjoint'
        (by omega) (by omega) (by
          intro hnil
          have hall := hlast hnil
          omega)
      refine ⟨hfinal, hcount, ?_⟩
      intro p hp
      rcases hinside p hp with hmem | hmem
      · cases List.mem_append.1 hmem with
        | inl hold => exact .inl hold
        | inr hnew => exact .inr (hsub p hnew)
      · exact .inr (List.mem_of_mem_filter hmem)

/-! ## Chunks -/

/-- The buffer holds the pivots where the growth of each span reads them. -/
structure Chunk.Reads (chunk : Chunk) : Prop where
  offsets : chunk.members.length = chunk.spanPivotOffsets.length
  pivots : ∀ m ∈ chunk.members.zip chunk.spanPivotOffsets, ∀ i < m.1.pivots.length,
    chunk.pivotHost[m.2 + i]? = m.1.pivots[i]?

theorem getElem?_append_of_eq {pivotHost more pivots : List Nat} {offset i : Nat}
    (hi : i < pivots.length) (h : pivotHost[offset + i]? = pivots[i]?) :
    (pivotHost ++ more)[offset + i]? = pivots[i]? := by
  rw [List.getElem?_eq_getElem hi] at h ⊢
  rw [List.getElem?_append_left (List.getElem?_eq_some_iff.1 h).1, h]

theorem Chunk.Reads.push {chunk : Chunk} (h : chunk.Reads) (member : SpanPivots) :
    Chunk.Reads
      { chunk with
        members := chunk.members ++ [member]
        spanPivotOffsets := chunk.spanPivotOffsets ++ [chunk.pivotHost.length]
        pivotHost := chunk.pivotHost ++ member.pivots } where
  offsets := by
    rw [List.length_append, List.length_append, h.offsets]
    rfl
  pivots := by
    intro m hm i hi
    rw [List.zip_append h.offsets] at hm
    rcases List.mem_append.1 hm with hold | hnew
    · exact getElem?_append_of_eq hi (h.pivots m hold i hi)
    · cases List.mem_singleton.1 hnew
      dsimp only
      rw [List.getElem?_append_right (Nat.le_add_right _ _), Nat.add_sub_cancel_left]

theorem Chunk.Reads.close {chunk : Chunk} (h : chunk.Reads) (text : List Nat) :
    (chunk.close text).Reads where
  offsets := h.offsets
  pivots := fun m hm i hi => getElem?_append_of_eq hi (h.pivots m hm i hi)

/-- A chunk takes at least one span, and only what fits. -/
theorem packChunk_spec {textCount : Nat} {chunk : Chunk} {spans : List SpanPivots}
    (hreads : chunk.Reads) (hfits : chunk.pivotHost.length + textCount ≤ dartMaxPivots)
    (hsmall : ∀ m ∈ spans, m.pivots.length + textCount ≤ dartMaxPivots)
    (hempty : chunk.members = [] → chunk.pivotHost = []) :
    (packChunk textCount chunk spans).1.Reads ∧
      (packChunk textCount chunk spans).1.pivotHost.length + textCount ≤ dartMaxPivots ∧
      (packChunk textCount chunk spans).1.members ++ (packChunk textCount chunk spans).2 =
        chunk.members ++ spans ∧ (packChunk textCount chunk spans).2.length ≤ spans.length ∧
      (chunk.members = [] → spans ≠ [] →
        (packChunk textCount chunk spans).2.length < spans.length) := by
  induction spans generalizing chunk with
  | nil =>
    exact ⟨hreads, hfits, rfl, Nat.le_refl 0, fun _ hne => absurd rfl hne⟩
  | cons member rest ih =>
    unfold packChunk
    by_cases hfull : dartMaxPivots < chunk.pivotHost.length + member.pivots.length + textCount ∧
        chunk.members.isEmpty = false
    · rw [if_pos hfull]
      refine ⟨hreads, hfits, rfl, Nat.le_refl _, ?_⟩
      intro hnil
      rw [hnil] at hfull
      cases hfull.2
    · rw [if_neg hfull]
      have hpacked : (chunk.pivotHost ++ member.pivots).length + textCount ≤ dartMaxPivots := by
        rw [List.length_append]
        cases hmembers : chunk.members with
        | nil =>
          have hmember := hsmall member List.mem_cons_self
          rw [hempty hmembers, List.length_nil, Nat.zero_add]
          exact hmember
        | cons first others =>
          rw [hmembers, List.isEmpty_cons] at hfull
          by_contra hover
          exact hfull ⟨by omega, rfl⟩
      obtain ⟨hreads', hfits', hmembers, hlength, -⟩ :=
        ih (hreads.push member) hpacked (fun m hm => hsmall m (List.mem_cons_of_mem member hm))
          fun hnil => by
            dsimp only at hnil
            exact absurd hnil (by simp)
      refine ⟨hreads', hfits', ?_, ?_, ?_⟩
      · rw [hmembers, List.append_assoc]
        rfl
      · rw [List.length_cons]
        exact Nat.le_succ_of_le hlength
      · intro _ _
        rw [List.length_cons]
        exact Nat.lt_succ_of_le hlength

/-- A closed chunk: its pivots and the text pivots are staged within the buffer. -/
structure Chunk.Staged (text : List Nat) (chunk : Chunk) : Prop where
  reads : chunk.Reads
  reads_text : ∀ i < text.length, chunk.pivotHost[chunk.textOffset + i]? = text[i]?
  length_le : chunk.pivotHost.length ≤ dartMaxPivots
  nonempty : chunk.members ≠ []

/-- The chunk loop ends, with every span in one chunk. -/
theorem packChunks_spec {text : List Nat} (htext : text.length ≤ dartMaxPivots) {turns : Nat}
    {spans : List SpanPivots} (hturns : spans.length ≤ turns)
    (hsmall : ∀ m ∈ spans, m.pivots.length + text.length ≤ dartMaxPivots) :
    ∃ chunks, packChunks text turns spans = some chunks ∧
      (chunks.flatMap fun chunk => chunk.members) = spans ∧
      ∀ chunk ∈ chunks, chunk.Staged text := by
  induction turns generalizing spans with
  | zero =>
    have hnil : spans = [] := List.eq_nil_of_length_eq_zero (Nat.le_zero.1 hturns)
    subst hnil
    refine ⟨[], rfl, rfl, ?_⟩
    intro chunk hchunk
    cases hchunk
  | succ turns ih =>
    cases spans with
    | nil =>
      refine ⟨[], rfl, rfl, ?_⟩
      intro chunk hchunk
      cases hchunk
    | cons member rest =>
      have hstart : Chunk.Reads ⟨[], [], [], 0⟩ := ⟨rfl, fun m hm => by cases hm⟩
      obtain ⟨hreads, hfits, hmembers, -, hprogress⟩ := @packChunk_spec text.length
        ⟨[], [], [], 0⟩ (member :: rest) hstart (by simpa using htext) hsmall fun _ => rfl
      have hfewer := hprogress rfl (List.cons_ne_nil member rest)
      rw [List.nil_append] at hmembers
      generalize hpacked : packChunk text.length ⟨[], [], [], 0⟩ (member :: rest) = packed at *
      have hsmall' : ∀ m ∈ packed.2, m.pivots.length + text.length ≤ dartMaxPivots := by
        intro m hm
        apply hsmall m
        rw [← hmembers]
        exact List.mem_append_right _ hm
      obtain ⟨chunks, hchunks, hflat, hstaged⟩ := ih (by
        rw [List.length_cons] at hturns hfewer
        omega) hsmall'
      refine ⟨packed.1.close text :: chunks, ?_, ?_, ?_⟩
      · unfold packChunks
        dsimp only
        rw [hpacked, hchunks]
        rfl
      · rw [List.flatMap_cons, hflat]
        exact hmembers
      · intro chunk hchunk
        cases List.mem_cons.1 hchunk with
        | inr hrest => exact hstaged chunk hrest
        | inl heq =>
          subst heq
          have hclosed : (packed.1.close text).pivotHost = packed.1.pivotHost ++ text := rfl
          refine ⟨hreads.close text, ?_, ?_, ?_⟩
          · intro i _
            show (packed.1.pivotHost ++ text)[packed.1.pivotHost.length + i]? = _
            rw [List.getElem?_append_right (Nat.le_add_right _ _), Nat.add_sub_cancel_left]
          · rw [hclosed, List.length_append]
            exact hfits
          · show packed.1.members ≠ []
            intro hnil
            rw [hnil, List.nil_append] at hmembers
            rw [hmembers] at hfewer
            exact Nat.lt_irrefl _ hfewer

section Growth

variable {dart : Dart} {arithmetic : Arithmetic F} {scores : Scores F} {span : ImageSpan}

theorem spanPivots_length_le : (spanPivots dart scores span).pivots.length ≤ span.targetTokens := by
  show (topByScore _ _ _).length ≤ _
  rw [length_topByScore]
  exact (Nat.min_le_left _ _).trans (Nat.min_le_right _ _)

theorem spanPivots_length_le_dart :
    (spanPivots dart scores span).pivots.length ≤ dart.pivotImageTokens := by
  show (topByScore _ _ _).length ≤ _
  rw [length_topByScore]
  exact (Nat.min_le_left _ _).trans (Nat.min_le_left _ _)

theorem spanPivots_length_pos (hspan : span.Fillable) (h : 0 < dart.pivotImageTokens) :
    0 < (spanPivots dart scores span).pivots.length := by
  show 0 < (topByScore _ _ _).length
  rw [length_topByScore, List.length_range']
  have hquota := hspan.quota_pos
  have hle := hspan.quota_le
  omega

/-- The growth from the pivots of a span serves it, if there is any pivot. -/
theorem growWith_served (hspan : span.Fillable) (text : List Nat)
    (hpivot : (spanPivots dart scores span).pivots ++ text ≠ []) :
    span.Served (growWith arithmetic scores span.targetTokens
      ((spanPivots dart scores span).pivots ++ text) (spanPivots dart scores span).pivots
      ((List.range' span.begin (span.stop - span.begin)).filter fun pos =>
        !(spanPivots dart scores span).pivots.contains pos)) := by
  have hrange : (List.range' span.begin (span.stop - span.begin)).Nodup := List.nodup_range'
  have hnodup : (spanPivots dart scores span).pivots.Nodup := nodup_topByScore hrange
  have hsub : ∀ p ∈ (spanPivots dart scores span).pivots,
      p ∈ List.range' span.begin (span.stop - span.begin) := fun _ hp => mem_of_mem_topByScore hp
  have hle := @spanPivots_length_le F _ dart scores span
  generalize (spanPivots dart scores span).pivots = pivots at *
  have hleft := length_filter_not_contains hrange hnodup hsub
  rw [List.length_range'] at hleft
  obtain ⟨hfinal, hcount, hinside⟩ := growWith_spec arithmetic scores hnodup (hrange.filter _)
    disjoint_filter_not_contains hle (by
      have hquota := hspan.quota_le
      omega) fun hnil => absurd hnil hpivot
  refine ⟨hfinal, hcount, ?_⟩
  intro p hp
  have hmem : p ∈ List.range' span.begin (span.stop - span.begin) := by
    rcases hinside p hp with hpivots | hcandidate
    · exact hsub p hpivots
    · exact List.mem_of_mem_filter hcandidate
  rw [List.mem_range'_1] at hmem
  exact ⟨hmem.1, by omega⟩

end Growth

/-! ## The growth of a chunk -/

theorem map_getD_eq {host pivots : List Nat} {offset : Nat}
    (h : ∀ i < pivots.length, host[offset + i]? = pivots[i]?) :
    ((List.range pivots.length).map fun i => host.getD (offset + i) 0) = pivots := by
  apply List.ext_getElem
  · rw [List.length_map, List.length_range]
  · intro i _ hi
    rw [List.getElem_map, List.getElem_range, List.getD_eq_getElem?_getD, h i hi,
      List.getElem?_eq_getElem hi]
    rfl

section Chunks

variable {dart : Dart} {arithmetic : Arithmetic F} {scores : Scores F} {text : List Nat}
  {chunk : Chunk}

/-- Each span grows from its own pivots and the text pivots. -/
theorem growSpanGreedily_eq (h : chunk.Staged text) {m : SpanPivots × Nat}
    (hm : m ∈ chunk.members.zip chunk.spanPivotOffsets) :
    growSpanGreedily arithmetic scores chunk m.1.span m.2 m.1.pivots.length text.length =
      growWith arithmetic scores m.1.span.targetTokens (m.1.pivots ++ text) m.1.pivots
        ((List.range' m.1.span.begin (m.1.span.stop - m.1.span.begin)).filter fun pos =>
          !m.1.pivots.contains pos) := by
  have hown := map_getD_eq (h.reads.pivots m hm)
  have htext := map_getD_eq h.reads_text
  unfold growSpanGreedily
  dsimp only
  rw [List.map_append, List.map_map, List.map_map]
  exact congrArg₂ (fun own shared => growWith arithmetic scores m.1.span.targetTokens
    (own ++ shared) own ((List.range' m.1.span.begin (m.1.span.stop - m.1.span.begin)).filter
      fun pos => !own.contains pos)) hown htext

theorem Chunk.Staged.length_pos (h : chunk.Staged text)
    (hpivot : ∀ m ∈ chunk.members, m.pivots ++ text ≠ []) : 0 < chunk.pivotHost.length := by
  obtain ⟨first, others, hmembers⟩ := List.exists_cons_of_ne_nil h.nonempty
  have hoffsets := h.reads.offsets
  rw [hmembers, List.length_cons] at hoffsets
  obtain ⟨offset, rest, hrest⟩ := List.exists_cons_of_length_eq_add_one hoffsets.symm
  cases htext : text with
  | cons t ts =>
    have hread := h.reads_text 0 (by rw [htext]; exact Nat.succ_pos _)
    rw [htext] at hread
    exact Nat.lt_of_le_of_lt (Nat.zero_le _) (List.getElem?_eq_some_iff.1 hread).1
  | nil =>
    have hpivots := hpivot first (by rw [hmembers]; exact List.mem_cons_self)
    rw [htext, List.append_nil] at hpivots
    obtain ⟨p, ps, hfirst⟩ := List.exists_cons_of_ne_nil hpivots
    have hread := h.reads.pivots (first, offset)
      (by rw [hmembers, hrest]; exact List.mem_cons_self) 0 (by
        rw [hfirst]
        exact Nat.succ_pos _)
    dsimp only at hread
    rw [hfirst] at hread
    exact Nat.lt_of_le_of_lt (Nat.zero_le _) (List.getElem?_eq_some_iff.1 hread).1

/-- A chunk serves its spans, one block of positions for each. -/
theorem growChunk_spec (h : chunk.Staged text)
    (hmembers : ∀ m ∈ chunk.members, m = spanPivots dart scores m.span ∧ m.span.Fillable ∧
      m.pivots ++ text ≠ []) :
    ∃ kept : List (List Nat), growChunk arithmetic scores text.length chunk = .ok kept.flatten ∧
      List.Forall₂ ImageSpan.Served (chunk.members.map fun m => m.span) kept := by
  refine ⟨(chunk.members.zip chunk.spanPivotOffsets).map fun m =>
    growSpanGreedily arithmetic scores chunk m.1.span m.2 m.1.pivots.length text.length, ?_, ?_⟩
  · unfold growChunk
    simp only [bind_eq_ok, requireThat_eq_ok, exists_const]
    exact ⟨h.length_pos fun m hm => (hmembers m hm).2.2, h.length_le, rfl⟩
  · have hfirsts : chunk.members = (chunk.members.zip chunk.spanPivotOffsets).map Prod.fst :=
      (List.map_fst_zip (Nat.le_of_eq h.reads.offsets)).symm
    have hspans : (chunk.members.map fun m => m.span) =
        (chunk.members.zip chunk.spanPivotOffsets).map fun m => m.1.span := by
      conv_lhs => rw [hfirsts]
      rw [List.map_map]
      rfl
    rw [hspans, List.forall₂_map_left_iff, List.forall₂_map_right_iff, List.forall₂_same]
    intro m hm
    obtain ⟨hpivots, hfillable, hsome⟩ := hmembers m.1 (List.of_mem_zip hm).1
    rw [growSpanGreedily_eq h hm]
    rw [hpivots] at hsome ⊢
    exact growWith_served hfillable text hsome

theorem growChunks_spec {chunks : List Chunk} (hstaged : ∀ chunk ∈ chunks, chunk.Staged text)
    (hmembers : ∀ m ∈ chunks.flatMap fun chunk => chunk.members,
      m = spanPivots dart scores m.span ∧ m.span.Fillable ∧ m.pivots ++ text ≠ []) :
    ∃ retained kept : List (List Nat),
      chunks.mapM (growChunk arithmetic scores text.length) = .ok retained ∧
        retained.flatten = kept.flatten ∧ List.Forall₂ ImageSpan.Served
          ((chunks.flatMap fun chunk => chunk.members).map fun m => m.span) kept := by
  induction chunks with
  | nil => exact ⟨[], [], rfl, rfl, List.Forall₂.nil⟩
  | cons chunk rest ih =>
    rw [List.flatMap_cons] at hmembers
    obtain ⟨kept, hgrown, hserved⟩ := @growChunk_spec F _ dart arithmetic scores text chunk
      (hstaged chunk List.mem_cons_self) fun m hm => hmembers m (List.mem_append_left _ hm)
    obtain ⟨retained, keptRest, hrest, hflat, hservedRest⟩ :=
      ih (fun c hc => hstaged c (List.mem_cons_of_mem chunk hc)) fun m hm =>
        hmembers m (List.mem_append_right _ hm)
    refine ⟨kept.flatten :: retained, kept ++ keptRest, ?_, ?_, ?_⟩
    · rw [List.mapM_cons, hgrown, hrest]
      rfl
    · rw [List.flatten_cons, hflat, List.flatten_append]
    · rw [List.flatMap_cons, List.map_append]
      exact List.rel_append hserved hservedRest

end Chunks

end Selection

end EdgeLLM.Ports.VisualPruner
