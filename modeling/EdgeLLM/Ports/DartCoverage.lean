import EdgeLLM.Ports.DartSelection

/-!
# The selection of DART

Wherever there is a pivot at all, the selection serves every visual span with
its quota, so that the retained set passes `compactToKeepList`.  A prompt
without text leaves a configuration without image pivots nothing to grow from,
and is refused.
-/

namespace EdgeLLM.Ports.VisualPruner

open Verified

section Coverage

variable {F : Type} [LinearOrder F] {config : Config} {dart : Dart} {scores : Scores F}
  {hostTokenIds : List Int} {req : PruneRequest}

theorem textPivots_length_le : (textPivots dart scores req).length ≤ dart.pivotTextTokens := by
  unfold textPivots
  rw [length_topByScore]
  exact Nat.min_le_left _ _

/-- A span has a pivot, its own or one of the text. -/
theorem pivots_ne_nil {span : ImageSpan} (hspan : span.Fillable)
    (hpivot : 0 < dart.pivotImageTokens ∨ req.textPositions ≠ []) :
    (spanPivots dart scores span).pivots ++ textPivots dart scores req ≠ [] := by
  intro hnil
  rw [List.append_eq_nil_iff] at hnil
  by_cases himage : 0 < dart.pivotImageTokens
  · have hown := @spanPivots_length_pos F _ dart scores span hspan himage
    rw [hnil.1] at hown
    exact Nat.lt_irrefl 0 hown
  · have htext := List.length_pos_iff.2 (hpivot.resolve_left himage)
    have hsome := dart.some_pivot
    have hlength := congrArg List.length hnil.2
    unfold textPivots at hlength
    rw [length_topByScore, List.length_nil] at hlength
    omega

/-- Every span with its pivots fits the staging buffer beside the text pivots. -/
theorem spanPivots_fits (span : ImageSpan) : (spanPivots dart scores span).pivots.length +
    (textPivots dart scores req).length ≤ dartMaxPivots := by
  have hown := @spanPivots_length_le_dart F _ dart scores span
  have htext := @textPivots_length_le F _ dart scores req
  have hle := dart.pivots_le
  omega

/-- The chunk loop stages the spans of a request. -/
theorem requestChunks_spec : ∃ chunks, requestChunks dart scores req = some chunks ∧
    (chunks.flatMap fun chunk => chunk.members) = req.imageSpans.map (spanPivots dart scores) ∧
    ∀ chunk ∈ chunks, chunk.Staged (textPivots dart scores req) := by
  have htext := @textPivots_length_le F _ dart scores req
  have hle := dart.pivots_le
  apply packChunks_spec
  · omega
  · rw [List.length_map]
  · intro m hm
    obtain ⟨span, -, rfl⟩ := List.mem_map.1 hm
    exact spanPivots_fits span

theorem selectRetainedImageTokens_spec (arithmetic : Arithmetic F)
    (hlength : req.origLen ≤ config.maxInputLength)
    (hspans : ∀ span ∈ req.imageSpans, span.Fillable)
    (hpivot : 0 < dart.pivotImageTokens ∨ req.textPositions ≠ []) : ∃ kept : List (List Nat),
      selectRetainedImageTokens config dart arithmetic scores req = .ok kept.flatten ∧
        List.Forall₂ ImageSpan.Served req.imageSpans kept := by
  obtain ⟨chunks, hchunks, hflat, hstaged⟩ := @requestChunks_spec F _ dart scores req
  have hmembers : ∀ m ∈ chunks.flatMap fun chunk => chunk.members,
      m = spanPivots dart scores m.span ∧ m.span.Fillable ∧
        m.pivots ++ textPivots dart scores req ≠ [] := by
    intro m hm
    rw [hflat] at hm
    obtain ⟨span, hspan, rfl⟩ := List.mem_map.1 hm
    exact ⟨rfl, hspans span hspan, pivots_ne_nil (hspans span hspan) hpivot⟩
  obtain ⟨retained, kept, hgrown, hsame, hserved⟩ :=
    @growChunks_spec F _ dart arithmetic scores _ chunks hstaged hmembers
  refine ⟨kept, ?_, ?_⟩
  · unfold selectRetainedImageTokens
    rw [requireThat_of hlength, hchunks]
    show (List.mapM _ chunks >>= fun _ => _) = Except.ok _
    rw [hgrown, ← hsame]
    rfl
  · rw [hflat, List.map_map] at hserved
    have hsame : (fun m : SpanPivots => m.span) ∘ spanPivots dart scores = id := rfl
    rw [hsame, List.map_id] at hserved
    exact hserved

/-- DART starves no image: wherever there is a pivot, every span retains its quota, the
retained set passes, and every chunk stages the pivots of its spans. -/
theorem dart_starves_no_span (config : Config) (dart : Dart) (arithmetic : Arithmetic F)
    (scores : Scores F) (hostTokenIds : List Int) (req : PruneRequest)
    (hreq : pruneRequest config hostTokenIds = some req)
    (hlength : hostTokenIds.length ≤ config.maxInputLength)
    (hpivot : 0 < dart.pivotImageTokens ∨ textPositions config hostTokenIds ≠ []) :
    (∃ retained, selectRetainedImageTokens config dart arithmetic scores req = .ok retained ∧
      retained.Nodup ∧ (∀ p ∈ retained, ∃ span ∈ req.imageSpans, span.Holds p) ∧
      (∀ span ∈ req.imageSpans,
        (retained.filter fun p => span.Holds p).length = span.targetTokens) ∧
      retained.length = req.targetImageTokens ∧
      ∃ keep, compactToKeepList (retained.map fun pos : Nat => (pos : Int)) req =
        .ok (some keep)) ∧
    ∃ chunks, requestChunks dart scores req = some chunks ∧
      (chunks.flatMap fun chunk => chunk.members) =
        req.imageSpans.map (spanPivots dart scores) ∧
      ∀ chunk ∈ chunks, chunk.pivotHost.length ≤ dartMaxPivots ∧
        ∀ m ∈ chunk.members.zip chunk.spanPivotOffsets, ∀ i < m.1.pivots.length,
          chunk.pivotHost[m.2 + i]? = m.1.pivots[i]? := by
  obtain ⟨himage, htext, hspans, htarget, hmore, horig⟩ := pruneRequest_eq_some hreq
  have hascending : req.imagePositions.Pairwise (· < ·) := by
    rw [himage]
    exact pairwise_imagePositions
  have hfillable : ∀ span ∈ req.imageSpans, span.Fillable := by
    rw [hspans]
    exact fun span hspan => fillable_of_mem_imageSpans hascending hspan
  have hcover : ∀ p, (∃ span ∈ req.imageSpans, span.Holds p) ↔ p ∈ req.imagePositions := by
    rw [hspans]
    exact fun p => mem_imageSpans
  constructor
  · obtain ⟨kept, hselect, hserved⟩ := @selectRetainedImageTokens_spec F _ config dart scores req
      arithmetic (by rwa [horig]) hfillable (by rwa [htext])
    have hpairwise : req.imageSpans.Pairwise fun a b => a.stop ≤ b.begin := by
      rw [hspans]
      exact imageSpans_pairwise hascending
    obtain ⟨hnodup, hinside, hcount, hquotas⟩ := served_flatten hserved hpairwise
    rw [← htarget] at hcount
    have hnonempty : kept.flatten ≠ [] := by
      intro hnil
      obtain ⟨p, hp⟩ := List.exists_mem_of_length_pos (Nat.zero_lt_of_lt hmore)
      obtain ⟨span, hspan, -⟩ := (hcover p).2 hp
      have hquota := hquotas span hspan
      rw [hnil, List.filter_nil, List.length_nil] at hquota
      have hpos := (hfillable span hspan).quota_pos
      omega
    exact ⟨kept.flatten, hselect, hnodup, hinside, hquotas, hcount, _,
      compactToKeepList_of_pruneRequest hreq hnodup hnonempty (Nat.le_of_eq hcount)
        fun p hp => (hcover p).1 (hinside p hp)⟩
  · obtain ⟨chunks, hchunks, hflat, hstaged⟩ := @requestChunks_spec F _ dart scores req
    refine ⟨chunks, hchunks, hflat, ?_⟩
    intro chunk hchunk
    exact ⟨(hstaged chunk hchunk).length_le, (hstaged chunk hchunk).reads.pivots⟩

end Coverage

/-! ## Two prompts -/

/-- Half of the tokens of every image. -/
def halved : Config where
  imageTokenId := 7
  minVisualTokens := 1
  ceilKept := fun spanLen => ((spanLen + 1) / 2 : Nat)
  maxBatchSize := 1
  maxInputLength := 16
  maxKVCacheCapacity := 16
  maxBatchSize_pos := Nat.one_pos
  maxInputLength_le := by decide

def integerArithmetic : Arithmetic Int := ⟨(· * ·), (· / ·), (- ·), 1⟩

def indexScores : Scores Int := ⟨fun i => i, fun _ => 1, fun i j => i * j⟩

/-- Two images of three and two tokens retain two and one. -/
theorem dart_starves_no_span_twoImages :
    ∃ req, pruneRequest halved [1, 7, 7, 7, 2, 7, 7] = some req ∧
      ∃ retained, selectRetainedImageTokens halved ⟨1, 1, by decide, by decide⟩
        integerArithmetic indexScores req = .ok retained ∧ retained.length = 3 := by
  obtain ⟨⟨retained, hselect, -, -, -, hlength, -⟩, -⟩ := dart_starves_no_span halved
    ⟨1, 1, by decide, by decide⟩ integerArithmetic indexScores [1, 7, 7, 7, 2, 7, 7]
    ⟨[1, 2, 3, 5, 6], [0, 4], [⟨1, 4, 2⟩, ⟨5, 7, 1⟩], 3, 7⟩ rfl (by decide) (.inl (by decide))
  exact ⟨_, rfl, retained, hselect, hlength⟩

/-- A prompt of image tokens only leaves text pivots without a text to take them from. -/
theorem dart_refuses_imageOnly :
    ∃ req, pruneRequest halved [7, 7] = some req ∧
      selectRetainedImageTokens halved ⟨0, 1, by decide, by decide⟩
        integerArithmetic indexScores req = .error "DART selected no pivots" :=
  ⟨⟨[0, 1], [], [⟨0, 2, 1⟩], 1, 2⟩, rfl, rfl⟩

end EdgeLLM.Ports.VisualPruner
