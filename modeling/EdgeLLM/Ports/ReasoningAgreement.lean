import EdgeLLM.Ports.ReasoningStreams

/-!
# Where a reasoning stream and the one-shot split agree

`extract` cuts a whole text at its first markers, wherever they stand; the
streams follow every marker from the start of the text on. This module says for
each registered parser on which texts the two give the same reasoning and the
same content.
-/

namespace EdgeLLM.Ports.Reasoning

open Verified Verified.Splitting

/-- `stream` is the reasoning and the content that `extracted` names. -/
def Matches (stream : Field → Text) (extracted : Option Text × Option Text) : Prop :=
  orNone (stream .reasoning) = extracted.1 ∧ orNone (stream .content) = extracted.2

@[simp] theorem orNone_nil : orNone [] = none := rfl

theorem orNone_inj {a b : Text} : orNone a = orNone b ↔ a = b := by
  unfold orNone
  by_cases ha : a = []
  · by_cases hb : b = []
    · simp [ha, hb]
    · simp [ha, hb, Ne.symm hb]
  · by_cases hb : b = []
    · simp [ha, hb]
    · simp [ha, hb]

/-- The split of a candidate at its end token, as two texts. -/
def firstSpan (endToken candidate : Text) : Text × Text :=
  (partition endToken candidate).getD (candidate, [])

theorem splitReasoning_eq (endToken candidate : Text) : splitReasoning endToken candidate =
      (orNone (firstSpan endToken candidate).1, orNone (firstSpan endToken candidate).2) := by
  unfold splitReasoning firstSpan
  cases partition endToken candidate with
  | none => rfl
  | some p => rfl

theorem matches_iff (stream : Field → Text) (a b : Text) :
    Matches stream (orNone a, orNone b) ↔ stream .reasoning = a ∧ stream .content = b := by
  unfold Matches
  rw [orNone_inj, orNone_inj]

@[simp] theorem only_self (field : Field) (text : Text) : only field text field = text := by
  simp [only]

@[simp] theorem only_reasoning_content (text : Text) : only .reasoning text .content = [] := rfl

@[simp] theorem only_content_reasoning (text : Text) : only .content text .reasoning = [] := rfl

section Cuts

variable {marker text a b : Text}

theorem partition_left_absent (h : partition marker text = some (a, b)) (hmarker : marker ≠ []) :
    ¬ marker <:+: a := by
  intro hoccurs
  obtain ⟨htext, hfirst⟩ := partition_eq_some.1 h
  obtain ⟨j, hj⟩ := infix_iff_exists_drop.1 hoccurs
  have hlen := hj.length_le
  have hpos := List.length_pos_iff.2 hmarker
  rw [List.length_drop] at hlen
  apply hfirst j (by omega)
  rw [htext, List.drop_append_of_le_length (by omega)]
  exact hj.trans (List.prefix_append _ _)

/-- A marker that does not overlap itself is first found behind a text without
it. -/
theorem partition_append {c : Char} (hmarker : Headed c marker) (h : ¬ marker <:+: a) :
    partition marker (a ++ (marker ++ b)) = some (a, b) := by
  rw [partition_eq_some]
  refine ⟨rfl, ?_⟩
  intro j hj hpre
  have hle := hmarker.apart hmarker hpre (prefix_drop_left a marker b) hj
  apply h
  rw [infix_iff_exists_drop]
  exact ⟨j, prefix_drop_of_append hpre hle⟩

end Cuts

section Thinking

/-- `<think>` -/
abbrev thinkStart : Text := thinking.startToken

/-- `</think>` -/
abbrev thinkEnd : Text := thinking.endToken

theorem headed_thinkStart : Headed '<' thinkStart := ⟨"think>".toList, by decide, by decide⟩

theorem headed_thinkEnd : Headed '<' thinkEnd := ⟨"/think>".toList, by decide, by decide⟩

theorem thinkStart_ne : thinkStart ≠ [] := headed_thinkStart.ne_nil

theorem thinkEnd_ne : thinkEnd ≠ [] := headed_thinkEnd.ne_nil

theorem not_both_tags {text : Text} (hs : thinkStart <+: text) : ¬ thinkEnd <+: text := by
  intro he
  have hle : thinkStart.length ≤ thinkEnd.length := by decide
  exact absurd (List.prefix_of_prefix_length_le hs he hle) (by decide)

abbrev thinkSpans (reasoning : Bool) (text : Text) (f : Field) : Text :=
  spans thinkStart thinkEnd reasoning text f

theorem thinkSpans_none {reasoning : Bool} {text : Text}
    (h : partition (spanMarker thinkStart thinkEnd reasoning) text = none) (f : Field) :
    thinkSpans reasoning text f = only (fieldOf reasoning) text f :=
  spans_of_none h f

theorem thinkSpans_some {reasoning : Bool} {text found behind : Text}
    (h : partition (spanMarker thinkStart thinkEnd reasoning) text = some (found, behind))
    (f : Field) : thinkSpans reasoning text f =
      only (fieldOf reasoning) found f ++ thinkSpans (!reasoning) behind f :=
  spans_of_some thinkStart_ne thinkEnd_ne h f

/-- The spans of a text hold no more than the text. -/
theorem thinkSpans_length (n : Nat) : ∀ (reasoning : Bool) (text : Text), text.length ≤ n →
      (thinkSpans reasoning text .reasoning).length +
        (thinkSpans reasoning text .content).length ≤ text.length := by
  induction n with
  | zero =>
    intro reasoning text hn
    rw [List.length_eq_zero_iff.1 (Nat.le_zero.1 hn)]
    cases reasoning with
    | true => rw [thinkSpans_none (by decide), thinkSpans_none (by decide)]; simp [fieldOf]
    | false => rw [thinkSpans_none (by decide), thinkSpans_none (by decide)]; simp [fieldOf]
  | succ n ih =>
    intro reasoning text hn
    cases hcut : partition (spanMarker thinkStart thinkEnd reasoning) text with
    | none =>
      rw [thinkSpans_none hcut, thinkSpans_none hcut]
      cases reasoning <;> simp [fieldOf]
    | some p =>
      obtain ⟨found, behind⟩ := p
      have hlen := partition_length hcut
      have hmarker := List.length_pos_iff.2
        (spanMarker_ne thinkStart_ne thinkEnd_ne reasoning)
      have hrest := ih (!reasoning) behind (by omega)
      rw [thinkSpans_some hcut, thinkSpans_some hcut, List.length_append, List.length_append]
      cases reasoning with
      | true =>
        simp only [fieldOf, if_true, only_self, only_reasoning_content, List.length_nil]
        omega
      | false =>
        simp only [fieldOf, Bool.false_eq_true, if_false, only_self,
          only_content_reasoning, List.length_nil]
        omega

/-- Behind a reasoning span, all is content exactly when no start tag comes. -/
theorem thinkSpans_content_iff (text : Text) :
    (thinkSpans false text .reasoning = [] ∧ thinkSpans false text .content = text) ↔
      ¬ thinkStart <:+: text := by
  cases hcut : partition thinkStart text with
  | none =>
    have hnone : partition (spanMarker thinkStart thinkEnd false) text = none := hcut
    rw [thinkSpans_none hnone, thinkSpans_none hnone]
    exact iff_of_true ⟨rfl, rfl⟩ ((partition_eq_none thinkStart_ne).1 hcut)
  | some p =>
    obtain ⟨found, behind⟩ := p
    have hsome : partition (spanMarker thinkStart thinkEnd false) text = some (found, behind) :=
      hcut
    refine iff_of_false ?_ ?_
    · intro h
      have hlen := partition_length hcut
      have hstart := List.length_pos_iff.2 thinkStart_ne
      have hspans := thinkSpans_length _ true behind (Nat.le_refl _)
      have hcontent := congrArg List.length h.2
      rw [thinkSpans_some hsome] at hcontent
      simp only [fieldOf, Bool.false_eq_true, if_false, only_self, List.length_append,
        Bool.not_false] at hcontent
      omega
    · rw [← partition_eq_none thinkStart_ne, hcut]
      intro h
      cases h

/-- The text is `contents` with empty reasoning spans put in; the last may be left
open. -/
inductive EmptySpans : Text → Text → Prop
  | absent {w : Text} (h : ¬ thinkStart <:+: w) : EmptySpans w w
  | left {w : Text} (h : ¬ thinkStart <:+: w) : EmptySpans (w ++ thinkStart) w
  | span {w rest contents : Text} (h : ¬ thinkStart <:+: w) (hrest : EmptySpans rest contents) :
      EmptySpans (w ++ (thinkStart ++ (thinkEnd ++ rest))) (w ++ contents)

theorem EmptySpans.spans {rest contents : Text} (h : EmptySpans rest contents) :
    thinkSpans false rest .reasoning = [] ∧ thinkSpans false rest .content = contents := by
  induction h with
  | absent h => exact (thinkSpans_content_iff _).2 h
  | @left w h =>
    have hcut : partition thinkStart (w ++ thinkStart) = some (w, []) := by
      have hcut := partition_append (b := []) headed_thinkStart h
      rwa [List.append_nil] at hcut
    have hnone : partition (spanMarker thinkStart thinkEnd true) [] = none := by decide
    rw [@thinkSpans_some false _ _ _ hcut, @thinkSpans_some false _ _ _ hcut]
    simp only [Bool.not_false, thinkSpans_none hnone, fieldOf]
    simp
  | @span w rest contents h hrest ih =>
    have hcut := partition_append (b := thinkEnd ++ rest) headed_thinkStart h
    have hend : partition (spanMarker thinkStart thinkEnd true) (thinkEnd ++ rest) =
        some ([], rest) := partition_of_begins _ _
    rw [@thinkSpans_some false _ _ _ hcut, @thinkSpans_some false _ _ _ hcut]
    simp only [Bool.not_false, thinkSpans_some hend, Bool.not_true, ih.1, ih.2, fieldOf]
    simp

theorem emptySpans_of_spans (n : Nat) :
    ∀ rest : Text, rest.length ≤ n → thinkSpans false rest .reasoning = [] →
      EmptySpans rest (thinkSpans false rest .content) := by
  induction n with
  | zero =>
    intro rest hn _
    rw [List.length_eq_zero_iff.1 (Nat.le_zero.1 hn), thinkSpans_none (by decide)]
    exact EmptySpans.absent (by decide)
  | succ n ih =>
    intro rest hn hempty
    cases hcut : partition thinkStart rest with
    | none =>
      have hno := (partition_eq_none thinkStart_ne).1 hcut
      rw [((thinkSpans_content_iff rest).2 hno).2]
      exact EmptySpans.absent hno
    | some p =>
      obtain ⟨w, behind⟩ := p
      have hsome : partition (spanMarker thinkStart thinkEnd false) rest = some (w, behind) :=
        hcut
      have habsent := partition_left_absent hcut thinkStart_ne
      have hrest := (partition_eq_some.1 hcut).1
      have hlen := partition_length hcut
      rw [thinkSpans_some hsome] at hempty ⊢
      simp only [fieldOf, Bool.false_eq_true, if_false, Bool.not_false, only_self,
        only_content_reasoning, List.nil_append] at hempty ⊢
      cases hend : partition thinkEnd behind with
      | none =>
        have hnone : partition (spanMarker thinkStart thinkEnd true) behind = none := hend
        rw [thinkSpans_none hnone] at hempty
        have hnil : behind = [] := hempty
        rw [hrest, thinkSpans_none hnone, hnil, List.append_nil]
        simp only [fieldOf, if_true, only_nil, List.append_nil]
        exact EmptySpans.left habsent
      | some q =>
        obtain ⟨r, tail⟩ := q
        have hsome' : partition (spanMarker thinkStart thinkEnd true) behind =
            some (r, tail) := hend
        have hlen' := partition_length hend
        have hpos := List.length_pos_iff.2 thinkEnd_ne
        rw [thinkSpans_some hsome'] at hempty ⊢
        simp only [fieldOf, if_true, Bool.not_true, only_self, only_reasoning_content,
          List.nil_append] at hempty ⊢
        obtain ⟨hr, htail⟩ := List.append_eq_nil_iff.1 hempty
        have hbehind := (partition_eq_some.1 hend).1
        rw [hr, List.nil_append] at hbehind
        rw [hrest, hbehind]
        exact EmptySpans.span habsent (ih tail (by omega) htail)

/-- What the think-tag stream gives of a response. -/
abbrev thinkResponse (text : Text) (f : Field) : Text :=
  StreamingReasoningParser.response thinkStart thinkEnd true text f

theorem thinkResponse_of_start (u : Text) (f : Field) :
    thinkResponse (thinkStart ++ u) f = thinkSpans true u f := by
  unfold thinkResponse StreamingReasoningParser.response
  rw [if_pos (List.isPrefixOf_iff_prefix.2 (List.prefix_append _ _)), List.drop_left]

theorem thinkResponse_of_not {text : Text} (h : ¬ thinkStart <+: text) (f : Field) :
    thinkResponse text f = thinkSpans true text f := by
  unfold thinkResponse StreamingReasoningParser.response
  rw [if_neg (mt List.isPrefixOf_iff_prefix.1 h)]

/-- The texts on which the think-tag stream and `extract` agree: a start tag does
not come, or comes at the start only and not again behind the first end tag; or
the text starts with an end tag, and what follows up to the first start tag is
empty or, by accident, makes up for the empty spans it is followed by. -/
def ThinkAgrees (text : Text) : Prop :=
  ¬ thinkStart <:+: text ∨
  (∃ u, text = thinkStart ++ u ∧ ∀ r rest, partition thinkEnd u = some (r, rest) →
    ¬ thinkStart <:+: rest) ∨
  ∃ c y, text = thinkEnd ++ (c ++ (thinkStart ++ y)) ∧ ¬ thinkStart <:+: c ∧
    (partition thinkEnd y = none ∧ c = [] ∨
      ∃ r rest contents, partition thinkEnd y = some (r, rest) ∧ EmptySpans rest contents ∧
        c ++ contents = rest)

/-- The spans after an end tag and a start tag against the split there. -/
theorem spans_behind_iff (a c y : Text) :
    (a ++ thinkSpans true y .reasoning = (firstSpan thinkEnd y).1 ∧
      c ++ thinkSpans true y .content = (firstSpan thinkEnd y).2) ↔
    a = [] ∧ (partition thinkEnd y = none ∧ c = [] ∨
      ∃ r rest contents, partition thinkEnd y = some (r, rest) ∧ EmptySpans rest contents ∧
        c ++ contents = rest) := by
  unfold firstSpan
  cases hcut : partition thinkEnd y with
  | none =>
    have hnone : partition (spanMarker thinkStart thinkEnd true) y = none := hcut
    rw [thinkSpans_none hnone, thinkSpans_none hnone]
    simp [fieldOf]
  | some p =>
    obtain ⟨r, rest⟩ := p
    have hsome : partition (spanMarker thinkStart thinkEnd true) y = some (r, rest) := hcut
    rw [thinkSpans_some hsome, thinkSpans_some hsome]
    simp only [fieldOf, if_true, Bool.not_true, only_self, only_reasoning_content,
      List.nil_append, Option.getD_some]
    constructor
    · intro h
      have hlen := congrArg List.length h.1
      simp only [List.length_append] at hlen
      have ha : a = [] := List.length_eq_zero_iff.1 (by omega)
      have hempty : thinkSpans false rest .reasoning = [] :=
        List.length_eq_zero_iff.1 (by omega)
      exact ⟨ha, Or.inr ⟨r, rest, _, rfl, emptySpans_of_spans _ rest (Nat.le_refl _) hempty, h.2⟩⟩
    · intro h
      obtain ⟨ha, h⟩ := h
      rcases h with h | h
      · exact absurd h.1 (by simp)
      · obtain ⟨r', rest', contents, heq, hspans, hcontents⟩ := h
        obtain ⟨rfl, rfl⟩ := Prod.mk.inj (Option.some.inj heq)
        rw [ha, hspans.spans.1, hspans.spans.2, hcontents]
        simp

theorem thinking_extract_of_some {text x y : Text} (h : partition thinkStart text = some (x, y)) :
    thinking.extract text = (orNone (firstSpan thinkEnd y).1, orNone (firstSpan thinkEnd y).2) := by
  rw [← splitReasoning_eq]
  unfold ReasoningParser.extract
  rw [h]

theorem thinking_extract_of_none {text : Text} (h : partition thinkStart text = none) :
    thinking.extract text =
      (orNone (firstSpan thinkEnd text).1, orNone (firstSpan thinkEnd text).2) := by
  rw [← splitReasoning_eq]
  unfold ReasoningParser.extract
  rw [h]

/-- A candidate that both split from its first character. -/
theorem spans_candidate_iff (u : Text) : (thinkSpans true u .reasoning = (firstSpan thinkEnd u).1 ∧
      thinkSpans true u .content = (firstSpan thinkEnd u).2) ↔
    ∀ r rest, partition thinkEnd u = some (r, rest) → ¬ thinkStart <:+: rest := by
  unfold firstSpan
  cases hcut : partition thinkEnd u with
  | none =>
    have hnone : partition (spanMarker thinkStart thinkEnd true) u = none := hcut
    rw [thinkSpans_none hnone, thinkSpans_none hnone]
    exact iff_of_true ⟨rfl, rfl⟩ fun r rest h => nomatch h
  | some p =>
    obtain ⟨r, rest⟩ := p
    have hsome : partition (spanMarker thinkStart thinkEnd true) u = some (r, rest) := hcut
    have hspans := thinkSpans_content_iff rest
    rw [thinkSpans_some hsome, thinkSpans_some hsome]
    simp only [fieldOf, if_true, Bool.not_true, only_self, only_reasoning_content,
      List.nil_append, Option.getD_some, List.append_right_eq_self] at hspans ⊢
    rw [hspans]
    constructor
    · intro h r' rest' heq
      obtain ⟨rfl, rfl⟩ := Prod.mk.inj (Option.some.inj heq)
      exact h
    · exact fun h => h r rest rfl

/-- No text starts with an end tag whose first start tag is found at its start. -/
theorem partition_start_behind_end {c y : Text} (h : ¬ thinkStart <:+: c) :
    partition thinkStart (thinkEnd ++ (c ++ (thinkStart ++ y))) = some (thinkEnd ++ c, y) := by
  have habsent : ¬ thinkStart <:+: thinkEnd ++ c := by
    intro hoccurs
    obtain ⟨j, hj⟩ := infix_iff_exists_drop.1 hoccurs
    have hend : thinkEnd <+: (thinkEnd ++ c).drop 0 := List.prefix_append _ _
    by_cases hzero : j = 0
    · rw [hzero] at hj
      exact not_both_tags hj hend
    · have hle := headed_thinkEnd.apart headed_thinkStart hend hj (Nat.pos_of_ne_zero hzero)
      apply h
      rw [infix_iff_exists_drop]
      refine ⟨j - thinkEnd.length, ?_⟩
      rwa [List.drop_append, List.drop_eq_nil_of_le (by omega), List.nil_append] at hj
  have hcut := partition_append (b := y) headed_thinkStart habsent
  rwa [List.append_assoc] at hcut

/-- Behind text before the first start tag, the two agree only when that text is an
end tag and what makes up for it. -/
theorem thinking_late_iff {text x y : Text} (hcut : partition thinkStart text = some (x, y)) :
    (thinkSpans true text .reasoning = (firstSpan thinkEnd y).1 ∧
      thinkSpans true text .content = (firstSpan thinkEnd y).2) ↔
    ∃ c y, text = thinkEnd ++ (c ++ (thinkStart ++ y)) ∧ ¬ thinkStart <:+: c ∧
      (partition thinkEnd y = none ∧ c = [] ∨
        ∃ r rest contents, partition thinkEnd y = some (r, rest) ∧ EmptySpans rest contents ∧
          c ++ contents = rest) := by
  obtain ⟨htext, hfirst⟩ := partition_eq_some.1 hcut
  have habsent := partition_left_absent hcut thinkStart_ne
  cases hend : partition thinkEnd text with
  | none =>
    -- all of the text is reasoning to the stream
    have hnone : partition (spanMarker thinkStart thinkEnd true) text = none := hend
    have hno := (partition_eq_none thinkEnd_ne).1 hend
    refine iff_of_false ?_ ?_
    · intro h
      have hreasoning := h.1
      rw [thinkSpans_none hnone, firstSpan] at hreasoning
      have hy : partition thinkEnd y = none := by
        rw [partition_eq_none thinkEnd_ne]
        intro hoccurs
        apply hno
        rw [htext]
        exact hoccurs.trans ⟨x ++ thinkStart, [], by simp⟩
      rw [hy] at hreasoning
      have hlens := congrArg List.length hreasoning
      have hlen := partition_length hcut
      have hpos := List.length_pos_iff.2 thinkStart_ne
      simp only [fieldOf, if_true, only_self, Option.getD_none] at hlens
      omega
    · intro h
      obtain ⟨c, y', htext', -, -⟩ := h
      exact hno (htext' ▸ (List.prefix_append _ _).isInfix)
  | some q =>
    obtain ⟨a, b⟩ := q
    obtain ⟨hab, hfirstEnd⟩ := partition_eq_some.1 hend
    have hsome : partition (spanMarker thinkStart thinkEnd true) text = some (a, b) := hend
    have hstartAt : thinkStart <+: text.drop x.length := htext ▸ prefix_drop_left x _ y
    have hendAt : thinkEnd <+: text.drop a.length := hab ▸ prefix_drop_left a _ b
    rcases Nat.lt_trichotomy x.length a.length with hlt | heq | hgt
    · -- the start tag comes first: what stands before it is reasoning to the stream
      have hle := headed_thinkStart.apart headed_thinkEnd hstartAt hendAt hlt
      refine iff_of_false ?_ ?_
      · intro h
        have hreasoning := congrArg List.length h.1
        have hlens := partition_length hend
        have hlens' := partition_length hcut
        have hdrop : text.drop (x.length + thinkStart.length) = y := by
          rw [← List.drop_drop, htext, List.drop_left, List.drop_left]
        have hy : partition thinkEnd y =
            some (y.take (a.length - (x.length + thinkStart.length)), b) := by
          have hsplit : y = y.take (a.length - (x.length + thinkStart.length)) ++
              (thinkEnd ++ b) := by
            have htail : y.drop (a.length - (x.length + thinkStart.length)) = thinkEnd ++ b := by
              rw [← hdrop, List.drop_drop, Nat.add_sub_of_le hle, hab, List.drop_left]
            rw [← htail, List.take_append_drop]
          rw [partition_eq_some]
          refine ⟨hsplit, ?_⟩
          intro j hj hpre
          rw [List.length_take] at hj
          apply hfirstEnd (x.length + thinkStart.length + j) (by omega)
          rwa [← List.drop_drop, hdrop]
        rw [thinkSpans_some hsome, firstSpan, hy] at hreasoning
        simp only [fieldOf, if_true, only_self, Option.getD_some, List.length_append,
          List.length_take] at hreasoning
        have hpos := List.length_pos_iff.2 thinkStart_ne
        omega
      · intro h
        obtain ⟨c, y', htext', -, -⟩ := h
        apply hfirstEnd 0 (by omega)
        rw [htext']
        exact List.prefix_append _ _
    · rw [← heq] at hendAt
      exact absurd hendAt (not_both_tags hstartAt)
    · -- the end tag comes first
      have hle := headed_thinkEnd.apart headed_thinkStart hendAt hstartAt hgt
      have hx : ∃ c, x = a ++ (thinkEnd ++ c) := by
        have hpre : a ++ thinkEnd <+: x := by
          have hwhole : a ++ thinkEnd <+: text := by
            rw [hab, ← List.append_assoc]
            exact List.prefix_append _ _
          apply List.prefix_of_prefix_length_le hwhole
          · rw [htext]
            exact List.prefix_append _ _
          · rw [List.length_append]
            exact hle
        obtain ⟨c, hc⟩ := hpre
        exact ⟨c, by rw [← hc, List.append_assoc]⟩
      obtain ⟨c, rfl⟩ := hx
      have hc : ¬ thinkStart <:+: c :=
        fun hoccurs => habsent (hoccurs.trans ⟨a ++ thinkEnd, [], by simp⟩)
      have hb : b = c ++ (thinkStart ++ y) := by
        rw [htext] at hab
        simpa using hab.symm
      have hcutb : partition (spanMarker thinkStart thinkEnd false) b = some (c, y) := by
        rw [hb]
        exact partition_append headed_thinkStart hc
      rw [thinkSpans_some hsome, thinkSpans_some hsome]
      simp only [Bool.not_true, thinkSpans_some hcutb, Bool.not_false]
      simp only [fieldOf, if_true, Bool.false_eq_true, if_false, only_self,
        only_reasoning_content, only_content_reasoning, List.nil_append]
      rw [spans_behind_iff]
      constructor
      · intro h
        obtain ⟨ha, h⟩ := h
        refine ⟨c, y, ?_, hc, h⟩
        rw [htext, ha]
        simp
      · intro h
        obtain ⟨c', y', htext', hc', h⟩ := h
        have hcut' := partition_start_behind_end (y := y') hc'
        rw [← htext', hcut] at hcut'
        obtain ⟨hx, rfl⟩ := Prod.mk.inj (Option.some.inj hcut')
        have ha : a = [] := by
          apply List.length_eq_zero_iff.1
          apply Nat.eq_zero_of_not_pos
          intro hpos
          apply hfirstEnd 0 hpos
          rw [htext']
          exact List.prefix_append _ _
        rw [ha, List.nil_append] at hx
        rw [List.append_cancel_left hx]
        exact ⟨ha, h⟩

/-- Where the think-tag stream and `extract` agree. -/
theorem thinking_agrees_iff (text : Text) :
    Matches (thinkResponse text) (thinking.extract text) ↔ ThinkAgrees text := by
  unfold ThinkAgrees
  by_cases hstart : thinkStart <+: text
  · obtain ⟨u, rfl⟩ := hstart
    have hoccurs : thinkStart <:+: thinkStart ++ u := (List.prefix_append _ _).isInfix
    rw [thinking_extract_of_some (partition_of_begins _ _), matches_iff, thinkResponse_of_start,
      thinkResponse_of_start, spans_candidate_iff]
    constructor
    · exact fun h => Or.inr (Or.inl ⟨u, rfl, h⟩)
    · intro h
      rcases h with h | h | h
      · exact absurd hoccurs h
      · obtain ⟨u', hu, h⟩ := h
        rwa [List.append_cancel_left hu]
      · obtain ⟨c, y, htext, -, -⟩ := h
        have hend : thinkEnd <+: thinkStart ++ u := htext ▸ List.prefix_append _ _
        exact absurd hend (not_both_tags (List.prefix_append _ _))
  · cases hcut : partition thinkStart text with
    | none =>
      have hno := (partition_eq_none thinkStart_ne).1 hcut
      rw [thinking_extract_of_none hcut, matches_iff, thinkResponse_of_not hstart,
        thinkResponse_of_not hstart, spans_candidate_iff]
      refine iff_of_true ?_ (Or.inl hno)
      intro r rest hend hoccurs
      apply hno
      rw [(partition_eq_some.1 hend).1]
      exact hoccurs.trans ⟨r ++ thinkEnd, [], by simp⟩
    | some p =>
      obtain ⟨x, y⟩ := p
      have hoccurs : thinkStart <:+: text := by
        apply Classical.byContradiction
        intro hno
        rw [(partition_eq_none thinkStart_ne).2 hno] at hcut
        cases hcut
      rw [thinking_extract_of_some hcut, matches_iff, thinkResponse_of_not hstart,
        thinkResponse_of_not hstart, thinking_late_iff hcut]
      constructor
      · exact fun h => Or.inr (Or.inr h)
      · intro h
        rcases h with h | h | h
        · exact absurd hoccurs h
        · obtain ⟨u, hu, -⟩ := h
          exact absurd (hu ▸ List.prefix_append _ _) hstart
        · exact h

end Thinking

namespace Muse

theorem headed_museEnd : Headed '<' museEnd := ⟨"|eot|>".toList, by decide, by decide⟩

theorem headed_museMessageStart : Headed '<' museMessageStart :=
  ⟨"|message|>".toList, by decide, by decide⟩

theorem headed_museReasoningStart : Headed ' ' museReasoningStart :=
  ⟨"to=self<|message|>".toList, by decide, by decide⟩

/-- Each end-of-turn marker stands at the end. -/
def EndsOnly (text : Text) : Prop := ∀ p q, text = p ++ (museEnd ++ q) → q = []

theorem dropEnds_nil : dropEnds [] = [] := dropEnds_of_none (by decide)

theorem dropEnds_length (n : Nat) :
    ∀ text : Text, text.length ≤ n → (dropEnds text).length ≤ text.length := by
  induction n with
  | zero =>
    intro text hn
    rw [List.length_eq_zero_iff.1 (Nat.le_zero.1 hn), dropEnds_nil]
  | succ n ih =>
    intro text hn
    cases hcut : partition museEnd text with
    | none => rw [dropEnds_of_none hcut]
    | some p =>
      obtain ⟨a, b⟩ := p
      have hlen := partition_length hcut
      have hpos := List.length_pos_iff.2 museEnd_ne
      have hrest := ih b (by omega)
      rw [dropEnds_of_some hcut, List.length_append]
      omega

/-- A last end-of-turn marker is dropped with nothing else. -/
theorem dropEnds_append_end (n : Nat) :
    ∀ text : Text, text.length ≤ n → dropEnds (text ++ museEnd) = dropEnds text := by
  induction n with
  | zero =>
    intro text hn
    rw [List.length_eq_zero_iff.1 (Nat.le_zero.1 hn), dropEnds_nil, List.nil_append,
      @dropEnds_of_some _ [] [] (by decide), dropEnds_nil]
    rfl
  | succ n ih =>
    intro text hn
    cases hcut : partition museEnd text with
    | none =>
      have hno := (partition_eq_none museEnd_ne).1 hcut
      have hlast := partition_append (b := []) headed_museEnd hno
      rw [List.append_nil] at hlast
      rw [dropEnds_of_some hlast, dropEnds_nil, List.append_nil, dropEnds_of_none hcut]
    | some p =>
      obtain ⟨a, b⟩ := p
      have hlen := partition_length hcut
      have hpos := List.length_pos_iff.2 museEnd_ne
      rw [dropEnds_of_some (partition_append_of_some hcut museEnd), ih b (by omega),
        dropEnds_of_some hcut]

/-- `removesuffix` drops a last marker or nothing. -/
theorem removeSuffix_cases (text : Text) : text = removeSuffix museEnd text ++ museEnd ∨
      text = removeSuffix museEnd text ∧ ¬ museEnd <:+ text := by
  unfold removeSuffix
  by_cases h : museEnd <:+ text
  · rw [if_pos (List.isSuffixOf_iff_suffix.2 h)]
    obtain ⟨w, rfl⟩ := h
    exact Or.inl (by simp)
  · rw [if_neg (mt List.isSuffixOf_iff_suffix.1 h)]
    exact Or.inr ⟨rfl, h⟩

theorem dropEnds_removeSuffix (text : Text) :
    dropEnds (removeSuffix museEnd text) = dropEnds text := by
  rcases removeSuffix_cases text with h | h
  · have hlast := dropEnds_append_end _ (removeSuffix museEnd text) (Nat.le_refl _)
    rw [← h] at hlast
    exact hlast.symm
  · rw [← h.1]

/-- Dropping every marker is dropping a last one exactly when none stands
elsewhere. -/
theorem dropEnds_eq_removeSuffix_iff (text : Text) :
    dropEnds text = removeSuffix museEnd text ↔ EndsOnly text := by
  cases hcut : partition museEnd text with
  | none =>
    have hno := (partition_eq_none museEnd_ne).1 hcut
    rw [dropEnds_of_none hcut, removeSuffix_of_none hcut]
    refine iff_of_true rfl ?_
    intro p q htext
    exact absurd ⟨p, q, by rw [htext, List.append_assoc]⟩ hno
  | some p =>
    obtain ⟨a, b⟩ := p
    obtain ⟨htext, hfirst⟩ := partition_eq_some.1 hcut
    have hlen := partition_length hcut
    have hpos := List.length_pos_iff.2 museEnd_ne
    have hb := dropEnds_length _ b (Nat.le_refl _)
    rw [dropEnds_of_some hcut]
    constructor
    · intro h p q hpq
      have hlens := congrArg List.length h
      rw [List.length_append] at hlens
      cases removeSuffix_cases text with
      | inr hwhole =>
        rw [← hwhole.1] at hlens
        omega
      | inl hlast =>
        -- nothing but one marker is dropped, so none comes behind the first
        have hsuffix := congrArg List.length hlast
        rw [List.length_append] at hsuffix
        have hbwhole : partition museEnd b = none := by
          cases hcutb : partition museEnd b with
          | none => rfl
          | some r =>
            obtain ⟨c, d⟩ := r
            have hlenb := partition_length hcutb
            have hd := dropEnds_length _ d (Nat.le_refl _)
            rw [dropEnds_of_some hcutb, List.length_append] at hlens
            omega
        have hnob := (partition_eq_none museEnd_ne).1 hbwhole
        have hend : museEnd <:+ text := ⟨_, hlast.symm⟩
        have hbnil : b = [] := by
          apply Classical.byContradiction
          intro hne
          have hlast' : museEnd <+: text.drop (text.length - museEnd.length) := by
            rw [← List.suffix_iff_eq_drop.1 hend]
          have hhere : museEnd <+: text.drop a.length := htext ▸ prefix_drop_left a _ b
          have hbpos := List.length_pos_iff.2 hne
          have hapart := headed_museEnd.apart headed_museEnd hhere hlast' (by omega)
          apply hnob
          rw [infix_iff_exists_drop]
          refine ⟨text.length - museEnd.length - (a.length + museEnd.length), ?_⟩
          have hdrop : text.drop (a.length + museEnd.length) = b := by
            rw [← List.drop_drop, htext, List.drop_left, List.drop_left]
          rw [← hdrop, List.drop_drop, Nat.add_sub_of_le hapart]
          exact hlast'
        have hp : ¬ p.length < a.length := by
          intro hlt
          apply hfirst _ hlt
          rw [hpq]
          exact prefix_drop_left p _ q
        have hlenpq := congrArg List.length hpq
        rw [List.length_append, List.length_append] at hlenpq
        rw [hbnil] at hlen
        simp only [List.length_nil] at hlen
        exact List.length_eq_zero_iff.1 (by omega)
    · intro h
      have hbnil := h a b htext
      have hlast := htext
      rw [hbnil, List.append_nil] at hlast
      rw [hbnil, dropEnds_nil, List.append_nil, removeSuffix,
        if_pos (List.isSuffixOf_iff_suffix.2 ⟨a, hlast.symm⟩), hlast]
      simp

/-- No marker reaches into the text, so that it stays where it is when markers are
dropped. -/
def Solid (k : Text) : Prop :=
  k ≠ [] ∧ ∀ p s, dropEnds (p ++ (k ++ s)) = dropEnds p ++ (k ++ dropEnds s)

theorem solid_of_headed {k : Text} (hk : Headed '<' k)
    (hother : ∀ text, k <+: text → ¬ museEnd <+: text) : Solid k := by
  have hsettled : ∀ p, ¬ museEnd <:+: p → Settled museEnd (p ++ k) [] := by
    intro p hno u j hj hpre
    rw [List.nil_append, List.append_assoc] at hpre
    have hhere := prefix_drop_left p k u
    rcases Nat.lt_trichotomy j p.length with hlt | heq | hgt
    · have hle := headed_museEnd.apart hk hpre hhere hlt
      apply hno
      rw [infix_iff_exists_drop]
      exact ⟨j, prefix_drop_of_append hpre hle⟩
    · rw [heq] at hpre
      exact hother _ hhere hpre
    · have hle := hk.apart headed_museEnd hhere hpre hgt
      rw [List.length_append] at hj
      omega
  refine ⟨hk.ne_nil, ?_⟩
  intro p
  induction hn : p.length using Nat.strongRecOn generalizing p with
  | _ n ih =>
    intro s
    cases hcut : partition museEnd p with
    | none =>
      have hno := (partition_eq_none museEnd_ne).1 hcut
      have hdrop := dropEnds_cutsAt.settled museEnd_ne (hsettled p hno) s .content
      rw [List.nil_append, List.append_assoc, only_self, only_self, only_self] at hdrop
      rw [hdrop, dropEnds_of_none hcut, List.append_assoc]
    | some q =>
      obtain ⟨a, b⟩ := q
      have hlen := partition_length hcut
      have hpos := List.length_pos_iff.2 museEnd_ne
      rw [dropEnds_of_some (partition_append_of_some hcut _),
        ih b.length (by omega) b rfl, dropEnds_of_some hcut, List.append_assoc]

theorem Solid.append {k l : Text} (hk : Solid k) (hl : Solid l) : Solid (k ++ l) := by
  refine ⟨List.append_ne_nil_of_left_ne_nil hk.1 l, ?_⟩
  intro p s
  have hinner := hl.2 [] s
  rw [List.nil_append, dropEnds_nil, List.nil_append] at hinner
  rw [List.append_assoc, hk.2, hinner, List.append_assoc]

theorem solid_museMessageStart : Solid museMessageStart := by
  apply solid_of_headed headed_museMessageStart
  intro text hm he
  exact absurd (List.prefix_of_prefix_length_le he hm (by decide)) (by decide)

theorem solid_museChannelStart : Solid museChannelStart := by
  have heom : Solid "<|eom|>".toList := by
    apply solid_of_headed ⟨"|eom|>".toList, by decide, by decide⟩
    intro text hm he
    exact absurd (List.prefix_of_prefix_length_le he hm (by decide)) (by decide)
  have hstart : Solid "<|start|>assistant to=".toList := by
    apply solid_of_headed ⟨"|start|>assistant to=".toList, by decide, by decide⟩
    intro text hm he
    exact absurd (List.prefix_of_prefix_length_le he hm (by decide)) (by decide)
  have hboth : museChannelStart = "<|eom|>".toList ++ "<|start|>assistant to=".toList := by decide
  rw [hboth]
  exact heom.append hstart

/-- No text is its own rest behind solid text: dropping the markers again and again
would make ever shorter ones. -/
theorem Solid.ne {k : Text} (hk : Solid k) (w : Text) : ∀ p, w ≠ p ++ (k ++ dropEnds w) := by
  induction hn : w.length using Nat.strongRecOn generalizing w with
  | _ n ih =>
    intro p hw
    have hpos := List.length_pos_iff.2 hk.1
    have hlens := congrArg List.length hw
    simp only [List.length_append] at hlens
    have hshorter : dropEnds w = dropEnds p ++ (k ++ dropEnds (dropEnds w)) := by
      conv_lhs => rw [hw]
      exact hk.2 p (dropEnds w)
    exact ih (dropEnds w).length (by omega) (dropEnds w) rfl (dropEnds p) hshorter

theorem Solid.ne_removeSuffix {k : Text} (hk : Solid k) (w p : Text) :
    p ++ (k ++ dropEnds w) ≠ removeSuffix museEnd w := by
  intro h
  rw [← dropEnds_removeSuffix] at h
  exact hk.ne _ p h.symm

/-- What follows solid text, with all its markers dropped, is never what
`_drop_recipient` leaves of it. -/
theorem Solid.ne_dropRecipient {k : Text} (hk : Solid k) (p z : Text) :
    dropEnds (p ++ (k ++ z)) ≠ dropRecipient z := by
  rw [hk.2, dropRecipient]
  cases hcut : partition museMessageStart z with
  | none => exact hk.ne_removeSuffix z (dropEnds p)
  | some q =>
    obtain ⟨b, w⟩ := q
    have hz := (partition_eq_some.1 hcut).1
    have hsame : dropEnds p ++ (k ++ dropEnds z) =
        (dropEnds p ++ (k ++ dropEnds b)) ++ (museMessageStart ++ dropEnds w) := by
      rw [hz, solid_museMessageStart.2]
      simp only [List.append_assoc]
    rw [hsame]
    exact solid_museMessageStart.ne_removeSuffix w _

/-- The texts on which the Muse-Glimmer stream and `extract` agree: a reasoning
channel opens the text, or none comes, and an end-of-turn marker stands at the end
of the message only; or an empty reasoning channel ends a recipient that never got
a message. -/
def Agrees (text : Text) : Prop :=
  (∃ y, text = museReasoningStart ++ y ∧
    ∀ r z, partition museChannelStart y = some (r, z) →
      ∀ b w, partition museMessageStart z = some (b, w) → EndsOnly w) ∨
  (¬ museReasoningStart <:+: text ∧
    ((∃ a w, " to=".toList <+: text ∧ partition museMessageStart text = some (a, w) ∧
        EndsOnly w) ∨
      partition museMessageStart text = none ∧ (" to=".toList <+: text ∨ EndsOnly text))) ∨
  ∃ x, text = x ++ museReasoningStart ∧ " to=".toList <+: x ∧ ¬ museMessageStart <:+: x

/-- The split of a reasoning channel against what the stream gives of it. -/
theorem channel_matches_iff (y : Text) : Matches (channel y) (splitChannel y) ↔
    ∀ r z, partition museChannelStart y = some (r, z) →
      ∀ b w, partition museMessageStart z = some (b, w) → EndsOnly w := by
  unfold channel splitChannel
  cases hcut : partition museChannelStart y with
  | none =>
    refine iff_of_true ?_ fun r z h => nomatch h
    exact (matches_iff _ y []).2 ⟨only_self _ _, rfl⟩
  | some p =>
    obtain ⟨r, z⟩ := p
    simp only [matches_iff, only_self, only_content_reasoning, only_reasoning_content,
      List.append_nil, List.nil_append, true_and]
    unfold message dropRecipient
    cases hmessage : partition museMessageStart z with
    | none =>
      refine iff_of_true rfl ?_
      intro r' z' heq b w hbw
      obtain ⟨rfl, rfl⟩ := Prod.mk.inj (Option.some.inj heq)
      rw [hmessage] at hbw
      cases hbw
    | some q =>
      obtain ⟨b, w⟩ := q
      simp only [dropEnds_eq_removeSuffix_iff]
      constructor
      · intro h r' z' heq b' w' hbw
        obtain ⟨rfl, rfl⟩ := Prod.mk.inj (Option.some.inj heq)
        rw [hmessage] at hbw
        obtain ⟨rfl, rfl⟩ := Prod.mk.inj (Option.some.inj hbw)
        exact h
      · exact fun h => h r z rfl b w hmessage

theorem museMessage_infix_start : museMessageStart <:+: museReasoningStart :=
  ⟨" to=self".toList, [], by decide⟩

theorem museEnd_not_infix_start : ¬ museEnd <:+: museReasoningStart := by
  rw [← partition_eq_none museEnd_ne]
  decide

/-- A text that an end of a recipient precedes is not a reasoning header. -/
theorem not_recipient_start {x : Text} (hx : ¬ museMessageStart <:+: x)
    (hto : " to=".toList <+: x) : ¬ museReasoningStart <+: x ++ museReasoningStart := by
  intro hpre
  have hhere : museReasoningStart <+: (x ++ museReasoningStart).drop x.length := by
    rw [List.drop_left]
  have hpos : 0 < x.length := by
    have hle := hto.length_le
    have hfour : " to=".toList.length = 4 := by decide
    omega
  have hle := headed_museReasoningStart.apart headed_museReasoningStart (i := 0) hpre hhere hpos
  apply hx
  apply museMessage_infix_start.trans
  apply List.IsPrefix.isInfix
  apply List.prefix_of_prefix_length_le hpre (List.prefix_append _ _)
  omega

/-- The content of a text that no reasoning channel opens. -/
def plain (text : Text) : Text :=
  if text <+: museReasoningStart ∨ " to=".toList <+: text then message text
  else dropEnds text

theorem response_plain {text : Text} (h : ¬ museReasoningStart <+: text) :
    response text .reasoning = [] ∧ response text .content = plain text := by
  unfold response plain
  rw [if_neg h, if_neg h]
  split
  · exact ⟨only_content_reasoning _, only_self _ _⟩
  · exact ⟨only_content_reasoning _, only_self _ _⟩

theorem plain_iff {text : Text} (hno : ¬ museReasoningStart <:+: text) :
    plain text = dropRecipient text ↔
    (∃ a w, " to=".toList <+: text ∧ partition museMessageStart text = some (a, w) ∧ EndsOnly w) ∨
      partition museMessageStart text = none ∧ (" to=".toList <+: text ∨ EndsOnly text) := by
  unfold plain
  cases hcut : partition museMessageStart text with
  | none =>
    have hrecipient : dropRecipient text = removeSuffix museEnd text := by
      rw [dropRecipient, hcut]
    have hmessage : message text = removeSuffix museEnd text := by
      rw [message, hcut]
    rw [hrecipient, hmessage]
    split
    · next hheader =>
        refine iff_of_true rfl (Or.inr ⟨rfl, ?_⟩)
        rcases hheader with hpre | hto
        · refine Or.inr ?_
          intro p q htext
          refine absurd ?_ museEnd_not_infix_start
          apply List.IsInfix.trans _ hpre.isInfix
          exact ⟨p, q, by rw [htext, List.append_assoc]⟩
        · exact Or.inl hto
    · next hheader =>
        rw [dropEnds_eq_removeSuffix_iff]
        constructor
        · exact fun h => Or.inr ⟨rfl, Or.inr h⟩
        · intro h
          rcases h with h | h
          · obtain ⟨a, w, -, hsome, -⟩ := h
            cases hsome
          · exact h.2.resolve_left fun hto => hheader (Or.inr hto)
  | some p =>
    obtain ⟨a, w⟩ := p
    have hrecipient : dropRecipient text = removeSuffix museEnd w := by
      rw [dropRecipient, hcut]
    have hmessage : message text = dropEnds w := by
      rw [message, hcut]
    have hwait : ¬ text <+: museReasoningStart := by
      intro hpre
      have hstart : ¬ museReasoningStart <+: text := fun h => hno h.isInfix
      rw [partition_message_none hpre hstart] at hcut
      cases hcut
    rw [hrecipient, hmessage]
    by_cases hto : " to=".toList <+: text
    · rw [if_pos (Or.inr hto), dropEnds_eq_removeSuffix_iff]
      constructor
      · exact fun h => Or.inl ⟨a, w, hto, rfl, h⟩
      · intro h
        rcases h with h | h
        · obtain ⟨a', w', -, heq, h⟩ := h
          obtain ⟨rfl, rfl⟩ := Prod.mk.inj (Option.some.inj heq)
          exact h
        · cases h.1
    · have hneither : ¬ (text <+: museReasoningStart ∨ " to=".toList <+: text) :=
        not_or.2 ⟨hwait, hto⟩
      rw [if_neg hneither, (partition_eq_some.1 hcut).1, solid_museMessageStart.2]
      refine iff_of_false (solid_museMessageStart.ne_removeSuffix w _) ?_
      intro h
      rcases h with h | h
      · obtain ⟨a', w', hto', -⟩ := h
        rw [(partition_eq_some.1 hcut).1] at hto
        exact hto hto'
      · cases h.1

/-- The content the stream gives of a text with a late reasoning channel: all but
the text up to a message, its markers dropped. -/
theorem late_content {x y : Text} (hx : x ≠ []) :
    ¬ (" to=".toList <+: x ∧ ¬ museMessageStart <:+: x) ∧
        (∃ v, plain (x ++ (museReasoningStart ++ y)) = dropEnds (v ++ (museMessageStart ++ y))) ∨
      (" to=".toList <+: x ∧ ¬ museMessageStart <:+: x) ∧
        plain (x ++ (museReasoningStart ++ y)) = dropEnds y := by
  unfold plain
  have hstart : museReasoningStart = " to=self".toList ++ museMessageStart := by decide
  have hpos := List.length_pos_iff.2 hx
  have hlong : ¬ x ++ (museReasoningStart ++ y) <+: museReasoningStart := by
    intro hpre
    have hle := hpre.length_le
    simp only [List.length_append] at hle
    omega
  have hheaded : Headed ' ' " to=".toList := ⟨"to=".toList, by decide, by decide⟩
  by_cases hto : " to=".toList <+: x ++ (museReasoningStart ++ y)
  · rw [if_pos (Or.inr hto)]
    have htox : " to=".toList <+: x := by
      have hle := hheaded.apart headed_museReasoningStart (i := 0) hto
        (prefix_drop_left x museReasoningStart y) hpos
      exact List.prefix_of_prefix_length_le hto (List.prefix_append _ _) (by omega)
    by_cases hmessage : museMessageStart <:+: x
    · -- a message starts before the reasoning channel
      left
      cases hcutx : partition museMessageStart x with
      | none => exact absurd hmessage ((partition_eq_none museMessageStart_ne).1 hcutx)
      | some p =>
        obtain ⟨a, w⟩ := p
        refine ⟨fun h => h.2 hmessage, w ++ " to=self".toList, ?_⟩
        rw [message, partition_append_of_some hcutx, hstart]
        simp only [List.append_assoc]
    · right
      have habsent : ¬ museMessageStart <:+: x ++ " to=self".toList := by
        intro hoccurs
        obtain ⟨j, hj⟩ := infix_iff_exists_drop.1 hoccurs
        have hlen := hj.length_le
        have hmessageLen : museMessageStart.length = 11 := by decide
        rw [List.length_drop, List.length_append] at hlen
        by_cases hin : j + museMessageStart.length ≤ x.length
        · apply hmessage
          rw [infix_iff_exists_drop]
          exact ⟨j, prefix_drop_of_append hj hin⟩
        · -- it would hold the blank before the recipient
          have hself : " to=self".toList.length = 8 := by decide
          have hblank : (x ++ " to=self".toList)[x.length]? = some ' ' := by
            rw [List.getElem?_append_right (Nat.le_refl _), Nat.sub_self]
            decide
          obtain ⟨r, hr⟩ := hj
          have hget := congrArg (·[x.length - j]?) hr
          simp only [List.getElem?_drop] at hget
          rw [Nat.add_sub_of_le (by omega), hblank,
            List.getElem?_append_left (by omega)] at hget
          exact absurd (List.mem_of_getElem? hget) (by decide)
      refine ⟨⟨htox, hmessage⟩, ?_⟩
      have hcut : partition museMessageStart (x ++ (museReasoningStart ++ y)) =
          some (x ++ " to=self".toList, y) := by
        have hcut := partition_append (b := y) headed_museMessageStart habsent
        rw [← hcut, hstart]
        simp only [List.append_assoc]
      rw [message, hcut]
  · rw [if_neg (not_or.2 ⟨hlong, hto⟩)]
    left
    refine ⟨fun h => hto (h.1.trans (List.prefix_append _ _)), x ++ " to=self".toList, ?_⟩
    rw [hstart]
    simp only [List.append_assoc]

/-- With a reasoning channel that does not open the text. -/
theorem late_iff {x y : Text} (hx : x ≠ []) {stream : Field → Text}
    (hreasoning : stream .reasoning = [])
    (hcontent : stream .content = plain (x ++ (museReasoningStart ++ y))) :
    Matches stream (splitChannel y) ↔ y = [] ∧ " to=".toList <+: x ∧ ¬ museMessageStart <:+: x := by
  unfold splitChannel
  have hlate := late_content (y := y) hx
  rw [← hcontent] at hlate
  cases hcut : partition museChannelStart y with
  | none =>
    have hmatch := matches_iff stream y []
    rw [orNone_nil, hreasoning] at hmatch
    simp only
    rw [hmatch]
    constructor
    · intro h
      obtain ⟨hy, hempty⟩ := h
      rcases hlate with hv | hv
      · obtain ⟨-, v, hv⟩ := hv
        rw [hempty, solid_museMessageStart.2] at hv
        have hnil := (List.append_eq_nil_iff.1 hv.symm).2
        exact absurd (List.append_eq_nil_iff.1 hnil).1 museMessageStart_ne
      · exact ⟨hy.symm, hv.1⟩
    · intro h
      obtain ⟨rfl, hrecipient⟩ := h
      rcases hlate with hv | hv
      · exact absurd hrecipient hv.1
      · exact ⟨rfl, by rw [hv.2, dropEnds_nil]⟩
  | some p =>
    obtain ⟨r, z⟩ := p
    have hy := (partition_eq_some.1 hcut).1
    simp only [matches_iff]
    refine iff_of_false ?_ ?_
    · intro h
      rcases hlate with hv | hv
      · obtain ⟨-, v, hv⟩ := hv
        apply solid_museChannelStart.ne_dropRecipient (v ++ (museMessageStart ++ r)) z
        rw [← h.2, hv, hy]
        simp only [List.append_assoc]
      · apply solid_museChannelStart.ne_dropRecipient r z
        rw [← h.2, hv.2, hy]
    · intro h
      rw [h.1] at hy
      have hlens := congrArg List.length hy
      have hpos := List.length_pos_iff.2 museChannelStart_ne
      simp only [List.length_append, List.length_nil] at hlens
      omega

/-- Where the Muse-Glimmer stream and `extract` agree. -/
theorem agrees_iff (text : Text) : Matches (response text) (extract text) ↔ Agrees text := by
  unfold Agrees
  by_cases hstart : museReasoningStart <+: text
  · obtain ⟨y, rfl⟩ := hstart
    have hoccurs : museReasoningStart <:+: museReasoningStart ++ y :=
      (List.prefix_append _ _).isInfix
    have hresponse : response (museReasoningStart ++ y) = channel y := by
      funext f
      rw [response, if_pos (List.prefix_append _ _), List.drop_left]
    have hextract : extract (museReasoningStart ++ y) = splitChannel y := by
      unfold extract
      rw [if_pos (List.isPrefixOf_iff_prefix.2 (List.prefix_append _ _)), List.drop_left]
    rw [hresponse, hextract, channel_matches_iff]
    constructor
    · exact fun h => Or.inl ⟨y, rfl, h⟩
    · intro h
      rcases h with h | h | h
      · obtain ⟨y', hy, h⟩ := h
        rwa [List.append_cancel_left hy]
      · exact absurd hoccurs h.1
      · obtain ⟨x, htext, hto, hx⟩ := h
        have hpre : museReasoningStart <+: x ++ museReasoningStart :=
          htext ▸ List.prefix_append _ _
        exact absurd hpre (not_recipient_start hx hto)
  · obtain ⟨hreasoning, hcontent⟩ := response_plain hstart
    have hstart' := mt List.isPrefixOf_iff_prefix.1 hstart
    cases hcut : partition museReasoningStart text with
    | none =>
      have hno := (partition_eq_none headed_museReasoningStart.ne_nil).1 hcut
      have hextract : extract text = (none, orNone (dropRecipient text)) := by
        unfold extract
        rw [if_neg hstart', hcut]
      have hmatch := matches_iff (response text) [] (dropRecipient text)
      rw [orNone_nil, hreasoning, hcontent] at hmatch
      rw [hextract, hmatch, plain_iff hno]
      constructor
      · exact fun h => Or.inr (Or.inl ⟨hno, h.2⟩)
      · intro h
        rcases h with h | h | h
        · obtain ⟨y, hy, -⟩ := h
          exact absurd (hy ▸ List.prefix_append _ _) hstart
        · exact ⟨rfl, h.2⟩
        · obtain ⟨x, htext, -, -⟩ := h
          exact absurd (htext ▸ (List.suffix_append _ _).isInfix) hno
    | some p =>
      obtain ⟨x, y⟩ := p
      have htext := (partition_eq_some.1 hcut).1
      have hoccurs : museReasoningStart <:+: text := ⟨x, y, by rw [htext, List.append_assoc]⟩
      have hx : x ≠ [] := by
        intro hnil
        rw [hnil, List.nil_append] at htext
        exact hstart (htext ▸ List.prefix_append _ _)
      have hextract : extract text = splitChannel y := by
        unfold extract
        rw [if_neg hstart', hcut]
      rw [hextract, late_iff hx hreasoning (htext ▸ hcontent)]
      constructor
      · intro h
        obtain ⟨rfl, h⟩ := h
        rw [List.append_nil] at htext
        exact Or.inr (Or.inr ⟨x, htext, h⟩)
      · intro h
        rcases h with h | h | h
        · obtain ⟨y', hy, -⟩ := h
          exact absurd (hy ▸ List.prefix_append _ _) hstart
        · exact absurd hoccurs h.1
        · obtain ⟨x', htext', hto, hmessage⟩ := h
          have habsent : ¬ museReasoningStart <:+: x' :=
            fun hin => hmessage (museMessage_infix_start.trans hin)
          have hcut' := partition_append (b := []) headed_museReasoningStart habsent
          rw [List.append_nil, ← htext', hcut] at hcut'
          obtain ⟨rfl, rfl⟩ := Prod.mk.inj (Option.some.inj hcut')
          exact ⟨rfl, hto, hmessage⟩

end Muse

namespace Gemma

theorem thought_matches (text : Text) :
    Matches (thought text) (splitReasoning gemmaChannelEnd text) := by
  rw [splitReasoning_eq, matches_iff]
  unfold thought firstSpan
  cases partition gemmaChannelEnd text with
  | none => exact ⟨only_self _ _, rfl⟩
  | some p => simp

/-- The Gemma 4 stream and `extract` agree on every text. -/
theorem agrees (hint : Bool) (text : Text) :
    Matches (State.whole hint .start text) (extract text (some hint)) := by
  unfold State.whole extract
  by_cases hstart : gemmaChannelStart <+: text
  · rw [if_pos (List.isPrefixOf_iff_prefix.2 hstart)]
    simp only [hstart, if_true]
    exact thought_matches _
  · rw [if_neg (mt List.isPrefixOf_iff_prefix.1 hstart)]
    simp only [hstart, if_false]
    cases hint with
    | true => exact thought_matches text
    | false =>
      have hmatch := matches_iff (only .content text) [] text
      exact hmatch.2 ⟨only_content_reasoning _, only_self _ _⟩

end Gemma

/-- The parsers the registry holds; the think tags serve several names. -/
inductive Registered where
  | thinking
  | museGlimmer
  | gemma4

namespace Registered

/-- `extract(text, starts_open=hint)` -/
def extract (p : Registered) (hint : Bool) (text : Text) : Option Text × Option Text :=
  match p with
  | .thinking => Reasoning.thinking.extract text
  | .museGlimmer => Muse.extract text
  | .gemma4 => Gemma.extract text (some hint)

/-- `stream(allow_implicit=hint)`, the think tags with their default, fed with the
chunks and flushed. -/
def streamed (p : Registered) (hint : Bool) (chunks : List Text) : List ReasoningDelta :=
  match p with
  | .thinking =>
    run StreamingReasoningParser.feed StreamingReasoningParser.flush
      (Reasoning.thinking.stream true) chunks
  | .museGlimmer => run Muse.Stream.feed Muse.Stream.flush Muse.stream chunks
  | .gemma4 => run Gemma.Stream.feed Gemma.Stream.flush (Gemma.stream hint) chunks

/-- The texts on which the parser's stream and its split agree. -/
def AgreesOn (p : Registered) (text : Text) : Prop :=
  match p with
  | .thinking => ThinkAgrees text
  | .museGlimmer => Muse.Agrees text
  | .gemma4 => True

/-- **Streaming against one-shot reasoning.** For every division into chunks the
joined deltas are the reasoning and the content of `extract` exactly on the texts
of `AgreesOn`. -/
theorem streamed_iff (p : Registered) (hint : Bool) (chunks : List Text) :
    Matches (joined (p.streamed hint chunks)) (p.extract hint chunks.flatten) ↔
      p.AgreesOn chunks.flatten := by
  cases p with
  | thinking =>
    have hrun : joined (Registered.thinking.streamed hint chunks) =
        thinkResponse chunks.flatten := funext (thinking_run true chunks)
    rw [hrun]
    exact thinking_agrees_iff _
  | museGlimmer =>
    have hrun : joined (Registered.museGlimmer.streamed hint chunks) =
        Muse.response chunks.flatten := funext (Muse.run_eq chunks)
    rw [hrun]
    exact Muse.agrees_iff _
  | gemma4 =>
    have hrun : joined (Registered.gemma4.streamed hint chunks) =
        Gemma.State.whole hint .start chunks.flatten := funext (Gemma.run_eq hint chunks)
    rw [hrun]
    exact iff_of_true (Gemma.agrees hint _) trivial

/-- A second reasoning span is reasoning to the stream and content, tags and all, to
`extract`. -/
theorem not_streamed_two_spans :
    ¬ ∀ (p : Registered) (hint : Bool) (chunks : List Text),
      Matches (joined (p.streamed hint chunks)) (p.extract hint chunks.flatten) := by
  intro hall
  have hmatch := hall .thinking true ["<think>a</think>b<think>c</think>d".toList]
  have hstream : joined (Registered.thinking.streamed true
      ["<think>a</think>b<think>c</think>d".toList]) .reasoning = "ac".toList := by
    decide +kernel
  have hextract : (Registered.thinking.extract true
      "<think>a</think>b<think>c</think>d".toList).1 = some "a".toList := by
    decide +kernel
  have hsame := hmatch.1
  rw [hstream] at hsame
  have hflat : (["<think>a</think>b<think>c</think>d".toList] : List Text).flatten =
      "<think>a</think>b<think>c</think>d".toList := List.append_nil _
  rw [hflat, hextract] at hsame
  exact absurd hsame (by decide)

end Registered

end EdgeLLM.Ports.Reasoning
