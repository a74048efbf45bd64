import EdgeLLM.Ports.ReasoningParser

/-!
# What the reasoning streams give together

For each streaming parser the deltas of a whole response as one function of its
text: the division into chunks does not enter. A state stands for the text it
holds followed by the text to come (`whole`).
-/

namespace EdgeLLM.Ports.Reasoning

open Verified Verified.Splitting

/-- Text of one field. -/
def only (field : Field) (text : Text) (f : Field) : Text := if f = field then text else []

theorem joined_append (xs ys : List ReasoningDelta) (f : Field) :
    joined (xs ++ ys) f = joined xs f ++ joined ys f := by
  simp [joined]

@[simp] theorem joined_nil (f : Field) : joined [] f = [] := rfl

theorem joined_singleton (field : Field) (text : Text) (f : Field) :
    joined [{ field := field, text := text }] f = only field text f := by
  cases field <;> cases f <;> simp [joined, only]

theorem joined_delta (field : Field) (text : Text) (f : Field) :
    joined (delta field text) f = only field text f := by
  unfold delta
  split
  · next h => simp [only, h]
  · exact joined_singleton field text f

theorem only_append (field : Field) (a b : Text) (f : Field) :
    only field (a ++ b) f = only field a f ++ only field b f := by
  unfold only
  split <;> simp

@[simp] theorem only_nil (field f : Field) : only field [] f = [] := by
  simp [only]

section Gives

variable {σ : Type} {Inv : σ → Prop} {whole : σ → Text → Field → Text}

/-- A call gives out a first part of what `w` gives of the text to come, and leaves the
rest to the state. -/
structure Gives (Inv : σ → Prop) (whole : σ → Text → Field → Text)
    (call : List ReasoningDelta × σ) (w : Text → Field → Text) : Prop where
  inv : Inv call.2
  whole_eq : ∀ u f, w u f = joined call.1 f ++ whole call.2 u f

theorem Gives.stay (s : σ) (h : Inv s) : Gives Inv whole ([], s) (whole s) :=
  ⟨h, fun _ _ => rfl⟩

theorem Gives.congr {call : List ReasoningDelta × σ} {w v : Text → Field → Text}
    (h : Gives Inv whole call w) (hv : ∀ u f, v u f = w u f) : Gives Inv whole call v := by
  refine ⟨h.inv, ?_⟩
  intro u f
  rw [hv, h.whole_eq]

theorem Gives.after {call : List ReasoningDelta × σ} {w v : Text → Field → Text} {field : Field}
    {text : Text} (h : Gives Inv whole call w) (hv : ∀ u f, v u f = only field text f ++ w u f) :
    Gives Inv whole (delta field text ++ call.1, call.2) v := by
  refine ⟨h.inv, ?_⟩
  intro u f
  rw [hv, h.whole_eq, joined_append, joined_delta, List.append_assoc]

theorem Gives.last {s : σ} {v : Text → Field → Text} {field : Field} {text : Text} (h : Inv s)
    (hv : ∀ u f, v u f = only field text f ++ whole s u f) :
    Gives Inv whole (delta field text, s) v := by
  refine ⟨h, ?_⟩
  intro u f
  rw [hv, joined_delta]

theorem online_of_gives {feed : σ → Text → List ReasoningDelta × σ}
    {flush : σ → List ReasoningDelta}
    (hfeed : ∀ {s} c, Inv s → Gives Inv whole (feed s c) fun u => whole s (c ++ u))
    (hflush : ∀ {s}, Inv s → ∀ f, joined (flush s) f = whole s [] f) :
    Online feed flush joined Inv whole where
  out_append := joined_append
  feed_inv := fun c hs => (hfeed c hs).inv
  feed_whole := fun c u f hs => (hfeed c hs).whole_eq u f
  flush_whole := fun f hs => hflush hs f

end Gives

section CutsAt

/-- One field comes up to the first marker, and `rest` behind it. -/
def CutsAt (marker : Text) (field : Field) (rest w : Text → Field → Text) : Prop :=
  ∀ text f, w text f =
    match partition marker text with
    | none => only field text f
    | some (found, behind) => only field found f ++ rest behind f

variable {marker buffer : Text} {field : Field} {rest w : Text → Field → Text}

theorem partition_drop_none (hmarker : marker ≠ []) (h : partition marker buffer = none)
    (n : Nat) : partition marker (buffer.drop n) = none := by
  rw [partition_eq_none hmarker] at h ⊢
  intro hoccurs
  exact h (hoccurs.trans (List.drop_suffix n buffer).isInfix)

theorem partition_short (hmarker : marker ≠ []) (h : buffer.length < marker.length) :
    partition marker buffer = none := by
  rw [partition_eq_none hmarker]
  intro hoccurs
  have hle := hoccurs.length_le
  omega

theorem CutsAt.found (h : CutsAt marker field rest w) {found behind : Text}
    (hcut : partition marker buffer = some (found, behind)) (u : Text) (f : Field) :
    w (buffer ++ u) f = only field found f ++ rest (behind ++ u) f := by
  rw [h, partition_append_of_some hcut]

theorem CutsAt.settled (h : CutsAt marker field rest w) (hmarker : marker ≠ []) {e k : Text}
    (hsettled : Settled marker e k) (u : Text) (f : Field) :
    w (e ++ (k ++ u)) f = only field e f ++ w (k ++ u) f := by
  rw [h, h (k ++ u), hsettled.partition_append hmarker]
  cases partition marker (k ++ u) with
  | none => exact only_append _ _ _ _
  | some p =>
    dsimp only [Option.map_some]
    rw [only_append, List.append_assoc]

theorem CutsAt.take (h : CutsAt marker field rest w) (hmarker : marker ≠ []) {n : Nat}
    (hsettled : Settled marker (buffer.take n) (buffer.drop n)) (u : Text) (f : Field) :
    w (buffer ++ u) f = only field (buffer.take n) f ++ w (buffer.drop n ++ u) f := by
  have hsplit := h.settled hmarker hsettled u f
  rwa [← List.append_assoc, List.take_append_drop] at hsplit

theorem CutsAt.keep (h : CutsAt marker field rest w) (hmarker : marker ≠ [])
    (hcut : partition marker buffer = none) (hlong : ¬ buffer.length ≤ marker.length - 1)
    (u : Text) (f : Field) :
    w (buffer ++ u) f = only field (buffer.take (buffer.length - (marker.length - 1))) f ++
      w (buffer.drop (buffer.length - (marker.length - 1)) ++ u) f := by
  have hpos := List.length_pos_iff.2 hmarker
  apply h.take hmarker
  apply Settled.of_length
  · rw [List.take_append_drop]
    exact (partition_eq_none hmarker).1 hcut
  · rw [List.length_drop]
    omega

end CutsAt

section Thinking

/-- The spans of a text, from inside a reasoning span or not. -/
def spans (startToken endToken : Text) (reasoning : Bool) (text : Text) (f : Field) : Text :=
  match partition (spanMarker startToken endToken reasoning) text with
  | none => only (fieldOf reasoning) text f
  | some (found, behind) =>
    if behind.length < text.length then
      only (fieldOf reasoning) found f ++ spans startToken endToken (!reasoning) behind f
    else []
termination_by text.length

variable {startToken endToken : Text}

theorem spanMarker_ne (hstart : startToken ≠ []) (hend : endToken ≠ []) (reasoning : Bool) :
    spanMarker startToken endToken reasoning ≠ [] := by
  unfold spanMarker
  split
  · exact hend
  · exact hstart

theorem spans_of_none {reasoning : Bool} {text : Text}
    (h : partition (spanMarker startToken endToken reasoning) text = none) (f : Field) :
    spans startToken endToken reasoning text f = only (fieldOf reasoning) text f := by
  rw [spans]
  split
  · rfl
  · next hsome => rw [h] at hsome; cases hsome

theorem spans_of_some (hstart : startToken ≠ []) (hend : endToken ≠ []) {reasoning : Bool}
    {text found behind : Text}
    (h : partition (spanMarker startToken endToken reasoning) text = some (found, behind))
    (f : Field) : spans startToken endToken reasoning text f =
      only (fieldOf reasoning) found f ++ spans startToken endToken (!reasoning) behind f := by
  have hlen := partition_length h
  have hmarker := spanMarker_ne hstart hend reasoning
  have hpos := List.length_pos_iff.2 hmarker
  rw [spans]
  split
  · next hnone => rw [h] at hnone; cases hnone
  · next found' behind' hsome =>
      rw [h] at hsome
      cases hsome
      rw [if_pos (by omega)]

theorem spans_cutsAt (hstart : startToken ≠ []) (hend : endToken ≠ []) (reasoning : Bool) :
    CutsAt (spanMarker startToken endToken reasoning) (fieldOf reasoning)
      (spans startToken endToken !reasoning) (spans startToken endToken reasoning) := by
  intro text f
  cases hcut : partition (spanMarker startToken endToken reasoning) text with
  | none => exact spans_of_none hcut f
  | some p => exact spans_of_some hstart hend hcut f

namespace StreamingReasoningParser

/-- The state of the loop: a span and a text shorter than its marker. -/
def Short (startToken endToken : Text) (s : Bool × Text) : Prop :=
  s.2.length < (spanMarker startToken endToken s.1).length

/-- A loop with turns enough gives out a first part of the spans, and holds less
than a marker. -/
theorem drain_spec (hstart : startToken ≠ []) (hend : endToken ≠ []) (fuel : Nat) :
    ∀ (reasoning : Bool) (buffer : Text), buffer.length < fuel →
      Gives (Short startToken endToken) (fun s u => spans startToken endToken s.1 (s.2 ++ u))
        (drain startToken endToken fuel reasoning buffer)
        fun u => spans startToken endToken reasoning (buffer ++ u) := by
  induction fuel with
  | zero => exact fun _ _ h => absurd h (Nat.not_lt_zero _)
  | succ fuel ih =>
    intro reasoning buffer hfuel
    have hmarker := spanMarker_ne hstart hend reasoning
    have hpos := List.length_pos_iff.2 hmarker
    have hcuts := spans_cutsAt hstart hend reasoning
    rw [drain]
    by_cases hempty : buffer = []
    · rw [if_pos hempty, hempty]
      exact Gives.stay (reasoning, []) hpos
    rw [if_neg hempty]
    cases hcut : partition (spanMarker startToken endToken reasoning) buffer with
    | some p =>
      obtain ⟨found, behind⟩ := p
      have hlen := partition_length hcut
      exact (ih (!reasoning) behind (by omega)).after (hcuts.found hcut)
    | none =>
      simp only
      by_cases hkeep : buffer.length ≤ (spanMarker startToken endToken reasoning).length - 1
      · rw [if_pos hkeep]
        have hshort : buffer.length < (spanMarker startToken endToken reasoning).length := by omega
        exact Gives.stay (reasoning, buffer) hshort
      rw [if_neg hkeep]
      exact (ih reasoning _ (by rw [List.length_drop]; omega)).after (hcuts.keep hmarker hcut hkeep)

/-- A loop over less than a marker gives out nothing. -/
theorem drain_short (hstart : startToken ≠ []) (hend : endToken ≠ []) {fuel : Nat}
    {reasoning : Bool} {buffer : Text} (hshort : Short startToken endToken (reasoning, buffer)) :
    drain startToken endToken (fuel + 1) reasoning buffer = ([], reasoning, buffer) := by
  have hle : buffer.length ≤ (spanMarker startToken endToken reasoning).length - 1 :=
    Nat.le_sub_one_of_lt hshort
  rw [drain, partition_short (spanMarker_ne hstart hend reasoning) hshort]
  dsimp only
  rw [if_pos hle, ite_self]

variable {s : StreamingReasoningParser}

/-- The text that is held has not been decided on: it is too short for a start
token while none has been looked for, and for a marker afterwards. -/
structure Inv (s : StreamingReasoningParser) : Prop where
  start_ne : s.startToken ≠ []
  start_le : s.startToken.length ≤ s.endToken.length
  opening : s.atStart = true → s.reasoning = s.allowImplicit ∧
    s.buffer.length < s.startToken.length
  short : s.buffer.length < (spanMarker s.startToken s.endToken s.reasoning).length

/-- What a text gives from the start of a response. -/
def response (startToken endToken : Text) (allowImplicit : Bool) (text : Text) (f : Field) : Text :=
  if startToken.isPrefixOf text then
    spans startToken endToken true (text.drop startToken.length) f
  else spans startToken endToken allowImplicit text f

/-- What the held text and the text to come give. -/
def whole (s : StreamingReasoningParser) (u : Text) (f : Field) : Text :=
  if s.atStart then response s.startToken s.endToken s.allowImplicit (s.buffer ++ u) f
  else spans s.startToken s.endToken s.reasoning (s.buffer ++ u) f

theorem Inv.end_ne (h : s.Inv) : s.endToken ≠ [] := by
  intro hempty
  have hle := h.start_le
  rw [hempty] at hle
  exact h.start_ne (List.length_eq_zero_iff.1 (Nat.le_zero.1 hle))

/-- A state whose start has been decided on, run through the loop. -/
def looped (s : StreamingReasoningParser) : List ReasoningDelta × StreamingReasoningParser :=
  let loop := drain s.startToken s.endToken (s.buffer.length + 1) s.reasoning s.buffer
  (loop.1, { s with reasoning := loop.2.1, buffer := loop.2.2 })

theorem feed_eq (s : StreamingReasoningParser) (c : Text) :
    s.feed c = { s with buffer := s.buffer ++ c }.begin.looped := rfl

theorem looped_spec (hstart : s.startToken ≠ []) (hle : s.startToken.length ≤ s.endToken.length)
    (hend : s.endToken ≠ []) (hat : s.atStart = false) :
    Gives Inv whole s.looped fun u => spans s.startToken s.endToken s.reasoning (s.buffer ++ u) := by
  have hdrain := drain_spec hstart hend (s.buffer.length + 1) s.reasoning s.buffer
    (Nat.lt_succ_self _)
  have hstays : s.looped.2.atStart = false := hat
  refine ⟨⟨hstart, hle, fun h => ?_, hdrain.inv⟩, ?_⟩
  · rw [hstays] at h
    cases h
  · intro u f
    rw [hdrain.whole_eq u f, whole, hstays, if_neg Bool.false_ne_true]
    rfl

theorem feed_spec (h : s.Inv) (c : Text) :
    Gives Inv whole (s.feed c) fun u => s.whole (c ++ u) := by
  have hend := h.end_ne
  obtain ⟨hstart, hle, hopening, hshort⟩ := h
  rw [feed_eq]
  set fed : StreamingReasoningParser := { s with buffer := s.buffer ++ c } with hfed
  by_cases hat : s.atStart = true
  · by_cases hbegins : s.startToken.isPrefixOf (s.buffer ++ c) = true
    · -- the text opens with a start token
      have hbegin : fed.begin =
          { s with
            buffer := (s.buffer ++ c).drop s.startToken.length
            reasoning := true
            atStart := false } := by
        simp only [hfed, begin, hat, hbegins, if_true]
      rw [hbegin]
      refine Gives.congr (looped_spec hstart hle hend rfl) ?_
      intro u f
      rw [List.isPrefixOf_iff_prefix] at hbegins
      have hmore : s.startToken.isPrefixOf (s.buffer ++ (c ++ u)) = true := by
        rw [List.isPrefixOf_iff_prefix, ← List.append_assoc]
        exact hbegins.trans (List.prefix_append _ _)
      rw [whole, if_pos hat, response, if_pos hmore, ← List.append_assoc,
        List.drop_append_of_le_length hbegins.length_le]
    by_cases hlong : s.startToken.length ≤ (s.buffer ++ c).length
    · -- it is long enough to show that it does not
      have hbegin : fed.begin =
          { s with
            buffer := s.buffer ++ c
            reasoning := s.allowImplicit
            atStart := false } := by
        simp only [hfed, begin, hat, hbegins, hlong, if_true, if_false, Bool.false_eq_true]
      rw [hbegin]
      refine Gives.congr (looped_spec hstart hle hend rfl) ?_
      intro u f
      have hmore : ¬ s.startToken.isPrefixOf (s.buffer ++ (c ++ u)) = true := by
        rw [List.isPrefixOf_iff_prefix] at hbegins ⊢
        rw [← List.append_assoc]
        intro hpre
        exact hbegins (List.prefix_of_prefix_length_le hpre (List.prefix_append _ _) hlong)
      rw [whole, if_pos hat, response, if_neg hmore, ← List.append_assoc]
    · -- still too short for a start token: the loop gives out nothing
      have hbegin : fed.begin = fed := by
        simp only [hfed, begin, hat, hbegins, hlong, if_true, if_false, Bool.false_eq_true]
      have hmarker : (s.buffer ++ c).length <
          (spanMarker s.startToken s.endToken s.reasoning).length := by
        unfold spanMarker
        split <;> omega
      have hlooped : fed.looped = ([], fed) := by
        simp only [hfed, looped, drain_short hstart hend hmarker]
      rw [hbegin, hlooped]
      apply Gives.congr (Gives.stay _
        ⟨hstart, hle, fun _ => ⟨(hopening hat).1, Nat.lt_of_not_le hlong⟩, hmarker⟩)
      intro u f
      simp only [hfed, whole, List.append_assoc]
  · have hfalse : s.atStart = false := Bool.eq_false_iff.2 hat
    have hbegin : fed.begin = fed := by
      simp only [hfed, begin, hfalse, if_false, Bool.false_eq_true]
    rw [hbegin]
    refine Gives.congr (looped_spec hstart hle hend hfalse) ?_
    intro u f
    rw [whole, if_neg hat, ← List.append_assoc]

theorem spans_short (hstart : startToken ≠ []) (hend : endToken ≠ []) {reasoning : Bool}
    {text : Text} (h : text.length < (spanMarker startToken endToken reasoning).length)
    (f : Field) : spans startToken endToken reasoning text f = only (fieldOf reasoning) text f :=
  spans_of_none (partition_short (spanMarker_ne hstart hend reasoning) h) f

theorem flush_spec (h : s.Inv) (f : Field) : joined s.flush f = s.whole [] f := by
  have hend := h.end_ne
  obtain ⟨hstart, hle, hopening, hshort⟩ := h
  rw [whole, List.append_nil]
  by_cases hat : s.atStart = true
  · obtain ⟨himplicit, hlen⟩ := hopening hat
    have hno : ¬ s.startToken.isPrefixOf s.buffer = true := by
      rw [List.isPrefixOf_iff_prefix]
      intro hpre
      have hle := hpre.length_le
      omega
    rw [himplicit] at hshort
    rw [if_pos hat, response, if_neg hno, spans_short hstart hend hshort, flush, hat]
    by_cases hempty : s.buffer = []
    · simp [hempty]
    · rw [if_neg hempty, if_pos rfl, joined_singleton]
  · rw [if_neg hat, spans_short hstart hend hshort, flush]
    by_cases hempty : s.buffer = []
    · simp [hempty]
    · rw [if_neg hempty, if_neg hat, joined_singleton]

theorem online : Online feed flush joined Inv whole :=
  online_of_gives (fun c h => feed_spec h c) flush_spec

end StreamingReasoningParser

theorem thinking_run (allowImplicit : Bool) (chunks : List Text) (f : Field) :
    joined (run StreamingReasoningParser.feed StreamingReasoningParser.flush
        (thinking.stream allowImplicit) chunks) f =
      StreamingReasoningParser.response thinking.startToken thinking.endToken allowImplicit
        chunks.flatten f := by
  have hinv : (thinking.stream allowImplicit).Inv := by
    cases allowImplicit with
    | true => exact ⟨by decide, by decide, fun _ => ⟨rfl, by decide⟩, by decide⟩
    | false => exact ⟨by decide, by decide, fun _ => ⟨rfl, by decide⟩, by decide⟩
  exact StreamingReasoningParser.online.run_eq chunks hinv f

end Thinking

section Prefixes

variable {a b c : Text}

/-- A beginning of `b ++ c` that `b` does not begin is longer than `b`. -/
theorem prefix_append_cases (h : a <+: b ++ c) : a <+: b ∨ b <+: a := by
  rcases Nat.le_total a.length b.length with hle | hle
  · exact Or.inl (List.prefix_of_prefix_length_le h (List.prefix_append _ _) hle)
  · exact Or.inr (List.prefix_of_prefix_length_le (List.prefix_append _ _) h hle)

theorem not_prefix_append (ha : ¬ a <+: b) (hb : ¬ b <+: a) : ¬ a <+: b ++ c := by
  intro hpre
  rcases prefix_append_cases hpre with h | h
  · exact ha h
  · exact hb h

end Prefixes

namespace Muse

/-- The text without its end-of-turn markers. -/
def dropEnds (text : Text) : Text :=
  match partition museEnd text with
  | none => text
  | some (found, behind) =>
    if behind.length < text.length then found ++ dropEnds behind else []
termination_by text.length

theorem museEnd_ne : museEnd ≠ [] := by decide

theorem museMessageStart_ne : museMessageStart ≠ [] := by decide

theorem museChannelStart_ne : museChannelStart ≠ [] := by decide

variable {text buffer : Text}

theorem dropEnds_of_none (h : partition museEnd text = none) :
    dropEnds text = text := by
  rw [dropEnds, h]

theorem dropEnds_of_some {found behind : Text}
    (h : partition museEnd text = some (found, behind)) :
    dropEnds text = found ++ dropEnds behind := by
  have hlen := partition_length h
  have hpos := List.length_pos_iff.2 museEnd_ne
  rw [dropEnds, h]
  exact if_pos (by omega)

theorem dropEnds_cutsAt : CutsAt museEnd .content (fun text => only .content (dropEnds text))
      fun text => only .content (dropEnds text) := by
  intro text f
  cases hcut : partition museEnd text with
  | none =>
    dsimp only
    rw [dropEnds_of_none hcut]
  | some p =>
    dsimp only
    rw [dropEnds_of_some hcut, only_append]

/-- What follows the recipient of a channel. -/
def message (text : Text) : Text :=
  match partition museMessageStart text with
  | none => removeSuffix museEnd text
  | some (_, message) => dropEnds message

/-- What the text of a reasoning channel and what follows it give. -/
def channel (text : Text) (f : Field) : Text :=
  match partition museChannelStart text with
  | none => only .reasoning text f
  | some (found, behind) => only .reasoning found f ++ only .content (message behind) f

theorem channel_cutsAt :
    CutsAt museChannelStart .reasoning (fun text => only .content (message text)) channel :=
  fun _ _ => rfl

/-- What a whole response gives. -/
def response (text : Text) (f : Field) : Text :=
  if museReasoningStart <+: text then channel (text.drop museReasoningStart.length) f
  else if text <+: museReasoningStart ∨ " to=".toList <+: text then
    only .content (message text) f
  else only .content (dropEnds text) f

def State.whole : State → Text → Field → Text
  | .header, text => response text
  | .reasoning, text => channel text
  | .recipient, text => only .content (message text)
  | .content, text => only .content (dropEnds text)

/-- What a state may hold. -/
def State.Holds : State → Text → Prop
  | .header, buffer => buffer <+: museReasoningStart ∨
      " to=".toList <+: buffer ∧ ¬ museReasoningStart <+: buffer ∧
        partition museMessageStart buffer = none
  | .reasoning, buffer => partition museChannelStart buffer = none
  | .recipient, buffer => partition museMessageStart buffer = none
  | .content, buffer => partition museEnd buffer = none

/-- The turns a state needs beyond the characters it holds. -/
def State.extra : State → Nat
  | .header => 1
  | _ => 0

namespace Stream

/-- What the held text and the text to come give. -/
def whole (s : Stream) (u : Text) (f : Field) : Text := s.state.whole (s.buffer ++ u) f

def Holds (s : Stream) : Prop := s.state.Holds s.buffer

end Stream

theorem holds_nil (state : State) : state.Holds [] := by
  cases state with
  | header => exact Or.inl List.nil_prefix
  | reasoning => exact (by decide : partition museChannelStart [] = none)
  | recipient => exact (by decide : partition museMessageStart [] = none)
  | content => exact (by decide : partition museEnd [] = none)

theorem response_recipient (hwait : ¬ buffer <+: museReasoningStart)
    (hno : ¬ museReasoningStart <+: buffer) (hto : " to=".toList <+: buffer) (u : Text)
    (f : Field) : response (buffer ++ u) f = only .content (message (buffer ++ u)) f := by
  rw [response, if_neg (not_prefix_append hno hwait),
    if_pos (Or.inr (hto.trans (List.prefix_append _ _)))]

theorem response_content (hwait : ¬ buffer <+: museReasoningStart)
    (hno : ¬ museReasoningStart <+: buffer) (hto : ¬ " to=".toList <+: buffer) (u : Text)
    (f : Field) : response (buffer ++ u) f = only .content (dropEnds (buffer ++ u)) f := by
  have hneither : ¬ (buffer ++ u <+: museReasoningStart ∨ " to=".toList <+: buffer ++ u) := by
    intro h
    rcases h with h | h
    · exact hwait ((List.prefix_append _ _).trans h)
    · cases prefix_append_cases h with
      | inl h => exact hto h
      | inr h => exact hwait (h.trans (by decide))
  rw [response, if_neg (not_prefix_append hno hwait), if_neg hneither]

/-- A loop with turns enough gives out a first part of what the text gives. -/
theorem drain_spec (fuel : Nat) :
    ∀ (state : State) (buffer : Text), buffer.length + state.extra < fuel →
      Gives Stream.Holds Stream.whole (drain fuel state buffer) fun u =>
        state.whole (buffer ++ u) := by
  induction fuel with
  | zero => exact fun _ _ h => absurd h (Nat.not_lt_zero _)
  | succ fuel ih =>
    intro state buffer hfuel
    rw [drain.eq_def]
    dsimp only
    by_cases hempty : buffer = []
    · rw [if_pos hempty, hempty]
      exact Gives.stay (Stream.mk state []) (holds_nil state)
    rw [if_neg hempty]
    cases state with
    | header =>
      simp only [State.extra] at hfuel
      simp only [List.isPrefixOf_iff_prefix]
      by_cases hwait : buffer <+: museReasoningStart
      · rw [if_pos hwait]
        exact Gives.stay (Stream.mk .header buffer) (Or.inl hwait)
      rw [if_neg hwait]
      by_cases hstart : museReasoningStart <+: buffer
      · have hpos : 0 < museReasoningStart.length := by decide
        rw [if_pos hstart]
        apply (ih .reasoning _ (by simp only [State.extra, List.length_drop]; omega)).congr
        intro u f
        rw [State.whole, State.whole, response, if_pos (hstart.trans (List.prefix_append _ _)),
          List.drop_append_of_le_length hstart.length_le]
      rw [if_neg hstart]
      by_cases hto : " to=".toList <+: buffer
      · rw [if_pos hto]
        cases hcut : partition museMessageStart buffer with
        | none => exact Gives.stay (Stream.mk .header buffer) (Or.inr ⟨hto, hstart, hcut⟩)
        | some p =>
          obtain ⟨found, behind⟩ := p
          have hlen := partition_length hcut
          apply (ih .content behind (by simp only [State.extra]; omega)).congr
          intro u f
          rw [State.whole, State.whole, response_recipient hwait hstart hto, message,
            partition_append_of_some hcut u]
      · rw [if_neg hto]
        apply (ih .content buffer (by simp only [State.extra]; omega)).congr
        exact response_content hwait hstart hto
    | reasoning =>
      cases hcut : partition museChannelStart buffer with
      | some p =>
        obtain ⟨found, behind⟩ := p
        have hlen := partition_length hcut
        have hpos := List.length_pos_iff.2 museChannelStart_ne
        simp only [State.extra] at hfuel
        exact (ih .recipient behind (by simp only [State.extra]; omega)).after
          (channel_cutsAt.found hcut)
      | none =>
        by_cases hkeep : buffer.length ≤ museChannelStart.length - 1
        · simp only [hkeep, if_true]
          exact Gives.stay (Stream.mk .reasoning buffer) hcut
        · simp only [hkeep, if_false]
          exact Gives.last (partition_drop_none museChannelStart_ne hcut _)
            (channel_cutsAt.keep museChannelStart_ne hcut hkeep)
    | recipient =>
      cases hcut : partition museMessageStart buffer with
      | some p =>
        obtain ⟨found, behind⟩ := p
        have hlen := partition_length hcut
        have hpos := List.length_pos_iff.2 museMessageStart_ne
        simp only [State.extra] at hfuel
        apply (ih .content behind (by simp only [State.extra]; omega)).congr
        intro u f
        rw [State.whole, State.whole, message, partition_append_of_some hcut u]
      | none => exact Gives.stay (Stream.mk .recipient buffer) hcut
    | content =>
      cases hcut : partition museEnd buffer with
      | some p =>
        obtain ⟨found, behind⟩ := p
        have hlen := partition_length hcut
        have hpos := List.length_pos_iff.2 museEnd_ne
        simp only [State.extra] at hfuel
        exact (ih .content behind (by simp only [State.extra]; omega)).after
          (dropEnds_cutsAt.found hcut)
      | none =>
        by_cases hkeep : buffer.length ≤ museEnd.length - 1
        · simp only [hkeep, if_true]
          exact Gives.stay (Stream.mk .content buffer) hcut
        · simp only [hkeep, if_false]
          exact Gives.last (partition_drop_none museEnd_ne hcut _)
            (dropEnds_cutsAt.keep museEnd_ne hcut hkeep)

/-- A text that is still only the beginning of a reasoning header names no
message. -/
theorem partition_message_none (h : buffer <+: museReasoningStart)
    (hne : ¬ museReasoningStart <+: buffer) : partition museMessageStart buffer = none := by
  rw [partition_eq_none museMessageStart_ne, infix_iff_exists_drop]
  intro hex
  obtain ⟨k, hk⟩ := hex
  obtain ⟨r, hr⟩ := h
  have hfirst : partition museMessageStart museReasoningStart = some (" to=self".toList, []) := by
    decide
  have hlen : buffer.length < museReasoningStart.length := by
    apply Nat.lt_of_not_le
    intro hle
    apply hne
    have heq : r = [] := by
      have hlens := congrArg List.length hr
      rw [List.length_append] at hlens
      exact List.length_eq_zero_iff.1 (by omega)
    rw [heq, List.append_nil] at hr
    rw [hr]
  have hin := hk.length_le
  rw [List.length_drop] at hin
  have htotal : museReasoningStart.length = 19 := by decide
  have hmessage : museMessageStart.length = 11 := by decide
  have hself : " to=self".toList.length = 8 := by decide
  apply (partition_eq_some.1 hfirst).2 k (by omega)
  rw [← hr, List.drop_append_of_le_length (by omega)]
  exact hk.trans (List.prefix_append _ _)

theorem removeSuffix_of_none (h : partition museEnd text = none) :
    removeSuffix museEnd text = text := by
  rw [partition_eq_none museEnd_ne] at h
  unfold removeSuffix
  rw [if_neg]
  intro hsuffix
  exact h (List.isSuffixOf_iff_suffix.1 hsuffix).isInfix

theorem whole_nil (state : State) (f : Field) : state.whole [] f = [] := by
  have hmessage : message [] = [] := by decide
  cases state with
  | header =>
    rw [State.whole, response, if_neg (by decide), if_pos (Or.inl List.nil_prefix), hmessage,
      only_nil]
  | reasoning =>
    have hcut : partition museChannelStart [] = none := by decide
    rw [State.whole, channel, hcut]
    exact only_nil _ _
  | recipient => rw [State.whole, hmessage, only_nil]
  | content => rw [State.whole, dropEnds_of_none (by decide), only_nil]

theorem dropRecipient_eq_message (h : partition museMessageStart text = none) :
    dropRecipient text = message text := by
  rw [dropRecipient, message, h]

theorem flush_spec {s : Stream} (h : s.Holds) (f : Field) : joined s.flush f = s.whole [] f := by
  obtain ⟨state, buffer⟩ := s
  unfold Stream.flush Stream.whole
  rw [List.append_nil]
  by_cases hempty : buffer = []
  · rw [if_pos hempty, hempty, whole_nil, joined_nil]
  rw [if_neg hempty]
  cases state with
  | header =>
    show joined (delta .content (dropRecipient buffer)) f = response buffer f
    rw [joined_delta, response]
    by_cases hstart : museReasoningStart <+: buffer
    · -- the whole header and nothing more has come
      have hwhole : buffer = museReasoningStart := by
        rcases h with h | h
        · exact List.IsPrefix.eq_of_length_le h hstart.length_le
        · exact absurd hstart h.2.1
      have hrecipient : dropRecipient museReasoningStart = [] := by decide
      have hcut : partition museChannelStart [] = none := by decide
      rw [if_pos hstart, hwhole, hrecipient, List.drop_length, channel, hcut]
      simp
    · rw [if_neg hstart]
      rcases h with h | h
      · rw [if_pos (Or.inl h), dropRecipient_eq_message (partition_message_none h hstart)]
      · rw [if_pos (Or.inr h.1), dropRecipient_eq_message h.2.2]
  | reasoning =>
    have hcut : partition museChannelStart buffer = none := h
    show joined (delta .reasoning buffer) f = channel buffer f
    rw [joined_delta, channel, hcut]
  | recipient =>
    have hcut : partition museMessageStart buffer = none := h
    show joined (delta .content (dropRecipient buffer)) f = only .content (message buffer) f
    rw [joined_delta, dropRecipient_eq_message hcut]
  | content =>
    have hcut : partition museEnd buffer = none := h
    show joined (delta .content (removeSuffix museEnd buffer)) f = only .content (dropEnds buffer) f
    rw [joined_delta, removeSuffix_of_none hcut, dropEnds_of_none hcut]

theorem feed_spec (s : Stream) (c : Text) :
    Gives Stream.Holds Stream.whole (s.feed c) fun u => s.whole (c ++ u) := by
  have hfuel : (s.buffer ++ c).length + s.state.extra < (s.buffer ++ c).length + 2 := by
    cases s.state <;> simp [State.extra]
  apply (drain_spec _ s.state (s.buffer ++ c) hfuel).congr
  intro u f
  rw [Stream.whole, List.append_assoc]

theorem online : Online Stream.feed Stream.flush joined Stream.Holds Stream.whole :=
  online_of_gives (fun {s} c _ => feed_spec s c) flush_spec

/-- The deltas of the Muse-Glimmer stream together. -/
theorem run_eq (chunks : List Text) (f : Field) :
    joined (run Stream.feed Stream.flush stream chunks) f = response chunks.flatten f :=
  have hstart : stream.Holds := holds_nil .header
  online.run_eq chunks hstart f

end Muse

namespace Gemma

/-- What the text inside the thinking block and what follows it give. -/
def thought (text : Text) (f : Field) : Text :=
  match partition gemmaChannelEnd text with
  | none => only .reasoning text f
  | some (found, behind) => only .reasoning found f ++ only .content behind f

def State.whole (startsOpen : Bool) : State → Text → Field → Text
  | .start, text => fun f =>
    if gemmaChannelStart <+: text then
      thought (stripHeader (text.drop gemmaChannelStart.length)) f
    else if startsOpen then thought text f
    else only .content text f
  | .header, text => thought (stripHeader text)
  | .reasoning, text => thought text
  | .content, text => only .content text

/-- What a state may hold. -/
def State.Holds : State → Text → Prop
  | .start, buffer => buffer <+: gemmaChannelStart ∧ ¬ gemmaChannelStart <+: buffer
  | .header, buffer => buffer <+: gemmaThoughtHeader ++ ['\n']
  | .reasoning, buffer => partition gemmaChannelEnd buffer = none
  | .content, buffer => buffer = []

namespace Stream

/-- What the held text and the text to come give. -/
def whole (s : Stream) (u : Text) (f : Field) : Text :=
  s.state.whole s.startsOpen (s.buffer ++ u) f

def Holds (s : Stream) : Prop := s.state.Holds s.buffer

end Stream

/-- The turns a state needs. -/
def State.turns : State → Nat
  | .start => 3
  | .header => 2
  | .reasoning => 1
  | .content => 0

theorem gemmaChannelEnd_ne : gemmaChannelEnd ≠ [] := by decide

/-- `partial_token_len` finds the longest ending that begins the token. -/
theorem partialTokenLen_spec (text token : Text) : partialTokenLen text [token] ≤ text.length ∧
      ∀ size, EndsWithin token text size → size ≤ partialTokenLen text [token] := by
  have hscan : partialTokenLen text [token] =
      scanDown (fun size => (token.take size).isSuffixOf text)
        (min text.length (token.length - 1)) 0 := rfl
  rw [hscan]
  refine ⟨?_, ?_⟩
  · cases scanDown_cases (fun size => (token.take size).isSuffixOf text)
        (min text.length (token.length - 1)) 0 with
    | inl h => omega
    | inr h =>
      have hmin := Nat.min_le_left text.length (token.length - 1)
      omega
  · intro size hsize
    obtain ⟨htext, htoken, hends⟩ := hsize
    apply le_scanDown_of (by omega)
    exact List.isSuffixOf_iff_suffix.2 hends

theorem thought_cutsAt : CutsAt gemmaChannelEnd .reasoning (only .content) thought :=
  fun _ _ => rfl

theorem stripHeader_append {buffer : Text}
    (h : ¬ buffer <+: gemmaThoughtHeader ++ ['\n']) (u : Text) :
    stripHeader (buffer ++ u) = stripHeader buffer ++ u := by
  have hshort : ¬ buffer <+: gemmaThoughtHeader := fun hpre => h (hpre.trans (by decide))
  have hshort' : ¬ buffer ++ u <+: gemmaThoughtHeader :=
    fun hpre => hshort ((List.prefix_append _ _).trans hpre)
  unfold stripHeader
  rw [if_neg (mt List.isPrefixOf_iff_prefix.1 hshort),
    if_neg (mt List.isPrefixOf_iff_prefix.1 hshort')]
  by_cases hheader : gemmaThoughtHeader <+: buffer
  · obtain ⟨body, rfl⟩ := hheader
    have hmore : gemmaThoughtHeader <+: gemmaThoughtHeader ++ body ++ u :=
      (List.prefix_append _ _).trans (List.prefix_append _ _)
    rw [if_pos (List.isPrefixOf_iff_prefix.2 hmore),
      if_pos (List.isPrefixOf_iff_prefix.2 (List.prefix_append _ _)), List.append_assoc]
    simp only [List.drop_left]
    cases body with
    | nil => exact absurd (by rw [List.append_nil]) hshort
    | cons c body =>
      by_cases hc : '\n' = c
      · rw [← hc]
        simp
      · simp [hc]
  · have hmore : ¬ gemmaThoughtHeader <+: buffer ++ u := not_prefix_append hheader hshort
    rw [if_neg (mt List.isPrefixOf_iff_prefix.1 hmore),
      if_neg (mt List.isPrefixOf_iff_prefix.1 hheader)]

theorem stripHeader_of_begins {buffer : Text} (h : buffer <+: gemmaThoughtHeader ++ ['\n']) :
    stripHeader buffer = [] := by
  unfold stripHeader
  by_cases hshort : buffer <+: gemmaThoughtHeader
  · rw [if_pos (List.isPrefixOf_iff_prefix.2 hshort)]
  · have hwhole : buffer = gemmaThoughtHeader ++ ['\n'] := by
      apply List.IsPrefix.eq_of_length_le h
      apply Nat.le_of_not_lt
      intro hlt
      apply hshort
      apply List.prefix_of_prefix_length_le h (List.prefix_append _ _)
      rw [List.length_append] at hlt
      exact Nat.le_of_lt_succ hlt
    rw [hwhole]
    decide

theorem holds_nil (state : State) : state.Holds [] := by
  cases state with
  | start => exact ⟨List.nil_prefix, by decide⟩
  | header => exact List.nil_prefix
  | reasoning => exact (by decide : partition gemmaChannelEnd [] = none)
  | content => rfl

/-- A loop with turns enough gives out a first part of what the text gives. -/
theorem drain_spec (startsOpen : Bool) (fuel : Nat) :
    ∀ (state : State) (buffer : Text), state.turns < fuel →
      Gives (fun s : State × Text => s.1.Holds s.2) (fun s u => s.1.whole startsOpen (s.2 ++ u))
        (drain startsOpen fuel state buffer) fun u => state.whole startsOpen (buffer ++ u) := by
  induction fuel with
  | zero => exact fun _ _ h => absurd h (Nat.not_lt_zero _)
  | succ fuel ih =>
    intro state buffer hfuel
    rw [drain.eq_def]
    dsimp only
    by_cases hempty : buffer = []
    · rw [if_pos hempty, hempty]
      exact Gives.stay (state, []) (holds_nil state)
    rw [if_neg hempty]
    cases state with
    | start =>
      simp only [State.turns] at hfuel
      simp only [List.isPrefixOf_iff_prefix]
      by_cases hstart : gemmaChannelStart <+: buffer
      · rw [if_pos hstart]
        apply (ih .header _ (by simp only [State.turns]; omega)).congr
        intro u f
        simp only [State.whole]
        rw [if_pos (hstart.trans (List.prefix_append _ _)),
          List.drop_append_of_le_length hstart.length_le]
      rw [if_neg hstart]
      by_cases hwait : buffer <+: gemmaChannelStart
      · rw [if_pos hwait]
        exact Gives.stay (State.start, buffer) ⟨hwait, hstart⟩
      · have hturns : (openState startsOpen).turns ≤ 1 := by
          cases startsOpen <;> decide
        rw [if_neg hwait]
        apply (ih (openState startsOpen) buffer (by omega)).congr
        intro u f
        simp only [State.whole]
        rw [if_neg (not_prefix_append hstart hwait)]
        cases startsOpen with
        | true => rfl
        | false => rfl
    | header =>
      simp only [State.turns] at hfuel
      simp only [List.isPrefixOf_iff_prefix]
      by_cases hwait : buffer <+: gemmaThoughtHeader ++ ['\n']
      · rw [if_pos hwait]
        exact Gives.stay (State.header, buffer) hwait
      · rw [if_neg hwait]
        apply (ih .reasoning _ (by simp only [State.turns]; omega)).congr
        intro u f
        simp only [State.whole, stripHeader_append hwait]
    | reasoning =>
      simp only [State.turns] at hfuel
      cases hcut : partition gemmaChannelEnd buffer with
      | some p =>
        obtain ⟨found, behind⟩ := p
        exact (ih .content behind (by simp only [State.turns]; omega)).after
          (thought_cutsAt.found hcut)
      | none =>
        have hno := (partition_eq_none gemmaChannelEnd_ne).1 hcut
        exact Gives.last (partition_drop_none gemmaChannelEnd_ne hcut _) (thought_cutsAt.take
          gemmaChannelEnd_ne (Settled.of_partial hno (partialTokenLen_spec buffer gemmaChannelEnd).2))
    | content =>
      refine ⟨rfl, ?_⟩
      intro u f
      rw [joined_singleton]
      exact only_append _ _ _ _

theorem feed_spec (s : Stream) (c : Text) :
    Gives Stream.Holds Stream.whole (s.feed c) fun u => s.whole (c ++ u) := by
  have hfuel : s.state.turns < (s.buffer ++ c).length + 4 := by
    cases s.state <;> simp only [State.turns] <;> omega
  have hdrain := drain_spec s.startsOpen _ s.state (s.buffer ++ c) hfuel
  refine ⟨hdrain.inv, ?_⟩
  intro u f
  rw [Stream.whole, ← List.append_assoc]
  exact hdrain.whole_eq u f

theorem flush_spec {s : Stream} (h : s.Holds) (f : Field) : joined s.flush f = s.whole [] f := by
  obtain ⟨startsOpen, state, buffer⟩ := s
  rw [Stream.whole, List.append_nil]
  cases state with
  | start =>
    obtain ⟨hwait, hno⟩ : buffer <+: gemmaChannelStart ∧ ¬ gemmaChannelStart <+: buffer := h
    have hcut : partition gemmaChannelEnd buffer = none := by
      rw [partition_eq_none gemmaChannelEnd_ne]
      intro hoccurs
      have hlens : gemmaChannelStart.length = gemmaChannelEnd.length := by decide
      have hle := hoccurs.length_le
      rw [← hlens] at hle
      have heq := hwait.eq_of_length_le hle
      rw [heq] at hno
      exact hno List.prefix_rfl
    show joined (delta (fieldOf startsOpen) buffer) f = State.whole startsOpen .start buffer f
    simp only [State.whole]
    rw [joined_delta, if_neg hno]
    cases startsOpen with
    | true => simp only [thought, hcut, fieldOf, if_true]
    | false => rfl
  | header =>
    have hwait : buffer <+: gemmaThoughtHeader ++ ['\n'] := h
    have hcut : partition gemmaChannelEnd [] = none := by decide
    show joined [] f = thought (stripHeader buffer) f
    rw [stripHeader_of_begins hwait, thought, hcut]
    exact (only_nil _ _).symm
  | reasoning =>
    have hcut : partition gemmaChannelEnd buffer = none := h
    show joined (delta .reasoning buffer) f = thought buffer f
    rw [joined_delta, thought, hcut]
  | content => exact joined_delta _ _ _

theorem online : Online Stream.feed Stream.flush joined Stream.Holds Stream.whole :=
  online_of_gives (fun {s} c _ => feed_spec s c) flush_spec

theorem run_eq (allowImplicit : Bool) (chunks : List Text) (f : Field) :
    joined (run Stream.feed Stream.flush (stream allowImplicit) chunks) f =
      State.whole allowImplicit .start chunks.flatten f :=
  have hstart : (stream allowImplicit).Holds := holds_nil .start
  online.run_eq chunks hstart f

end Gemma

end EdgeLLM.Ports.Reasoning
