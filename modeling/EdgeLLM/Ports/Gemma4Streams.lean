import EdgeLLM.Ports.Gemma4Events

/-!
# The Gemma 4 event parser does not see the chunks

Where the markers keep apart (`Separate`), a turn of the loop does with more
text behind the held one what it did without it, and what a turn gives out
before it waits is not missed later. So the content, the calls and the outcome
of a run are those of the whole text, however it is cut.
-/

namespace EdgeLLM.Ports.ToolCalling.Gemma4

open Verified Verified.Splitting Verified.Markers

variable {O : Type}

/-- The opener, the bare form and the strip tokens keep apart: none begins
another, no marker lies inside another, and no strip token ends with a
beginning of the opener. -/
structure Separate (stripTokens : List Text) : Prop where
  free : PrefixFree (blockOpener :: barePrefix :: stripTokens)
  opener_fresh : blockOpener ∉ stripTokens
  bare_fresh : barePrefix ∉ stripTokens
  inside : NoneInside (blockOpener :: stripTokens)
  overlap : ∀ w ∈ stripTokens, ∀ a b, a ≠ [] → b ≠ [] → w = a ++ b → ¬ b <+: blockOpener

namespace Separate

variable {strip : List Text}

theorem scan_free (h : Separate strip) : PrefixFree (blockOpener :: strip) where
  ne_nil hmem := by
    apply h.free.ne_nil
    rcases List.mem_cons.1 hmem with heq | hin
    · exact List.mem_cons.2 (.inl heq)
    · exact List.mem_cons_of_mem _ (List.mem_cons_of_mem _ hin)
  eq_of_prefix v hv w hw := by
    have hsub : ∀ m ∈ blockOpener :: strip, m ∈ blockOpener :: barePrefix :: strip := by
      intro m hm
      rcases List.mem_cons.1 hm with rfl | hin
      · exact List.mem_cons_self
      · exact List.mem_cons_of_mem _ (List.mem_cons_of_mem _ hin)
    exact h.free.eq_of_prefix v (hsub v hv) w (hsub w hw)

theorem token_ne_nil (h : Separate strip) {token : Text} (ht : token ∈ strip) : token ≠ [] := by
  rintro rfl
  exact h.free.ne_nil (by simp [ht])

theorem token_eq (h : Separate strip) {v w text : Text} (hv : v ∈ strip) (hw : w ∈ strip)
    (hvt : v <+: text) (hwt : w <+: text) : v = w :=
  h.free.eq (by simp [hv]) (by simp [hw]) hvt hwt

end Separate

/-- More text behind the held one. -/
def EventParser.more (s : EventParser) (text : Text) : EventParser := { s with buf := s.buf ++ text }

@[simp] theorem EventParser.more_nil (s : EventParser) : s.more [] = s := by
  simp [EventParser.more]

theorem EventParser.more_append (s : EventParser) (a b : Text) :
    s.more (a ++ b) = (s.more a).more b := by
  simp [EventParser.more]

@[simp] theorem contentOf_append (xs ys : List Event) :
    contentOf (xs ++ ys) = contentOf xs ++ contentOf ys := by
  simp [contentOf]

@[simp] theorem callsOf_append (xs ys : List Event) :
    callsOf (xs ++ ys) = callsOf xs ++ callsOf ys := by
  simp [callsOf]

/-- The events give out the same content and the same calls. -/
def SameOutput (xs ys : List Event) : Prop := contentOf xs = contentOf ys ∧ callsOf xs = callsOf ys

theorem SameOutput.append_left {xs ys : List Event} (h : SameOutput xs ys) (front : List Event) :
    SameOutput (front ++ xs) (front ++ ys) := by
  simp [SameOutput, h.1, h.2]

theorem SameOutput.append_right {xs ys : List Event} (h : SameOutput xs ys) (back : List Event) :
    SameOutput (xs ++ back) (ys ++ back) := by
  simp [SameOutput, h.1, h.2]

theorem SameOutput.trans {xs ys zs : List Event} (h : SameOutput xs ys) (h' : SameOutput ys zs) :
    SameOutput xs zs := ⟨h.1.trans h'.1, h.2.trans h'.2⟩

namespace Session

variable {x : Session O} {s s' : EventParser} {events : List Event} {e : Raised}

@[simp] theorem contentOf_contentEvents (s : EventParser) (text : Text) :
    contentOf (contentEvents s text) = if s.inProtocol then [] else text := by
  rw [contentEvents]
  by_cases hprotocol : s.inProtocol = true
  · simp [hprotocol, contentOf]
  · by_cases htext : text = []
    · simp [htext, contentOf]
    · simp [hprotocol, htext, contentOf]

@[simp] theorem callsOf_contentEvents (s : EventParser) (text : Text) :
    callsOf (contentEvents s text) = [] := by
  rw [contentEvents]
  split
  · rfl
  · rfl

theorem lstrip_append {text : Text} (h : lstrip text ≠ []) (b : Text) :
    lstrip (text ++ b) = lstrip text ++ b := by
  rw [lstrip, List.dropWhile_append]
  simp only [lstrip] at h ⊢
  rw [if_neg]
  simpa using h

theorem take_lstrip (text : Text) :
    text.take (text.length - (lstrip text).length) ++ lstrip text = text := by
  obtain ⟨a, ha⟩ : lstrip text <:+ text := List.dropWhile_suffix isSpace
  generalize lstrip text = head at ha ⊢
  subst ha
  rw [List.length_append, Nat.add_sub_cancel, List.take_left]

theorem find_append {word text : Text} {k : Nat} (hword : word ≠ [])
    (h : find word text = some k) (more : Text) : find word (text ++ more) = some k := by
  obtain ⟨hle, hpre, hfirst⟩ := find_eq_some.1 h
  have hlen := length_of_prefix_drop hword hpre
  rw [find_eq_some]
  refine ⟨by rw [List.length_append]; omega, prefix_drop_append hword hpre more, ?_⟩
  intro j hj hpre'
  apply hfirst j hj
  rw [List.drop_append_of_le_length (by omega)] at hpre'
  apply List.prefix_of_prefix_length_le hpre' (List.prefix_append _ _)
  rw [List.length_drop]
  omega

theorem findFrom_append {word text : Text} {start k : Nat} (hword : word ≠ [])
    (h : findFrom word text start = some k) (more : Text) :
    start ≤ k ∧ k + word.length ≤ text.length ∧ findFrom word (text ++ more) start = some k := by
  rw [findFrom, Option.map_eq_some_iff] at h
  obtain ⟨i, hi, rfl⟩ := h
  have hpre := (find_eq_some.1 hi).2.1
  have hlen := length_of_prefix_drop hword hpre
  have hpos := List.length_pos_iff.2 hword
  rw [List.length_drop] at hlen
  refine ⟨Nat.le_add_right _ _, by omega, ?_⟩
  rw [findFrom, List.drop_append_of_le_length (by omega), find_append hword hi]
  rfl

theorem find_token_append (hsep : Separate x.stripTokens) {head token : Text}
    (h : x.stripTokens.find? (·.isPrefixOf head) = some token) (b : Text) :
    x.stripTokens.find? (·.isPrefixOf (head ++ b)) = some token := by
  have hmem := List.mem_of_find?_eq_some h
  have hpre : token <+: head := by
    have hfound := List.find?_some h
    exact List.isPrefixOf_iff_prefix.1 hfound
  have hlong : token <+: head ++ b := hpre.trans (List.prefix_append _ _)
  cases hfind : x.stripTokens.find? (·.isPrefixOf (head ++ b)) with
  | none =>
    have hno := List.find?_eq_none.1 hfind token hmem
    exact absurd (List.isPrefixOf_iff_prefix.2 hlong) hno
  | some other =>
    have hother : other <+: head ++ b := by
      have hfound := List.find?_some hfind
      exact List.isPrefixOf_iff_prefix.1 hfound
    rw [hsep.token_eq (List.mem_of_find?_eq_some hfind) hmem hother hlong]

/-- What was decided against stays so. -/
theorem decided_append {head : Text} (hnone : x.stripTokens.find? (·.isPrefixOf head) = none)
    (hany : ¬ x.stripTokens.any (head.isPrefixOf ·) = true) (b : Text) :
    x.stripTokens.find? (·.isPrefixOf (head ++ b)) = none ∧
      ¬ x.stripTokens.any ((head ++ b).isPrefixOf ·) = true := by
  have hno : ∀ token ∈ x.stripTokens, ¬ token <+: head ∧ ¬ head <+: token := by
    intro token ht
    constructor
    · intro hpre
      exact absurd (List.isPrefixOf_iff_prefix.2 hpre) (List.find?_eq_none.1 hnone token ht)
    · intro hpre
      apply hany
      rw [List.any_eq_true]
      exact ⟨token, ht, List.isPrefixOf_iff_prefix.2 hpre⟩
  constructor
  · rw [List.find?_eq_none]
    intro token ht hpre
    rcases List.prefix_or_prefix_of_prefix (List.isPrefixOf_iff_prefix.1 hpre)
      (List.prefix_append head b) with h | h
    · exact (hno token ht).1 h
    · exact (hno token ht).2 h
  · rw [List.any_eq_true]
    intro hex
    obtain ⟨token, ht, hpre⟩ := hex
    exact (hno token ht).2 ((List.prefix_append head b).trans (List.isPrefixOf_iff_prefix.1 hpre))

/-- A turn that goes on, with more text behind the state it goes on with. -/
def Turn.more (t : Turn) (b : Text) : Turn :=
  match t with
  | .again events s => .again events (s.more b)
  | .wait events s => .wait events (s.more b)
  | .raised e s => .raised e (s.more b)

/-- A marker that was found is found with more text, and the turn is the
same. -/
theorem scan_more (hsep : Separate x.stripTokens)
    (hfound : firstMarker x.scanMarkers s.buf ≠ none) (b : Text) :
    x.scan (s.more b) = (x.scan s).more b := by
  cases hfirst : firstMarker x.scanMarkers s.buf with
  | none => exact absurd hfirst hfound
  | some found =>
    obtain ⟨idx, marker⟩ := found
    obtain ⟨hmem, hpre, -⟩ := (firstMarker_eq_some hsep.scan_free).1 hfirst
    have hne : marker ≠ [] := fun h => hsep.scan_free.ne_nil (h ▸ hmem)
    have hlen := length_of_prefix_drop hne hpre
    have hlater : firstMarker x.scanMarkers (s.more b).buf = some (idx, marker) :=
      firstMarker_append hsep.scan_free hsep.inside hfirst b
    have htake : (s.buf ++ b).take idx = s.buf.take idx :=
      List.take_append_of_le_length (by omega)
    have hdrop : (s.buf ++ b).drop idx = s.buf.drop idx ++ b :=
      List.drop_append_of_le_length (by omega)
    have hdrop' : (s.buf ++ b).drop (idx + marker.length) = s.buf.drop (idx + marker.length) ++ b :=
      List.drop_append_of_le_length hlen
    rw [scan, hlater, scan, hfirst]
    by_cases hopener : marker = blockOpener
    · simp [Turn.more, EventParser.more, hopener, htake, hdrop, contentEvents]
    · simp [Turn.more, EventParser.more, hopener, htake, hdrop', contentEvents]

/-- The turns of a waiting splitter and of one that has not waited: the same,
but for the content that was given out before. -/
structure SameTurn (front : List Event) (t t' : Turn) : Prop where
  again : ∀ events s, t' = .again events s →
    ∃ events', t = .again events' s ∧ SameOutput events' (front ++ events)
  wait : ∀ events s, t' = .wait events s →
    ∃ events', t = .wait events' s ∧ SameOutput events' (front ++ events)
  raised : ∀ e s, t' ≠ .raised e s

theorem scan_wait {t : EventParser} (h : firstMarker x.scanMarkers t.buf = none) :
    x.scan t = .wait (contentEvents t (released t.buf x.scanMarkers))
      { t with buf := held t.buf x.scanMarkers } := by
  have hdrop : t.buf.drop (t.buf.take (t.buf.length - heldLength t.buf x.scanMarkers)).length =
      held t.buf x.scanMarkers := by
    rw [List.length_take, Nat.min_eq_left (Nat.sub_le _ _)]
    rfl
  rw [scan, h]
  simp only [partialMarkerLen, hdrop]
  rfl

theorem contentEvents_append {t t' : EventParser} (h : t.inProtocol = s.inProtocol)
    (h' : t'.inProtocol = s.inProtocol) (a b : Text) :
    SameOutput (contentEvents t (a ++ b)) (contentEvents s a ++ contentEvents t' b) := by
  constructor
  · simp only [contentOf_append, contentOf_contentEvents, h, h']
    by_cases hprotocol : s.inProtocol = true
    · simp [hprotocol]
    · simp [hprotocol]
  · simp only [callsOf_append, callsOf_contentEvents, List.append_nil]

/-- Where no marker was found, what was given out is not missed later. -/
theorem scan_released (hsep : Separate x.stripTokens)
    (hnone : firstMarker x.scanMarkers s.buf = none) (b : Text) :
    SameTurn (contentEvents s (released s.buf x.scanMarkers)) (x.scan (s.more b))
      (x.scan { s with buf := held s.buf x.scanMarkers ++ b }) := by
  have hfree : PrefixFree x.scanMarkers := hsep.scan_free
  have hfirst := firstMarker_released hfree ((firstMarker_eq_none hfree).1 hnone) b
  have htext := append_eq_released x.scanMarkers s.buf b
  cases hlater : firstMarker x.scanMarkers (held s.buf x.scanMarkers ++ b) with
  | none =>
    rw [hlater] at hfirst
    rw [scan_wait (t := s.more b) hfirst, scan_wait hlater]
    constructor
    · intro events t h
      cases h
    · intro events t h
      cases h
      refine ⟨contentEvents (s.more b) (released (s.buf ++ b) x.scanMarkers), ?_, ?_⟩
      · simp only [EventParser.more]
        rw [held_append x.scanMarkers s.buf b]
      · rw [released_append x.scanMarkers s.buf b]
        exact contentEvents_append rfl rfl _ _
    · intro e t h
      cases h
  | some found =>
    obtain ⟨idx, marker⟩ := found
    rw [hlater, Option.map_some] at hfirst
    have hdrop : ∀ n, (s.buf ++ b).drop ((released s.buf x.scanMarkers).length + n) =
        (held s.buf x.scanMarkers ++ b).drop n := by
      intro n
      rw [htext, ← List.drop_drop, List.drop_left]
    have htake : (s.buf ++ b).take ((released s.buf x.scanMarkers).length + idx) =
        released s.buf x.scanMarkers ++ (held s.buf x.scanMarkers ++ b).take idx := by
      rw [htext, List.take_length_add_append]
    have hmore : firstMarker x.scanMarkers (s.more b).buf =
        some ((released s.buf x.scanMarkers).length + idx, marker) := hfirst
    rw [scan, hmore, scan, hlater]
    by_cases hopener : marker = blockOpener
    · simp only [hopener, if_true]
      constructor
      · intro events t h
        cases h
        refine ⟨contentEvents (s.more b)
          ((s.buf ++ b).take ((released s.buf x.scanMarkers).length + idx)), ?_, ?_⟩
        · simp only [EventParser.more, hdrop]
        · rw [htake]
          exact contentEvents_append rfl rfl _ _
      · intro events t h
        cases h
      · intro e t h
        cases h
    · simp only [hopener, if_false]
      constructor
      · intro events t h
        cases h
        refine ⟨contentEvents (s.more b)
          ((s.buf ++ b).take ((released s.buf x.scanMarkers).length + idx)), ?_, ?_⟩
        · simp only [EventParser.more, Nat.add_assoc, hdrop]
        · rw [htake]
          exact contentEvents_append rfl rfl _ _
      · intro events t h
        cases h
      · intro e t h
        cases h

/-- A turn outside a block, at the start of the output. -/
theorem turn_start (hblock : s.inBlock = false) (hstart : s.atStart = true) :
    x.turn s = match x.stripTokens.find? (·.isPrefixOf (lstrip s.buf)) with
      | some token => .again [] { s with
          buf := s.buf.take (s.buf.length - (lstrip s.buf).length) ++
            (lstrip s.buf).drop token.length }
      | none =>
        if x.stripTokens.any ((lstrip s.buf).isPrefixOf ·) then .wait [] s
        else if barePrefix.isPrefixOf (lstrip s.buf) then
          .wait [] { s with bare := true, inProtocol := true }
        else if (lstrip s.buf).isPrefixOf barePrefix then .wait [] s
        else x.scan { s with atStart := false } := by
  have hno : ¬s.inBlock = true := by simp [hblock]
  exact (if_neg hno).trans (if_pos hstart)

theorem turn_scan (hblock : s.inBlock = false) (hstart : s.atStart = false) :
    x.turn s = x.scan { s with atStart := false } := by
  have heq : ({ s with atStart := false } : EventParser) = s := by rw [← hstart]
  rw [turn, if_neg (by simp [hblock]), if_neg (by simp [hstart]), heq]

/-- The turn waits for nothing but the end of a bare call. -/
def Turn.Decided (t : Turn) : Prop := ∀ events s, t = .wait events s → s.bare = true

theorem scan_decided {t : EventParser} (h : firstMarker x.scanMarkers t.buf ≠ none) :
    (x.scan t).Decided := by
  intro events s hwait
  cases hfirst : firstMarker x.scanMarkers t.buf with
  | none => exact absurd hfirst h
  | some found =>
    rw [scan, hfirst] at hwait
    simp only at hwait
    split at hwait
    · cases hwait
    · cases hwait

theorem scan_cases (hsep : Separate x.stripTokens) (t : EventParser) (b : Text) :
    (x.scan (t.more b) = (x.scan t).more b ∧ (x.scan t).Decided) ∨
      firstMarker x.scanMarkers t.buf = none := by
  by_cases hnone : firstMarker x.scanMarkers t.buf = none
  · exact .inr hnone
  · exact .inl ⟨scan_more hsep hnone b, scan_decided hnone⟩

/-- With more text a decided turn is the same; else the turn was waiting for
that text, or no marker had come. -/
theorem turn_more (hsep : Separate x.stripTokens) (b : Text) :
    (x.turn (s.more b) = (x.turn s).more b ∧ (x.turn s).Decided) ∨ x.turn s = .wait [] s ∨
      (firstMarker x.scanMarkers s.buf = none ∧ s.inBlock = false ∧
        x.turn s = x.scan { s with atStart := false } ∧
        x.turn (s.more b) = x.scan (({ s with atStart := false } : EventParser).more b)) := by
  by_cases hblock : s.inBlock = true
  · cases hfind : findFrom blockCloser s.buf blockOpener.length with
    | none =>
      refine .inr (.inl ?_)
      rw [turn, if_pos hblock, hfind]
    | some idx =>
      left
      obtain ⟨-, hlen, hlater⟩ := findFrom_append (by decide) hfind b
      have hblock' : (s.more b).inBlock = true := hblock
      have htake : (s.buf ++ b).take (idx + blockCloser.length) =
          s.buf.take (idx + blockCloser.length) := List.take_append_of_le_length hlen
      have hdrop : (s.buf ++ b).drop (idx + blockCloser.length) =
          s.buf.drop (idx + blockCloser.length) ++ b := List.drop_append_of_le_length hlen
      rw [turn, if_pos hblock', turn, if_pos hblock, hfind]
      simp only [EventParser.more, hlater, htake, hdrop]
      cases x.blockEvent s.made (s.buf.take (idx + blockCloser.length)) with
      | error e => exact ⟨rfl, fun events t h => by cases h⟩
      | ok call => exact ⟨rfl, fun events t h => by cases h⟩
  rw [Bool.not_eq_true] at hblock
  by_cases hstart : s.atStart = true
  · by_cases hhead : lstrip s.buf = []
    · -- nothing but blanks has come
      refine .inr (.inl ?_)
      rw [turn_start hblock hstart, hhead]
      have hfind : x.stripTokens.find? (·.isPrefixOf []) = none := by
        rw [List.find?_eq_none]
        intro token ht hpre
        have hnil := List.isPrefixOf_iff_prefix.1 hpre
        exact hsep.token_ne_nil ht (List.prefix_nil.1 hnil)
      rw [hfind]
      have hbare : barePrefix.isPrefixOf [] = false := rfl
      simp only [hbare, List.isPrefixOf_nil_left]
      split
      · rfl
      · rfl
    · have happend : lstrip (s.more b).buf = lstrip s.buf ++ b := lstrip_append hhead b
      have hfront : (s.buf ++ b).take ((s.buf ++ b).length - (lstrip s.buf ++ b).length) =
          s.buf.take (s.buf.length - (lstrip s.buf).length) := by
        rw [List.length_append, List.length_append, Nat.add_sub_add_right]
        exact List.take_append_of_le_length (Nat.sub_le _ _)
      rw [turn_start (s := s.more b) hblock hstart, happend, turn_start hblock hstart]
      cases hfind : x.stripTokens.find? (·.isPrefixOf (lstrip s.buf)) with
      | some token =>
        left
        rw [find_token_append hsep hfind b]
        have hpre : token <+: lstrip s.buf := by
          have hfound := List.find?_some hfind
          exact List.isPrefixOf_iff_prefix.1 hfound
        have hdrop : (lstrip s.buf ++ b).drop token.length = (lstrip s.buf).drop token.length ++ b :=
          List.drop_append_of_le_length hpre.length_le
        simp only [Turn.more, EventParser.more, hfront, hdrop, List.append_assoc]
        exact ⟨trivial, fun events t h => by cases h⟩
      | none =>
        by_cases hany : x.stripTokens.any ((lstrip s.buf).isPrefixOf ·) = true
        · refine .inr (.inl ?_)
          simp only [hany, if_true]
        obtain ⟨hfind', hany'⟩ := decided_append hfind hany b
        rw [hfind']
        simp only [if_neg hany, if_neg hany']
        by_cases hbare : barePrefix.isPrefixOf (lstrip s.buf) = true
        · left
          have hbare' : barePrefix.isPrefixOf (lstrip s.buf ++ b) = true :=
            List.isPrefixOf_iff_prefix.2
              ((List.isPrefixOf_iff_prefix.1 hbare).trans (List.prefix_append _ _))
          simp only [hbare, hbare', if_true]
          exact ⟨rfl, fun events t h => by cases h; rfl⟩
        · by_cases hpart : (lstrip s.buf).isPrefixOf barePrefix = true
          · refine .inr (.inl ?_)
            simp only [if_neg hbare, hpart, if_true]
          · have hbare' : ¬ barePrefix.isPrefixOf (lstrip s.buf ++ b) = true := by
              intro hpre
              rcases List.prefix_or_prefix_of_prefix (List.isPrefixOf_iff_prefix.1 hpre)
                (List.prefix_append (lstrip s.buf) b) with h | h
              · exact hbare (List.isPrefixOf_iff_prefix.2 h)
              · exact hpart (List.isPrefixOf_iff_prefix.2 h)
            have hpart' : ¬ (lstrip s.buf ++ b).isPrefixOf barePrefix = true := by
              intro hpre
              apply hpart
              rw [List.isPrefixOf_iff_prefix] at hpre ⊢
              exact (List.prefix_append _ _).trans hpre
            simp only [if_neg hbare, if_neg hbare', if_neg hpart, if_neg hpart']
            rcases scan_cases hsep { s with atStart := false } b with hsame | hnone
            · exact .inl hsame
            · exact .inr (.inr ⟨hnone, hblock, trivial, rfl⟩)
  · rw [Bool.not_eq_true] at hstart
    have hlater : x.turn (s.more b) = x.scan (({ s with atStart := false } : EventParser).more b) :=
      turn_scan (s := s.more b) hblock hstart
    rw [hlater, turn_scan hblock hstart]
    rcases scan_cases hsep { s with atStart := false } b with hsame | hnone
    · exact .inl hsame
    · exact .inr (.inr ⟨hnone, hblock, rfl, rfl⟩)

theorem scan_less (hsep : Separate x.stripTokens) (hblock : s.inBlock = false)
    (h : x.scan s = .again events s') : turnsLeft s' < turnsLeft s := by
  cases hfirst : firstMarker x.scanMarkers s.buf with
  | none =>
    rw [scan_wait hfirst] at h
    cases h
  | some found =>
    obtain ⟨idx, marker⟩ := found
    obtain ⟨hmem, hpre, -⟩ := (firstMarker_eq_some hsep.scan_free).1 hfirst
    have hne : marker ≠ [] := fun h => hsep.scan_free.ne_nil (h ▸ hmem)
    have hpos := List.length_pos_iff.2 hne
    have hlen := length_of_prefix_drop hne hpre
    rw [scan, hfirst] at h
    by_cases hopener : marker = blockOpener
    · simp only [hopener, if_true] at h
      cases h
      simp only [turnsLeft, List.length_drop, hblock, if_true, Bool.false_eq_true, if_false]
      omega
    · simp only [hopener, if_false] at h
      cases h
      simp only [turnsLeft, List.length_drop, hblock, Bool.false_eq_true, if_false]
      omega

theorem turn_less (hsep : Separate x.stripTokens) (h : x.turn s = .again events s') :
    turnsLeft s' < turnsLeft s := by
  by_cases hblock : s.inBlock = true
  · cases hfind : findFrom blockCloser s.buf blockOpener.length with
    | none =>
      rw [turn, if_pos hblock, hfind] at h
      cases h
    | some idx =>
      obtain ⟨-, hlen, -⟩ := findFrom_append (by decide) hfind []
      have hpos : 0 < blockCloser.length := by decide
      rw [turn, if_pos hblock, hfind] at h
      simp only at h
      cases hevent : x.blockEvent s.made (s.buf.take (idx + blockCloser.length)) with
      | error e =>
        rw [hevent] at h
        cases h
      | ok call =>
        rw [hevent] at h
        cases h
        simp only [turnsLeft, List.length_drop, hblock, if_true, Bool.false_eq_true, if_false]
        omega
  rw [Bool.not_eq_true] at hblock
  by_cases hstart : s.atStart = true
  · rw [turn_start hblock hstart] at h
    cases hfind : x.stripTokens.find? (·.isPrefixOf (lstrip s.buf)) with
    | some token =>
      have hpre : token <+: lstrip s.buf := by
        have hfound := List.find?_some hfind
        exact List.isPrefixOf_iff_prefix.1 hfound
      have hpos := List.length_pos_iff.2 (hsep.token_ne_nil (List.mem_of_find?_eq_some hfind))
      have hle := hpre.length_le
      have hsplit := congrArg List.length (take_lstrip s.buf)
      rw [hfind] at h
      cases h
      simp only [turnsLeft, List.length_append, List.length_drop, hblock] at hsplit ⊢
      omega
    | none =>
      rw [hfind] at h
      simp only at h
      split at h
      · cases h
      split at h
      · cases h
      split at h
      · cases h
      exact scan_less (s := { s with atStart := false }) hsep hblock h
  · rw [Bool.not_eq_true] at hstart
    rw [turn_scan hblock hstart] at h
    exact scan_less (s := { s with atStart := false }) hsep hblock h

/-- The loop takes no more turns than it is given. -/
theorem loop_eq (hsep : Separate x.stripTokens) :
    ∀ (n m : Nat) (s : EventParser), turnsLeft s < n → turnsLeft s < m → x.loop n s = x.loop m s := by
  intro n
  induction n with
  | zero => exact fun m s hn _ => absurd hn (Nat.not_lt_zero _)
  | succ n ih =>
    intro m s hn hm
    obtain ⟨m, rfl⟩ := Nat.exists_eq_succ_of_ne_zero (Nat.ne_zero_of_lt hm)
    rw [loop, loop]
    by_cases hbuf : s.buf = []
    · rw [if_pos hbuf, if_pos hbuf]
    rw [if_neg hbuf, if_neg hbuf]
    cases hturn : x.turn s with
    | wait events s' => rfl
    | raised e s' => rfl
    | again events s' =>
      have hless := turn_less hsep hturn
      have hrest := ih m s' (by omega) (by omega)
      simp only [hrest]

/-- The loop, turn by turn. -/
theorem drain_eq (hsep : Separate x.stripTokens) (hbuf : s.buf ≠ []) :
    x.drain s = match x.turn s with
      | .wait events s => (events, .ok s)
      | .raised e s => ([], .error (e, s))
      | .again events s => (events ++ (x.drain s).1, (x.drain s).2) := by
  rw [drain, loop, if_neg hbuf]
  cases hturn : x.turn s with
  | wait events s' => rfl
  | raised e s' => rfl
  | again events s' =>
    have hless := turn_less hsep hturn
    have hrest := loop_eq hsep (turnsLeft s) (turnsLeft s' + 1) s' hless (by omega)
    simp only [hrest, drain]

theorem drain_nil (hbuf : s.buf = []) : x.drain s = ([], .ok s) := by
  rw [drain, loop, if_pos hbuf]

/-- What a turn leaves alone: whether the parser has failed or finished, and
the latch, which is never released and lets no content through. -/
structure Keeps (s : EventParser) (events : List Event) (s' : EventParser) : Prop where
  error : s'.error = s.error
  done : s'.done = s.done
  latch : s.inProtocol = true → s'.inProtocol = true ∧ contentOf events = []

theorem Keeps.refl (s : EventParser) : Keeps s [] s := ⟨rfl, rfl, fun h => ⟨h, rfl⟩⟩

theorem Keeps.trans {t : EventParser} {events' : List Event} (h : Keeps s events s')
    (h' : Keeps s' events' t) : Keeps s (events ++ events') t where
  error := h'.error.trans h.error
  done := h'.done.trans h.done
  latch hs := by
    obtain ⟨hs', hevents⟩ := h.latch hs
    obtain ⟨ht, hevents'⟩ := h'.latch hs'
    exact ⟨ht, by rw [contentOf_append, hevents, hevents']; rfl⟩

/-- The states a turn leaves. -/
def Turn.Leaves (t : Turn) (P : List Event → EventParser → Prop) : Prop :=
  match t with
  | .again events s => P events s
  | .wait events s => P events s
  | .raised _ _ => True

theorem scan_keeps (s : EventParser) : (x.scan s).Leaves (Keeps s) := by
  have hlatch : ∀ text : Text, s.inProtocol = true → contentOf (contentEvents s text) = [] := by
    intro text h
    rw [contentOf_contentEvents, if_pos h]
  cases hfirst : firstMarker x.scanMarkers s.buf with
  | none =>
    rw [scan_wait hfirst]
    exact ⟨rfl, rfl, fun h => ⟨h, hlatch _ h⟩⟩
  | some found =>
    obtain ⟨idx, marker⟩ := found
    rw [scan, hfirst]
    by_cases hopener : marker = blockOpener
    · simp only [hopener, if_true]
      exact ⟨rfl, rfl, fun h => ⟨rfl, hlatch _ h⟩⟩
    · simp only [hopener, if_false]
      exact ⟨rfl, rfl, fun h => ⟨h, hlatch _ h⟩⟩

theorem turn_keeps (s : EventParser) : (x.turn s).Leaves (Keeps s) := by
  by_cases hblock : s.inBlock = true
  · rw [turn, if_pos hblock]
    cases findFrom blockCloser s.buf blockOpener.length with
    | none => exact .refl s
    | some idx =>
      simp only
      cases x.blockEvent s.made (s.buf.take (idx + blockCloser.length)) with
      | error e => trivial
      | ok call => exact ⟨rfl, rfl, fun h => ⟨h, rfl⟩⟩
  rw [Bool.not_eq_true] at hblock
  have hscan : (x.scan { s with atStart := false }).Leaves (Keeps s) := by
    have h := scan_keeps (x := x) { s with atStart := false }
    cases hturn : x.scan { s with atStart := false } with
    | again events t => rw [hturn] at h; exact ⟨h.error, h.done, h.latch⟩
    | wait events t => rw [hturn] at h; exact ⟨h.error, h.done, h.latch⟩
    | raised e t => trivial
  by_cases hstart : s.atStart = true
  · rw [turn_start hblock hstart]
    cases x.stripTokens.find? (·.isPrefixOf (lstrip s.buf)) with
    | some token => exact ⟨rfl, rfl, fun h => ⟨h, rfl⟩⟩
    | none =>
      simp only
      split
      · exact .refl s
      split
      · exact ⟨rfl, rfl, fun _ => ⟨rfl, rfl⟩⟩
      split
      · exact .refl s
      exact hscan
  · rw [Bool.not_eq_true] at hstart
    rw [turn_scan hblock hstart]
    exact hscan

theorem scan_bare (h : x.scan s = .again events s') : s'.bare = s.bare := by
  cases hfirst : firstMarker x.scanMarkers s.buf with
  | none =>
    rw [scan_wait hfirst] at h
    cases h
  | some found =>
    rw [scan, hfirst] at h
    simp only at h
    split at h
    · cases h; rfl
    · cases h; rfl

/-- Only a wait makes the parser bare. -/
theorem turn_bare (h : x.turn s = .again events s') : s'.bare = s.bare := by
  by_cases hblock : s.inBlock = true
  · rw [turn, if_pos hblock] at h
    split at h
    · cases h
    · simp only at h
      split at h
      · cases h
      · cases h; rfl
  rw [Bool.not_eq_true] at hblock
  by_cases hstart : s.atStart = true
  · rw [turn_start hblock hstart] at h
    split at h
    · cases h; rfl
    · split at h
      · cases h
      split at h
      · cases h
      split at h
      · cases h
      exact scan_bare (s := { s with atStart := false }) h
  · rw [Bool.not_eq_true] at hstart
    rw [turn_scan hblock hstart] at h
    exact scan_bare (s := { s with atStart := false }) h

theorem drain_keeps (hsep : Separate x.stripTokens) :
    ∀ s s' : EventParser, (x.drain s).2 = .ok s' → Keeps s (x.drain s).1 s' := by
  intro s
  induction hn : turnsLeft s using Nat.strongRecOn generalizing s with
  | ind n ih =>
    intro s' hs'
    by_cases hbuf : s.buf = []
    · rw [drain_nil hbuf] at hs' ⊢
      cases hs'
      exact .refl s
    have hkeeps := turn_keeps (x := x) s
    rw [drain_eq hsep hbuf] at hs' ⊢
    cases hturn : x.turn s with
    | raised e t =>
      rw [hturn] at hs'
      cases hs'
    | wait events t =>
      rw [hturn] at hs' hkeeps
      cases hs'
      exact hkeeps
    | again events t =>
      rw [hturn] at hs' hkeeps
      have hless := turn_less hsep hturn
      exact hkeeps.trans (ih (turnsLeft t) (hn ▸ hless) t rfl s' hs')

/-- In protocol, the loop gives out no content. -/
theorem drain_latched (hsep : Separate x.stripTokens) :
    ∀ s : EventParser, s.inProtocol = true → contentOf (x.drain s).1 = [] := by
  intro s
  induction hn : turnsLeft s using Nat.strongRecOn generalizing s with
  | ind n ih =>
    intro hprotocol
    by_cases hbuf : s.buf = []
    · rw [drain_nil hbuf]
      rfl
    have hkeeps := turn_keeps (x := x) s
    rw [drain_eq hsep hbuf]
    cases hturn : x.turn s with
    | raised e t => rfl
    | wait events t =>
      rw [hturn] at hkeeps
      exact (hkeeps.latch hprotocol).2
    | again events t =>
      rw [hturn] at hkeeps
      obtain ⟨hlatch, hevents⟩ := hkeeps.latch hprotocol
      have hless := turn_less hsep hturn
      have hrest := ih (turnsLeft t) (hn ▸ hless) t rfl hlatch
      simp only [contentOf_append, hevents, hrest, List.append_nil]

/-- What the loop does with more text behind the held one: an error stays, a
bare call keeps the text, and else it goes on from the state it left. -/
structure Continues (x : Session O) (s : EventParser) (b : Text) : Prop where
  failed : ∀ e t, (x.drain s).2 = .error (e, t) →
    x.drain (s.more b) = ((x.drain s).1, .error (e, t.more b))
  bare : ∀ t, (x.drain s).2 = .ok t → t.bare = true →
    x.drain (s.more b) = ((x.drain s).1, .ok (t.more b))
  waiting : ∀ t, (x.drain s).2 = .ok t → t.bare = false →
    SameOutput (x.drain (s.more b)).1 ((x.drain s).1 ++ (x.drain (t.more b)).1) ∧
      (x.drain (s.more b)).2 = (x.drain (t.more b)).2

theorem buf_more (hbuf : s.buf ≠ []) (b : Text) : (s.more b).buf ≠ [] := by
  intro h
  exact hbuf (List.append_eq_nil_iff.1 h).1

/-- A turn that decides does the same with more text. -/
theorem continues_decided (hsep : Separate x.stripTokens) (hbuf : s.buf ≠ []) (b : Text)
    (hsame : x.turn (s.more b) = (x.turn s).more b) (hdecided : (x.turn s).Decided)
    (hrest : ∀ events t, x.turn s = .again events t → Continues x t b) : Continues x s b := by
  have hdrain := drain_eq hsep hbuf
  have hmore := drain_eq hsep (buf_more hbuf b)
  rw [hsame] at hmore
  cases hturn : x.turn s with
  | raised e t =>
    rw [hturn] at hdrain hmore
    constructor
    · intro e' t' h
      rw [hdrain] at h ⊢
      cases h
      exact hmore
    · intro t' h
      rw [hdrain] at h
      cases h
    · intro t' h
      rw [hdrain] at h
      cases h
  | wait events t =>
    rw [hturn] at hdrain hmore
    have hbare := hdecided events t hturn
    constructor
    · intro e' t' h
      rw [hdrain] at h
      cases h
    · intro t' h _
      rw [hdrain] at h ⊢
      cases h
      exact hmore
    · intro t' h hopen
      rw [hdrain] at h
      cases h
      rw [hbare] at hopen
      cases hopen
  | again events t =>
    have hnext := hrest events t hturn
    rw [hturn] at hdrain hmore
    simp only [Turn.more] at hdrain hmore
    constructor
    · intro e' t' h
      rw [hdrain] at h ⊢
      rw [hmore, hnext.failed e' t' h]
    · intro t' h hbare
      rw [hdrain] at h ⊢
      rw [hmore, hnext.bare t' h hbare]
    · intro t' h hopen
      rw [hdrain] at h ⊢
      obtain ⟨hout, hend⟩ := hnext.waiting t' h hopen
      rw [hmore]
      refine ⟨?_, hend⟩
      rw [List.append_assoc]
      exact hout.append_left events

/-- Where no marker has come, the loop goes on from what it kept. -/
theorem continues_released (hsep : Separate x.stripTokens) (hbuf : s.buf ≠ []) (b : Text)
    (hnone : firstMarker x.scanMarkers s.buf = none) (hblock : s.inBlock = false)
    (hopen : s.bare = false) (hturn : x.turn s = x.scan { s with atStart := false })
    (hmore : x.turn (s.more b) = x.scan (({ s with atStart := false } : EventParser).more b)) :
    Continues x s b := by
  have hfront : x.scan { s with atStart := false } = .wait
      (contentEvents { s with atStart := false } (released s.buf x.scanMarkers))
      { s with atStart := false, buf := held s.buf x.scanMarkers } :=
    scan_wait (t := { s with atStart := false }) hnone
  have hdrain := drain_eq hsep hbuf
  rw [hturn, hfront] at hdrain
  simp only at hdrain
  have hwaiting : ∀ t, (x.drain s).2 = .ok t →
      SameOutput (x.drain (s.more b)).1 ((x.drain s).1 ++ (x.drain (t.more b)).1) ∧
        (x.drain (s.more b)).2 = (x.drain (t.more b)).2 := by
    intro t ht
    by_cases hempty : (t.more b).buf = []
    · obtain ⟨-, rfl⟩ := List.append_eq_nil_iff.1 hempty
      rw [EventParser.more_nil] at hempty ⊢
      rw [EventParser.more_nil, drain_nil hempty, List.append_nil]
      exact ⟨⟨rfl, rfl⟩, ht⟩
    have hlater := drain_eq hsep (buf_more hbuf b)
    have hkept := drain_eq hsep hempty
    have hsame := scan_released (s := { s with atStart := false }) hsep hnone b
    have hscan : x.turn (t.more b) = x.scan { s with
        atStart := false, buf := held s.buf x.scanMarkers ++ b } := by
      rw [hdrain] at ht
      cases ht
      exact turn_scan hblock rfl
    rw [hmore] at hlater
    rw [hscan] at hkept
    have hfirst : (x.drain s).1 = contentEvents { s with atStart := false }
        (released s.buf x.scanMarkers) := by rw [hdrain]
    rw [hfirst]
    cases hend : x.scan { s with atStart := false, buf := held s.buf x.scanMarkers ++ b } with
    | raised e u => exact absurd hend (hsame.raised e u)
    | wait events u =>
      obtain ⟨events', hlong, hout⟩ := hsame.wait events u hend
      rw [hlong] at hlater
      rw [hend] at hkept
      rw [hlater, hkept]
      exact ⟨hout, rfl⟩
    | again events u =>
      obtain ⟨events', hlong, hout⟩ := hsame.again events u hend
      rw [hlong] at hlater
      rw [hend] at hkept
      rw [hlater, hkept]
      refine ⟨?_, rfl⟩
      simp only
      rw [← List.append_assoc]
      exact hout.append_right _
  constructor
  · intro e t h
    rw [hdrain] at h
    cases h
  · intro t h hbare
    rw [hdrain] at h
    cases h
    rw [hopen] at hbare
    cases hbare
  · exact fun t h _ => hwaiting t h

/-- **The loop goes on where it stopped.** -/
theorem drain_continues (hsep : Separate x.stripTokens) (b : Text) :
    ∀ s : EventParser, s.bare = false → Continues x s b := by
  intro s
  induction hn : turnsLeft s using Nat.strongRecOn generalizing s with
  | ind n ih =>
    intro hopen
    by_cases hbuf : s.buf = []
    · constructor
      · intro e t h
        rw [drain_nil hbuf] at h
        cases h
      · intro t h hbare
        rw [drain_nil hbuf] at h
        cases h
        rw [hopen] at hbare
        cases hbare
      · intro t h _
        rw [drain_nil hbuf] at h ⊢
        cases h
        exact ⟨⟨rfl, rfl⟩, rfl⟩
    rcases turn_more (s := s) hsep b with ⟨hsame, hdecided⟩ | hwait | ⟨hnone, hblock, hscan, hmore⟩
    · apply continues_decided hsep hbuf b hsame hdecided
      intro events t hturn
      exact ih (turnsLeft t) (hn ▸ turn_less hsep hturn) t rfl ((turn_bare hturn).trans hopen)
    · -- the same turn is taken again
      have hdrain := drain_eq hsep hbuf
      rw [hwait] at hdrain
      constructor
      · intro e t h
        rw [hdrain] at h
        cases h
      · intro t h hbare
        rw [hdrain] at h
        cases h
        rw [hopen] at hbare
        cases hbare
      · intro t h _
        rw [hdrain] at h ⊢
        cases h
        exact ⟨⟨rfl, rfl⟩, rfl⟩
    · exact continues_released hsep hbuf b hnone hblock hopen hscan hmore

end Session

end EdgeLLM.Ports.ToolCalling.Gemma4
