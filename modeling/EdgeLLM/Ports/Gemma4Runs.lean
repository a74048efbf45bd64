import EdgeLLM.Ports.Gemma4Streams
import EdgeLLM.Ports.Gemma4Decoding

/-!
# Gemma 4 protocol text never leaks

Over a whole run of the event parser the outcome does not depend on the
chunks, nor do the content and the calls where the run ends normally; and no
character from the first opener on, or of an output that opens with the bare
form, is given out as content.
-/

namespace EdgeLLM.Ports.ToolCalling.Gemma4

open Verified Verified.Splitting Verified.Markers

variable {O : Type}

namespace Session

variable {x : Session O} {s s' : EventParser}

/-- What `finish` gives out and raises. -/
def ending (x : Session O) (s : EventParser) : List Event × Option Raised := x.run s []

/-- The text in one piece: what the loop gives out, those of a call that
raises included, and what `finish` adds. -/
def whole (x : Session O) (s : EventParser) (text : Text) : List Event × Option Raised :=
  if s.bare then x.ending (s.more text)
  else
    match x.drain (s.more text) with
    | (events, .error (e, _)) => (events, some e)
    | (events, .ok s) => (events ++ (x.ending s).1, (x.ending s).2)

/-- A parser between two calls: it has neither failed nor finished, and the
loop has nothing more to give out. -/
structure Ready (x : Session O) (s : EventParser) : Prop where
  error : s.error = none
  done : s.done = false
  drained : s.bare = false → (x.drain s).2 = .ok s ∧ SameOutput (x.drain s).1 []

theorem ready_start (x : Session O) : x.Ready .start where
  error := rfl
  done := rfl
  drained _ := by
    rw [drain_nil rfl]
    exact ⟨rfl, rfl, rfl⟩

theorem feed_eq (hready : x.Ready s) (text : Text) :
    x.feed s text = if s.bare then (.ok [], s.more text)
      else
        match x.drain (s.more text) with
        | (events, .ok s) => (.ok events, s)
        | (_, .error (e, s)) => (.error e, failed s e) := by
  have hdone : ¬ s.done = true := by simp [hready.done]
  unfold feed
  split
  · next e he =>
      rw [hready.error] at he
      cases he
  · rw [if_neg hdone]
    rfl

/-- A call of `feed` that returns gives out a first part of the whole. -/
theorem feed_whole (hsep : Separate x.stripTokens) (hready : x.Ready s) {text : Text}
    {events : List Event} (h : x.feed s text = (.ok events, s')) :
    x.Ready s' ∧ ∀ rest, SameOutput (x.whole s (text ++ rest)).1 (events ++ (x.whole s' rest).1) ∧
      (x.whole s (text ++ rest)).2 = (x.whole s' rest).2 := by
  rw [feed_eq hready] at h
  by_cases hbare : s.bare = true
  · rw [if_pos hbare] at h
    cases h
    refine ⟨⟨hready.error, hready.done, ?_⟩, ?_⟩
    · intro hopen
      rw [show (s.more text).bare = s.bare from rfl, hbare] at hopen
      cases hopen
    · intro rest
      have hbare' : (s.more text).bare = true := hbare
      rw [whole, whole, if_pos hbare, if_pos hbare', EventParser.more_append]
      exact ⟨⟨rfl, rfl⟩, rfl⟩
  rw [Bool.not_eq_true] at hbare
  rw [if_neg (by simp [hbare])] at h
  cases hdrain : x.drain (s.more text) with
  | mk given result =>
    rw [hdrain] at h
    cases result with
    | error failure => cases h
    | ok t =>
      cases h
      have hresult : (x.drain (s.more text)).2 = .ok s' := by rw [hdrain]
      have hgiven : (x.drain (s.more text)).1 = events := by rw [hdrain]
      have hkeeps := drain_keeps hsep _ _ hresult
      have hgoes := fun rest => drain_continues hsep rest (s.more text) hbare
      constructor
      · refine ⟨hkeeps.error.trans hready.error, hkeeps.done.trans hready.done, ?_⟩
        intro hopen
        obtain ⟨hout, hend⟩ := (hgoes []).waiting s' hresult hopen
        rw [EventParser.more_nil, EventParser.more_nil] at hout hend
        refine ⟨hend.symm.trans hresult, ?_, ?_⟩
        · have hcontent := hout.1
          rw [contentOf_append] at hcontent
          exact List.self_eq_append_right.1 hcontent
        · have hcalls := hout.2
          rw [callsOf_append] at hcalls
          exact List.self_eq_append_right.1 hcalls
      · intro rest
        have hopen : ¬ s.bare = true := by simp [hbare]
        rw [whole, whole, if_neg hopen, EventParser.more_append]
        by_cases hbare' : s'.bare = true
        · rw [(hgoes rest).bare s' hresult hbare', hgiven, if_pos hbare']
          exact ⟨⟨rfl, rfl⟩, rfl⟩
        · rw [if_neg hbare']
          rw [Bool.not_eq_true] at hbare'
          obtain ⟨hout, hend⟩ := (hgoes rest).waiting s' hresult hbare'
          rw [hgiven] at hout
          revert hout hend
          cases x.drain ((s.more text).more rest) with
          | mk long longEnd =>
            cases x.drain (s'.more rest) with
            | mk short shortEnd =>
              intro hout hend
              simp only at hout hend
              subst hend
              cases longEnd with
              | error failure => exact ⟨hout, rfl⟩
              | ok t =>
                refine ⟨?_, rfl⟩
                simp only
                rw [← List.append_assoc]
                exact hout.append_right _

/-- A call of `feed` that raises ends the whole the same way. -/
theorem feed_whole_error (hsep : Separate x.stripTokens) (hready : x.Ready s) {text : Text}
    {e : Raised} (h : x.feed s text = (.error e, s')) (rest : Text) :
    (x.whole s (text ++ rest)).2 = some e := by
  rw [feed_eq hready] at h
  by_cases hbare : s.bare = true
  · rw [if_pos hbare] at h
    cases h
  rw [if_neg hbare] at h
  rw [whole, if_neg hbare, EventParser.more_append]
  rw [Bool.not_eq_true] at hbare
  have hgoes := drain_continues hsep rest (s.more text) hbare
  cases hdrain : x.drain (s.more text) with
  | mk given result =>
    rw [hdrain] at h
    cases result with
    | ok t => cases h
    | error failure =>
      obtain ⟨e', t⟩ := failure
      cases h
      rw [hgoes.failed e t (by rw [hdrain])]

/-- **A run gives out a first part of the whole text's content, and all of it
where it ends normally; its outcome is that of the whole text.** -/
theorem run_whole (hsep : Separate x.stripTokens) (chunks : List Text) :
    ∀ s : EventParser, x.Ready s → (x.run s chunks).2 = (x.whole s chunks.flatten).2 ∧
      contentOf (x.run s chunks).1 <+: contentOf (x.whole s chunks.flatten).1 ∧
      ((x.run s chunks).2 = none → SameOutput (x.run s chunks).1 (x.whole s chunks.flatten).1) := by
  induction chunks with
  | nil =>
    intro s hready
    rw [List.flatten_nil, whole, EventParser.more_nil]
    by_cases hbare : s.bare = true
    · rw [if_pos hbare]
      exact ⟨rfl, List.prefix_rfl, fun _ => ⟨rfl, rfl⟩⟩
    · rw [if_neg hbare]
      obtain ⟨hend, hout⟩ := hready.drained (by simpa using hbare)
      cases hdrain : x.drain s with
      | mk given result =>
        rw [hdrain] at hend hout
        simp only at hend hout
        subst hend
        have hsame : SameOutput (x.run s []).1 (given ++ (x.ending s).1) := by
          constructor
          · rw [contentOf_append, hout.1]
            rfl
          · rw [callsOf_append, hout.2]
            rfl
        exact ⟨rfl, by simp only [hsame.1, List.prefix_rfl], fun _ => hsame⟩
  | cons chunk chunks ih =>
    intro s hready
    rw [List.flatten_cons, run]
    cases hfeed : x.feed s chunk with
    | mk result t =>
      cases result with
      | error e =>
        have hend := feed_whole_error hsep hready hfeed chunks.flatten
        exact ⟨hend.symm, List.nil_prefix, fun h => by cases h⟩
      | ok events =>
        obtain ⟨hready', hwhole⟩ := feed_whole hsep hready hfeed
        obtain ⟨hout, hend⟩ := hwhole chunks.flatten
        obtain ⟨hsame, hpart, hall⟩ := ih t hready'
        simp only
        refine ⟨hsame.trans hend.symm, ?_, ?_⟩
        · rw [hout.1, contentOf_append, contentOf_append]
          exact (List.prefix_append_right_inj _).2 hpart
        · intro hnone
          exact ((hall hnone).append_left events).trans ⟨hout.1.symm, hout.2.symm⟩

theorem contentOf_ending (h : s.inProtocol = true ∨ s.bare = true) :
    contentOf (x.ending s).1 = [] := by
  have hclose : ∀ t : EventParser, t.inProtocol = s.inProtocol → t.bare = s.bare →
      ∀ events u, x.close t = (.ok events, u) → contentOf events = [] := by
    intro t hprotocol hbare events u hclose
    rw [close] at hclose
    by_cases hdone : t.done = true
    · rw [if_pos hdone] at hclose
      cases hclose
      rfl
    rw [if_neg hdone] at hclose
    by_cases hopen : t.bare = true ∨ t.inBlock = true
    · simp only [if_pos hopen] at hclose
      cases hclose
    simp only [if_neg hopen] at hclose
    rcases h with hlatch | hs
    · rw [if_pos (hprotocol.trans hlatch)] at hclose
      cases hclose
      rfl
    · exact absurd (.inl (hbare.trans hs)) hopen
  have hfinish : ∀ events u, x.finish s = (.ok events, u) → contentOf events = [] := by
    intro events u hfinish
    rw [finish] at hfinish
    split at hfinish
    · cases hfinish
    split at hfinish
    · split at hfinish
      · cases hfinish
      · exact hclose s rfl rfl events u hfinish
      · cases hfinish
        rfl
    · exact hclose s rfl rfl events u hfinish
  rw [ending, run]
  cases hend : x.finish s with
  | mk result t =>
    cases result with
    | error e => rfl
    | ok events => exact hfinish events t hend

theorem lstrip_opener (w : Text) : lstrip (w ++ blockOpener) = lstrip w ++ blockOpener := by
  by_cases hw : lstrip w = []
  · rw [lstrip, List.dropWhile_append]
    simp only [lstrip] at hw ⊢
    rw [hw]
    rfl
  · exact lstrip_append hw blockOpener

/-- A strip token that starts before an opener ends before it. -/
theorem token_before_opener (hsep : Separate x.stripTokens) {token a : Text}
    (ht : token ∈ x.stripTokens) (hpre : token <+: a ++ blockOpener) : token <+: a := by
  by_cases hlen : token.length ≤ a.length
  · exact List.prefix_of_prefix_length_le hpre (List.prefix_append _ _) hlen
  exfalso
  have ha : a <+: token :=
    List.prefix_of_prefix_length_le (List.prefix_append _ _) hpre (by omega)
  obtain ⟨b, rfl⟩ := ha
  have hb : b <+: blockOpener := (List.prefix_append_right_inj a).1 hpre
  have hbne : b ≠ [] := by
    rintro rfl
    simp at hlen
  by_cases hane : a = []
  · subst hane
    have heq := hsep.free.eq_of_prefix b (by simpa using .inr (.inr ht)) blockOpener (by simp) hb
    exact hsep.opener_fresh (heq ▸ ht)
  · exact hsep.overlap _ ht a b hane hbne rfl hb

theorem opener_not_in_token (hsep : Separate x.stripTokens) {token a : Text}
    (ht : token ∈ x.stripTokens) : ¬ a ++ blockOpener <+: token := by
  rintro ⟨b, rfl⟩
  have hmem : blockOpener ∈ blockOpener :: x.stripTokens := List.mem_cons_self
  have hne : blockOpener ≠ [] := by decide
  rcases hsep.inside _ hmem _ (List.mem_cons_of_mem _ ht) a b (by simp) with rfl | rfl
  · have heq := hsep.free.eq_of_prefix blockOpener (by simp) ([] ++ blockOpener ++ b)
      (by simpa using .inr (.inr ht)) ⟨b, rfl⟩
    exact hsep.opener_fresh (by rw [← heq] at ht; exact ht)
  · by_cases ha : a = []
    · subst ha
      exact hsep.opener_fresh (by simpa using ht)
    · exact hsep.overlap _ ht a blockOpener ha hne (by simp) List.prefix_rfl

/-- The text up to an opener: what is given out is part of what comes before,
and the parser is in protocol behind it. -/
structure Latches (x : Session O) (s : EventParser) (before : Text) : Prop where
  sublist : (contentOf (x.drain s).1).Sublist before
  latched : ∀ t, (x.drain s).2 = .ok t → t.inProtocol = true

theorem latches_of_latched (hsep : Separate x.stripTokens) (hlatch : s.inProtocol = true)
    (before : Text) : Latches x s before where
  sublist := by
    rw [drain_latched hsep s hlatch]
    exact List.nil_sublist before
  latched t ht := ((drain_keeps hsep s t ht).latch hlatch).1

/-- A turn that goes on before the opener, and gives out part of `front`. -/
theorem latches_again (hsep : Separate x.stripTokens) (hbuf : s.buf ≠ []) {events : List Event}
    {before : Text} (front rest : Text) (hturn : x.turn s = .again events s')
    (hevents : (contentOf events).Sublist front) (hsub : (front ++ rest).Sublist before)
    (hrest : Latches x s' rest) : Latches x s before := by
  have hdrain := drain_eq hsep hbuf
  rw [hturn] at hdrain
  constructor
  · rw [hdrain, contentOf_append]
    exact (hevents.append hrest.sublist).trans hsub
  · intro t ht
    rw [hdrain] at ht
    exact hrest.latched t ht

theorem latches_scan (hsep : Separate x.stripTokens) {w : Text} (hbuf : s.buf = w ++ blockOpener)
    (hturn : x.turn s = x.scan { s with atStart := false })
    (ih : ∀ (t : EventParser) (v : Text), turnsLeft t < turnsLeft s → t.buf = v ++ blockOpener →
      t.inBlock = s.inBlock → t.bare = s.bare → Latches x t v) : Latches x s w := by
  have hfree : PrefixFree x.scanMarkers := hsep.scan_free
  have hopener : blockOpener ∈ x.scanMarkers := List.mem_cons_self
  have hne : s.buf ≠ [] := by
    intro h
    rw [hbuf] at h
    exact absurd (List.append_eq_nil_iff.1 h).2 (by decide)
  have hthere : blockOpener <+: s.buf.drop w.length := by rw [hbuf, List.drop_left]
  cases hfirst : firstMarker x.scanMarkers s.buf with
  | none => exact absurd hthere ((firstMarker_eq_none hfree).1 hfirst _ hopener _)
  | some found =>
    obtain ⟨idx, marker⟩ := found
    obtain ⟨hmem, hpre, hbefore⟩ := (firstMarker_eq_some hfree).1 hfirst
    have hidx : idx ≤ w.length :=
      Nat.le_of_not_lt fun hlt => hbefore blockOpener hopener w.length hlt hthere
    have htake : s.buf.take idx = w.take idx := by
      rw [hbuf]
      exact List.take_append_of_le_length hidx
    have hdrop : s.buf.drop idx = w.drop idx ++ blockOpener := by
      rw [hbuf]
      exact List.drop_append_of_le_length hidx
    have hgiven : ∀ t : EventParser, (contentOf (contentEvents t (w.take idx))).Sublist
        (w.take idx) := by
      intro t
      rw [contentOf_contentEvents]
      split
      · exact List.nil_sublist _
      · exact List.Sublist.refl _
    rw [scan] at hturn
    simp only [hfirst, htake] at hturn
    by_cases hmarker : marker = blockOpener
    · rw [if_pos hmarker] at hturn
      refine latches_again hsep hne (w.take idx) (w.drop idx) hturn (hgiven _) ?_
        (latches_of_latched hsep rfl _)
      rw [List.take_append_drop]
    · rw [if_neg hmarker] at hturn
      have htoken : marker ∈ x.stripTokens := by
        rcases List.mem_cons.1 hmem with h | h
        · exact absurd h hmarker
        · exact h
      rw [hdrop] at hpre
      have hshort := token_before_opener hsep htoken hpre
      have hrest : s.buf.drop (idx + marker.length) =
          w.drop (idx + marker.length) ++ blockOpener := by
        rw [← List.drop_drop, hdrop, List.drop_append_of_le_length hshort.length_le, List.drop_drop]
      have hsub : (w.take idx ++ w.drop (idx + marker.length)).Sublist w := by
        have hparts : (w.take idx ++ (w.drop idx).drop marker.length).Sublist
            (w.take idx ++ w.drop idx) := (List.Sublist.refl _).append (List.drop_sublist _ _)
        rwa [List.drop_drop, List.take_append_drop] at hparts
      exact latches_again hsep hne (w.take idx) (w.drop (idx + marker.length)) hturn (hgiven _)
        hsub (ih _ _ (turn_less hsep hturn) hrest rfl rfl)

theorem drain_latches (hsep : Separate x.stripTokens) :
    ∀ (s : EventParser) (w : Text), s.buf = w ++ blockOpener → s.inBlock = false →
      s.bare = false → Latches x s w := by
  intro s
  induction hn : turnsLeft s using Nat.strongRecOn generalizing s with
  | ind n ih =>
    intro w hbuf hblock hbare
    have hnext : ∀ (t : EventParser) (v : Text), turnsLeft t < turnsLeft s →
        t.buf = v ++ blockOpener → t.inBlock = s.inBlock → t.bare = s.bare → Latches x t v :=
      fun t v hless htext hblock' hbare' => ih (turnsLeft t) (hn ▸ hless) t rfl v htext
        (hblock'.trans hblock) (hbare'.trans hbare)
    by_cases hstart : s.atStart = true
    · have hhead : lstrip s.buf = lstrip w ++ blockOpener := by rw [hbuf, lstrip_opener]
      have hne : s.buf ≠ [] := by
        intro h
        rw [hbuf] at h
        exact absurd (List.append_eq_nil_iff.1 h).2 (by decide)
      have hturn := turn_start (x := x) hblock hstart
      rw [hhead] at hturn
      cases hfind : x.stripTokens.find? (·.isPrefixOf (lstrip w ++ blockOpener)) with
      | some token =>
        have hpre : token <+: lstrip w ++ blockOpener := by
          have hfound := List.find?_some hfind
          exact List.isPrefixOf_iff_prefix.1 hfound
        have hshort := token_before_opener hsep (List.mem_of_find?_eq_some hfind) hpre
        rw [hfind] at hturn
        have hfront : s.buf.take (s.buf.length - (lstrip w ++ blockOpener).length) =
            w.take (w.length - (lstrip w).length) := by
          rw [hbuf, List.length_append, List.length_append, Nat.add_sub_add_right]
          exact List.take_append_of_le_length (Nat.sub_le _ _)
        have hrest : s.buf.take (s.buf.length - (lstrip w ++ blockOpener).length) ++
            (lstrip w ++ blockOpener).drop token.length =
              (w.take (w.length - (lstrip w).length) ++ (lstrip w).drop token.length) ++
                blockOpener := by
          rw [hfront, List.drop_append_of_le_length hshort.length_le, List.append_assoc]
        simp only [hrest] at hturn
        have hsub : (w.take (w.length - (lstrip w).length) ++
            (lstrip w).drop token.length).Sublist w := by
          have hparts : (w.take (w.length - (lstrip w).length) ++
              (lstrip w).drop token.length).Sublist
                (w.take (w.length - (lstrip w).length) ++ lstrip w) :=
            (List.Sublist.refl _).append (List.drop_sublist _ _)
          rwa [take_lstrip] at hparts
        exact latches_again hsep hne [] _ hturn (List.Sublist.refl _) hsub
          (hnext _ _ (turn_less hsep hturn) rfl rfl rfl)
      | none =>
        have hany : ¬ x.stripTokens.any ((lstrip w ++ blockOpener).isPrefixOf ·) = true := by
          rw [List.any_eq_true]
          intro hex
          obtain ⟨token, ht, hpre⟩ := hex
          exact opener_not_in_token hsep ht (List.isPrefixOf_iff_prefix.1 hpre)
        have hpart : ¬ (lstrip w ++ blockOpener).isPrefixOf barePrefix = true := by
          intro hpre
          have hlen := (List.isPrefixOf_iff_prefix.1 hpre).length_le
          rw [List.length_append] at hlen
          have hlong : barePrefix.length < blockOpener.length := by decide
          omega
        rw [hfind] at hturn
        simp only [if_neg hany, if_neg hpart] at hturn
        by_cases hbarePrefix : barePrefix.isPrefixOf (lstrip w ++ blockOpener) = true
        · rw [if_pos hbarePrefix] at hturn
          have hdrain := drain_eq hsep hne
          rw [hturn] at hdrain
          constructor
          · rw [hdrain]
            exact List.nil_sublist w
          · intro t ht
            rw [hdrain] at ht
            cases ht
            rfl
        · rw [if_neg hbarePrefix] at hturn
          exact latches_scan hsep hbuf hturn hnext
    · rw [Bool.not_eq_true] at hstart
      exact latches_scan hsep hbuf (turn_scan hblock hstart) hnext

/-- What is given out of a text before an opener behind it. -/
def contentBefore (x : Session O) (before : Text) : Text :=
  contentOf (x.drain (EventParser.start.more (before ++ blockOpener))).1

/-- Behind an opener nothing is added to the content. -/
theorem contentOf_whole_opener (hsep : Separate x.stripTokens) (u v : Text) :
    contentOf (x.whole .start (u ++ (blockOpener ++ v))).1 = x.contentBefore u ∧
      (x.contentBefore u).Sublist u := by
  set opened := EventParser.start.more (u ++ blockOpener)
  have hlatches := drain_latches (x := x) hsep opened u rfl rfl rfl
  refine ⟨?_, hlatches.sublist⟩
  have hmore : EventParser.start.more (u ++ (blockOpener ++ v)) = opened.more v := by
    rw [← EventParser.more_append, List.append_assoc]
  have hgoes := drain_continues (x := x) hsep v opened rfl
  rw [whole, if_neg (by decide), hmore, contentBefore]
  cases hdrain : x.drain opened with
  | mk given result =>
    have hresult : (x.drain opened).2 = result := by
      rw [hdrain]
    cases result with
    | error failure =>
      rw [hgoes.failed failure.1 failure.2 hresult, hdrain]
    | ok t =>
      have hlatch := hlatches.latched t hresult
      by_cases hbare : t.bare = true
      · rw [hgoes.bare t hresult hbare, hdrain]
        have hquiet := contentOf_ending (x := x) (s := t.more v) (.inl hlatch)
        simp only [contentOf_append, hquiet, List.append_nil]
      · rw [Bool.not_eq_true] at hbare
        obtain ⟨hout, hend⟩ := hgoes.waiting t hresult hbare
        have hquiet := drain_latched hsep (t.more v) hlatch
        have hcontent := hout.1
        rw [contentOf_append, hquiet, List.append_nil, hdrain] at hcontent
        cases hlong : x.drain (opened.more v) with
        | mk long longEnd =>
          rw [hlong] at hcontent hend
          cases longEnd with
          | error failure => exact hcontent
          | ok t' =>
            have hkeeps := drain_keeps hsep (t.more v) t' hend.symm
            have hlatch' := (hkeeps.latch hlatch).1
            simp only [contentOf_append]
            rw [contentOf_ending (.inl hlatch'), List.append_nil]
            exact hcontent

/-- An output that opens with the bare form has no content. -/
theorem contentOf_whole_bare (hsep : Separate x.stripTokens) {text : Text}
    (h : barePrefix <+: lstrip text) : contentOf (x.whole .start text).1 = [] := by
  have hne : (EventParser.start.more text).buf ≠ [] := by
    rintro htext
    have hnil : text = [] := htext
    rw [hnil] at h
    exact absurd h (by decide)
  have hfind : x.stripTokens.find? (·.isPrefixOf (lstrip text)) = none := by
    rw [List.find?_eq_none]
    intro token ht hpre
    have heq := hsep.free.eq (by simp) (by simpa using .inr (.inr ht)) h
      (List.isPrefixOf_iff_prefix.1 hpre)
    exact hsep.bare_fresh (heq ▸ ht)
  have hany : ¬ x.stripTokens.any ((lstrip text).isPrefixOf ·) = true := by
    rw [List.any_eq_true]
    intro hex
    obtain ⟨token, ht, hpre⟩ := hex
    have hlong := h.trans (List.isPrefixOf_iff_prefix.1 hpre)
    have heq := hsep.free.eq_of_prefix barePrefix (by simp) token (by simpa using .inr (.inr ht))
      hlong
    exact hsep.bare_fresh (heq ▸ ht)
  have hturn := turn_start (x := x) (s := EventParser.start.more text) rfl rfl
  have hbuf : (EventParser.start.more text).buf = text := rfl
  rw [hbuf, hfind] at hturn
  simp only [if_neg hany, if_pos (List.isPrefixOf_iff_prefix.2 h)] at hturn
  have hdrain := drain_eq hsep hne
  rw [hturn] at hdrain
  rw [whole, if_neg (by decide), hdrain]
  simp only [List.nil_append]
  exact contentOf_ending (.inr rfl)

/-- **Protocol text never leaks.** Where the markers keep apart, the outcome of
a run is the same for every division of the text into chunks, and on the normal
outcome so are the content and the calls. What is given out before an opener
depends on the text before it alone and is part of it, and whatever comes
behind adds nothing; an output that opens with the bare form has no content. -/
theorem run_chunks (x : Session O) (hsep : Separate x.stripTokens) (chunks : List Text) :
    (∀ chunks' : List Text, chunks'.flatten = chunks.flatten →
      (x.run .start chunks').2 = (x.run .start chunks).2 ∧
        ((x.run .start chunks).2 = none →
          contentOf (x.run .start chunks').1 = contentOf (x.run .start chunks).1 ∧
            callsOf (x.run .start chunks').1 = callsOf (x.run .start chunks).1)) ∧
    (∀ u v : Text, chunks.flatten = u ++ (blockOpener ++ v) →
      contentOf (x.run .start chunks).1 <+: x.contentBefore u ∧ (x.contentBefore u).Sublist u) ∧
    (barePrefix <+: lstrip chunks.flatten → contentOf (x.run .start chunks).1 = []) := by
  obtain ⟨hend, hpart, hall⟩ := run_whole hsep chunks .start (ready_start x)
  refine ⟨?_, ?_, ?_⟩
  · intro chunks' htext
    obtain ⟨hend', -, hall'⟩ := run_whole hsep chunks' .start (ready_start x)
    rw [htext] at hend' hall'
    have hsame : (x.run .start chunks').2 = (x.run .start chunks).2 := hend'.trans hend.symm
    refine ⟨hsame, ?_⟩
    intro hnone
    have hout := hall hnone
    have hout' := hall' (hsame.trans hnone)
    exact ⟨hout'.1.trans hout.1.symm, hout'.2.trans hout.2.symm⟩
  · intro u v htext
    obtain ⟨hcontent, hsub⟩ := contentOf_whole_opener (x := x) hsep u v
    rw [htext, hcontent] at hpart
    exact ⟨hpart, hsub⟩
  · intro hbare
    rw [contentOf_whole_bare hsep hbare] at hpart
    exact List.prefix_nil.1 hpart

end Session

/-- A parser that may call any tool and strips these tokens. -/
def anyTool (stripTokens : List Text) : Session Unit where
  python := defaults
  frames := 100
  toolConfig := { tools := [], forcedName := none }
  stripTokens := stripTokens
  newCallId _ := []

theorem separate_bos : Separate ["<bos>".toList] where
  free := ⟨by decide, by decide⟩
  opener_fresh := by decide
  bare_fresh := by decide
  inside := by
    have hdrop : ∀ v ∈ [blockOpener, "<bos>".toList], ∀ w ∈ [blockOpener, "<bos>".toList],
        ∀ i < w.length, 0 < i → ¬ v <+: w.drop i := by decide
    intro v hv w hw a b hshape
    by_contra hboth
    rw [not_or] at hboth
    have hlen := congrArg List.length hshape
    have hb := List.length_pos_iff.2 hboth.2
    simp only [List.length_append] at hlen
    apply hdrop v hv w hw a.length (by omega) (List.length_pos_iff.2 hboth.1)
    rw [hshape, List.drop_left]
    exact List.prefix_append v b
  overlap := by
    have hdrop : ∀ w ∈ ["<bos>".toList], ∀ i < w.length, 0 < i → ¬ w.drop i <+: blockOpener := by
      decide
    intro w hw a b ha hb hshape
    have hlen := congrArg List.length hshape
    have hpos := List.length_pos_iff.2 hb
    rw [List.length_append] at hlen
    have hno := hdrop w hw a.length (by omega) (List.length_pos_iff.2 ha)
    rwa [hshape, List.drop_left] at hno

theorem run_chunks_bos :
    contentOf ((anyTool ["<bos>".toList]).run .start
        ["<bos>hi <|tool".toList, "_call>call:f{}<tool_call|> more".toList]).1 <+:
      (anyTool ["<bos>".toList]).contentBefore "<bos>hi ".toList :=
  ((Session.run_chunks (anyTool ["<bos>".toList]) separate_bos
    ["<bos>hi <|tool".toList, "_call>call:f{}<tool_call|> more".toList]).2.1
      "<bos>hi ".toList "call:f{}<tool_call|> more".toList rfl).1

/-- No marker begins another, but `<b>` lies inside `<a<b>c>`: cut inside the
outer marker, the text gives out what it does not give out in one piece. -/
theorem not_run_chunks_nested :
    PrefixFree (blockOpener :: barePrefix :: ["<a<b>c>".toList, "<b>".toList]) ∧
      (anyTool ["<a<b>c>".toList, "<b>".toList]).run .start ["x<a<b>c>".toList] =
        ([.content "x".toList], none) ∧
      (anyTool ["<a<b>c>".toList, "<b>".toList]).run .start ["x<a<b>".toList, "c>".toList] =
        ([.content "x<a".toList, .content "c>".toList], none) :=
  ⟨⟨by decide, by decide⟩, by decide +kernel, by decide +kernel⟩

end EdgeLLM.Ports.ToolCalling.Gemma4
