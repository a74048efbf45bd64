import EdgeLLM.Verified.Splitting

/-!
# Several markers in a text that comes in chunks

A splitter looks for the earliest of several markers, and where none has come
it keeps the longest end of the text that some marker begins with. Where no
marker begins another (`PrefixFree`) and none lies inside another
(`NoneInside`), more text neither moves a marker that was found nor makes one
start in what was not kept.
-/

namespace EdgeLLM.Verified.Markers

open Verified Splitting

variable {α : Type*}

/-- No marker is empty, or begins another one. -/
structure PrefixFree (markers : List (List α)) : Prop where
  ne_nil : [] ∉ markers
  eq_of_prefix : ∀ v ∈ markers, ∀ w ∈ markers, v <+: w → v = w

/-- No marker lies inside another one with something on both sides. -/
def NoneInside (markers : List (List α)) : Prop :=
  ∀ v ∈ markers, ∀ w ∈ markers, ∀ a b, w = a ++ (v ++ b) → a = [] ∨ b = []

variable {v w marker : List α} {tried : List (List α)} {idx : Nat}

theorem PrefixFree.eq {markers : List (List α)} (h : PrefixFree markers) {text : List α}
    (hv : v ∈ markers) (hw : w ∈ markers) (hvt : v <+: text) (hwt : w <+: text) : v = w := by
  rcases List.prefix_or_prefix_of_prefix hvt hwt with hvw | hwv
  · exact h.eq_of_prefix v hv w hw hvw
  · exact (h.eq_of_prefix w hw v hv hwv).symm

variable [DecidableEq α]

/-- The better of what was found and of what the next marker gives. -/
def nearer (text : List α) (best : Option (Nat × List α)) (marker : List α) :
    Option (Nat × List α) :=
  match find marker text, best with
  | none, best => best
  | some idx, none => some (idx, marker)
  | some idx, some found => if idx < found.1 then some (idx, marker) else some found

/-- The earliest marker in the text with its place: the markers are tried in
turn. -/
def firstMarker (markers : List (List α)) (text : List α) : Option (Nat × List α) :=
  markers.foldl (nearer text) none

/-- No marker of the list starts in the text. -/
def Absent (markers : List (List α)) (text : List α) : Prop :=
  ∀ w ∈ markers, ∀ j, ¬ w <+: text.drop j

/-- What the loop holds after the markers it has tried. -/
private def Best (tried : List (List α)) (text : List α) : Option (Nat × List α) → Prop
  | none => Absent tried text
  | some found => found.2 ∈ tried ∧ found.2 <+: text.drop found.1 ∧
      ∀ w ∈ tried, ∀ j < found.1, ¬ w <+: text.drop j

private theorem best_step {text : List α} {best : Option (Nat × List α)} (hmarker : marker ≠ [])
    (h : Best tried text best) : Best (tried ++ [marker]) text (nearer text best marker) := by
  have hsplit : ∀ w, w ∈ tried ++ [marker] → w ∈ tried ∨ w = marker := by
    intro w hw
    simpa using hw
  unfold nearer
  cases hfind : find marker text with
  | none =>
    have habsent := (find_eq_none hmarker).1 hfind
    cases best with
    | none =>
      intro w hw j
      rcases hsplit w hw with h' | rfl
      · exact h w h' j
      · exact habsent j
    | some found =>
      refine ⟨List.mem_append_left _ h.1, h.2.1, ?_⟩
      intro w hw j hj
      rcases hsplit w hw with h' | rfl
      · exact h.2.2 w h' j hj
      · exact habsent j
  | some idx =>
    obtain ⟨-, hpre, hfirst⟩ := find_eq_some.1 hfind
    cases best with
    | none =>
      refine ⟨by simp, hpre, ?_⟩
      intro w hw j hj
      rcases hsplit w hw with h' | rfl
      · exact h w h' j
      · exact hfirst j hj
    | some found =>
      by_cases hlt : idx < found.1
      · simp only [if_pos hlt]
        refine ⟨by simp, hpre, ?_⟩
        intro w hw j hj
        rcases hsplit w hw with h' | rfl
        · exact h.2.2 w h' j (Nat.lt_trans hj hlt)
        · exact hfirst j hj
      · simp only [if_neg hlt]
        refine ⟨List.mem_append_left _ h.1, h.2.1, ?_⟩
        intro w hw j hj
        rcases hsplit w hw with h' | rfl
        · exact h.2.2 w h' j hj
        · exact hfirst j (by omega)

private theorem best_firstMarker {markers : List (List α)} (hne : [] ∉ markers) (text : List α) :
    Best markers text (firstMarker markers text) := by
  suffices h : ∀ tried best, Best tried text best →
      Best (tried ++ markers) text (markers.foldl (nearer text) best) from
    h [] none fun w hw => by cases hw
  induction markers with
  | nil =>
    intro tried best h
    rwa [List.append_nil]
  | cons marker markers ih =>
    intro tried best h
    have hmarker : marker ≠ [] := fun h => hne (by simp [h])
    have hrest : [] ∉ markers := fun h => hne (by simp [h])
    have hnext := ih hrest _ _ (best_step hmarker h)
    rwa [List.append_assoc, List.singleton_append] at hnext

variable {markers : List (List α)} {text : List α}

theorem firstMarker_eq_none (h : PrefixFree markers) :
    firstMarker markers text = none ↔ Absent markers text := by
  have hbest := best_firstMarker h.ne_nil text
  constructor
  · intro hnone
    rwa [hnone] at hbest
  · intro habsent
    cases hfirst : firstMarker markers text with
    | none => rfl
    | some found =>
      rw [hfirst] at hbest
      exact absurd hbest.2.1 (habsent _ hbest.1 _)

theorem firstMarker_eq_some (h : PrefixFree markers) :
    firstMarker markers text = some (idx, marker) ↔ marker ∈ markers ∧ marker <+: text.drop idx ∧
        ∀ w ∈ markers, ∀ j < idx, ¬ w <+: text.drop j := by
  have hbest := best_firstMarker h.ne_nil text
  constructor
  · intro hsome
    rwa [hsome] at hbest
  · intro hspec
    obtain ⟨hmem, hpre, hfirst⟩ := hspec
    cases hfound : firstMarker markers text with
    | none => exact absurd hpre ((firstMarker_eq_none h).1 hfound _ hmem _)
    | some found =>
      rw [hfound] at hbest
      have hidx : found.1 = idx := by
        apply Nat.le_antisymm
        · exact Nat.le_of_not_lt fun hlt => hbest.2.2 marker hmem idx hlt hpre
        · exact Nat.le_of_not_lt fun hlt => hfirst found.2 hbest.1 found.1 hlt hbest.2.1
      have heq : found.2 = marker := h.eq hbest.1 hmem (hidx ▸ hbest.2.1) hpre
      rw [← hidx, ← heq]

omit [DecidableEq α] in
theorem length_of_prefix_drop (hne : marker ≠ []) (hpre : marker <+: text.drop idx) :
    idx + marker.length ≤ text.length := by
  have hlen := hpre.length_le
  have hpos := List.length_pos_iff.2 hne
  rw [List.length_drop] at hlen
  omega

omit [DecidableEq α] in
theorem prefix_drop_append (hne : marker ≠ []) (hpre : marker <+: text.drop idx) (more : List α) :
    marker <+: (text ++ more).drop idx := by
  have hlen := length_of_prefix_drop hne hpre
  rw [List.drop_append_of_le_length (by omega)]
  exact hpre.trans (List.prefix_append _ _)

omit [DecidableEq α] in
/-- A marker that starts before another one in a longer text, and is not in the
text yet, would hold the other one inside. -/
theorem NoneInside.not_starts (hinside : NoneInside markers) (hfree : PrefixFree markers)
    {more : List α} {i j : Nat} (hv : v ∈ markers) (hw : w ∈ markers) (hvi : v <+: text.drop i)
    (hji : j < i) (hno : ¬ w <+: text.drop j) : ¬ w <+: (text ++ more).drop j := by
  intro hpre
  have hne : v ≠ [] := fun h => hfree.ne_nil (h ▸ hv)
  have hlen := length_of_prefix_drop hne hvi
  have hvpos := List.length_pos_iff.2 hne
  -- the text ends inside `w`
  have hlong : text.length < j + w.length := by
    apply Nat.lt_of_not_le
    intro hle
    apply hno
    rw [List.drop_append_of_le_length (by omega)] at hpre
    apply List.prefix_of_prefix_length_le hpre (List.prefix_append _ _)
    rw [List.length_drop]
    omega
  have hvw : v <+: w.drop (i - j) := by
    have hboth : v <+: (text ++ more).drop i := prefix_drop_append hne hvi more
    obtain ⟨r, hr⟩ := hpre
    have hdrop : (text ++ more).drop i = w.drop (i - j) ++ r := by
      rw [show i = j + (i - j) by omega, ← List.drop_drop, ← hr,
        List.drop_append_of_le_length (by omega), show j + (i - j) - j = i - j by omega]
    rw [hdrop] at hboth
    apply List.prefix_of_prefix_length_le hboth (List.prefix_append _ _)
    rw [List.length_drop]
    omega
  obtain ⟨b, hb⟩ := hvw
  have hshape : w = w.take (i - j) ++ (v ++ b) := by rw [hb, List.take_append_drop]
  rcases hinside v hv w hw _ _ hshape with hnil | rfl
  · have hzero := List.take_eq_nil_iff.1 hnil
    rcases hzero with h | rfl
    · omega
    · simp at hlong
      omega
  · have hlenw := congrArg List.length hb
    simp only [List.append_nil, List.length_drop] at hlenw
    omega

/-- More text behind a marker does not move it. -/
theorem firstMarker_append (hfree : PrefixFree markers) (hinside : NoneInside markers)
    (h : firstMarker markers text = some (idx, marker)) (more : List α) :
    firstMarker markers (text ++ more) = some (idx, marker) := by
  obtain ⟨hmem, hpre, hfirst⟩ := (firstMarker_eq_some hfree).1 h
  rw [firstMarker_eq_some hfree]
  refine ⟨hmem, prefix_drop_append (fun h => hfree.ne_nil (h ▸ hmem)) hpre more, ?_⟩
  intro w hw j hj
  exact hinside.not_starts hfree hmem hw hpre hj (hfirst w hw j hj)

/-- The length of the longest end of the text that is a proper beginning of one
of the markers. -/
def heldLength (text : List α) (markers : List (List α)) : Nat :=
  markers.foldl (fun best marker =>
    scanDown (fun size => (marker.take size).isSuffixOf text)
      (min text.length (marker.length - 1)) best) 0

/-- The lengths the loop may leave. -/
private def Longest (tried : List (List α)) (text : List α) (best : Nat) : Prop :=
  (best = 0 ∨ ∃ w ∈ tried, EndsWithin w text best) ∧
    ∀ w ∈ tried, ∀ size, EndsWithin w text size → size ≤ best

private theorem longest_step {best : Nat} (h : Longest tried text best) :
    Longest (tried ++ [marker]) text (scanDown (fun size => (marker.take size).isSuffixOf text)
        (min text.length (marker.length - 1)) best) := by
  have hge := le_scanDown (fun size => (marker.take size).isSuffixOf text)
    (min text.length (marker.length - 1)) best
  constructor
  · rcases scanDown_cases (fun size => (marker.take size).isSuffixOf text)
      (min text.length (marker.length - 1)) best with heq | hfound
    · rw [heq]
      rcases h.1 with hzero | hex
      · exact .inl hzero
      · obtain ⟨w, hw, hends⟩ := hex
        exact .inr ⟨w, List.mem_append_left _ hw, hends⟩
    · obtain ⟨hle, hsuffix⟩ := hfound
      by_cases hmarker : marker = []
      · subst hmarker
        left
        simpa using hle
      · refine .inr ⟨marker, by simp, ?_, ?_, List.isSuffixOf_iff_suffix.1 hsuffix⟩
        · omega
        · have hpos := List.length_pos_iff.2 hmarker
          omega
  · intro w hw size hends
    rcases List.mem_append.1 hw with h' | h'
    · exact Nat.le_trans (h.2 w h' size hends) hge
    · rw [List.mem_singleton.1 h'] at hends
      obtain ⟨hle, hlt, hsuffix⟩ := hends
      apply le_scanDown_of (by omega)
      exact List.isSuffixOf_iff_suffix.2 hsuffix

private theorem longest_heldLength (markers : List (List α)) (text : List α) :
    Longest markers text (heldLength text markers) := by
  suffices h : ∀ tried best, Longest tried text best →
      Longest (tried ++ markers) text (markers.foldl (fun best marker =>
        scanDown (fun size => (marker.take size).isSuffixOf text)
          (min text.length (marker.length - 1)) best) best) from
    h [] 0 ⟨.inl rfl, fun w hw => by cases hw⟩
  induction markers with
  | nil =>
    intro tried best h
    rwa [List.append_nil]
  | cons marker markers ih =>
    intro tried best h
    have hnext := ih (tried ++ [marker]) _ (longest_step h)
    rwa [List.append_assoc, List.singleton_append] at hnext

theorem heldLength_cases (markers : List (List α)) (text : List α) :
    heldLength text markers = 0 ∨ ∃ w ∈ markers, EndsWithin w text (heldLength text markers) :=
  (longest_heldLength markers text).1

theorem le_heldLength (hw : w ∈ markers) {size : Nat} (h : EndsWithin w text size) :
    size ≤ heldLength text markers := (longest_heldLength markers text).2 w hw size h

theorem heldLength_le (markers : List (List α)) (text : List α) :
    heldLength text markers ≤ text.length := by
  rcases heldLength_cases markers text with h | h
  · omega
  · obtain ⟨w, -, hends⟩ := h
    exact hends.1

/-- What is given out, and what is kept. -/
def released (text : List α) (markers : List (List α)) : List α :=
  text.take (text.length - heldLength text markers)

def held (text : List α) (markers : List (List α)) : List α :=
  text.drop (text.length - heldLength text markers)

theorem released_append_held (markers : List (List α)) (text : List α) :
    released text markers ++ held text markers = text := List.take_append_drop _ _

theorem held_length (markers : List (List α)) (text : List α) :
    (held text markers).length = heldLength text markers := by
  have hle := heldLength_le markers text
  rw [held, List.length_drop]
  omega

/-- No marker starts in what is given out, whatever comes. -/
theorem settled_released (habsent : Absent markers text) (hw : w ∈ markers) :
    Settled w (released text markers) (held text markers) := by
  apply Settled.of_partial
  · rw [infix_iff_exists_drop]
    intro h
    obtain ⟨j, hj⟩ := h
    exact habsent w hw j hj
  · exact fun size hends => le_heldLength hw hends

theorem firstMarker_released (hfree : PrefixFree markers) (habsent : Absent markers text)
    (more : List α) : firstMarker markers (text ++ more) =
      (firstMarker markers (held text markers ++ more)).map
        fun found => ((released text markers).length + found.1, found.2) := by
  have htext : text ++ more = released text markers ++ (held text markers ++ more) := by
    rw [← List.append_assoc, released_append_held]
  have hbefore : ∀ w ∈ markers, ∀ j < (released text markers).length,
      ¬ w <+: (text ++ more).drop j := by
    intro w hw j hj
    rw [htext]
    exact settled_released habsent hw more j hj
  have hbehind : ∀ j, (text ++ more).drop ((released text markers).length + j) =
      (held text markers ++ more).drop j := by
    intro j
    rw [htext, ← List.drop_drop, List.drop_left]
  cases hfound : firstMarker markers (held text markers ++ more) with
  | none =>
    have hnone := (firstMarker_eq_none hfree).1 hfound
    rw [Option.map_none, firstMarker_eq_none hfree]
    intro w hw j
    by_cases hj : j < (released text markers).length
    · exact hbefore w hw j hj
    · obtain ⟨k, rfl⟩ := Nat.exists_eq_add_of_le (Nat.le_of_not_lt hj)
      rw [hbehind]
      exact hnone w hw k
  | some found =>
    obtain ⟨idx, marker⟩ := found
    obtain ⟨hmem, hpre, hfirst⟩ := (firstMarker_eq_some hfree).1 hfound
    rw [Option.map_some, firstMarker_eq_some hfree]
    refine ⟨hmem, by rwa [hbehind], ?_⟩
    intro w hw j hlt
    by_cases hj : j < (released text markers).length
    · exact hbefore w hw j hj
    · obtain ⟨k, rfl⟩ := Nat.exists_eq_add_of_le (Nat.le_of_not_lt hj)
      rw [hbehind]
      exact hfirst w hw k (by omega)

/-- What is given out earlier is not missed by what is kept later. -/
theorem heldLength_released (markers : List (List α)) (text more : List α) :
    heldLength (text ++ more) markers = heldLength (held text markers ++ more) markers := by
  have hlen := held_length markers text
  have hsuffix : held text markers ++ more <:+ text ++ more := by
    obtain ⟨r, hr⟩ := List.drop_suffix (text.length - heldLength text markers) text
    exact ⟨r, by rw [← List.append_assoc]; exact congrArg (· ++ more) hr⟩
  apply Nat.le_antisymm
  · rcases heldLength_cases markers (text ++ more) with hzero | hex
    · omega
    · obtain ⟨w, hw, hle, hlt, hend⟩ := hex
      have htake : (w.take (heldLength (text ++ more) markers)).length =
          heldLength (text ++ more) markers := List.length_take_of_le (by omega)
      have hshort : heldLength (text ++ more) markers ≤ (held text markers ++ more).length := by
        apply Nat.le_of_not_lt
        intro hlong
        rw [List.length_append] at hlong hle
        -- the same marker would have kept more of the text
        have hearlier : EndsWithin w text (heldLength (text ++ more) markers - more.length) := by
          refine ⟨by omega, by omega, ?_⟩
          obtain ⟨r, hr⟩ := hend
          have hcut := congrArg (List.take text.length) hr
          have hlens := congrArg List.length hr
          rw [List.length_append, htake, List.length_append] at hlens
          rw [List.take_left, List.take_append, List.take_take] at hcut
          refine ⟨r.take text.length, ?_⟩
          have hmin : min (text.length - r.length) (heldLength (text ++ more) markers) =
              heldLength (text ++ more) markers - more.length := by omega
          rwa [hmin] at hcut
        have hkept := le_heldLength hw hearlier
        omega
      apply le_heldLength hw
      exact ⟨hshort, hlt, List.suffix_of_suffix_length_le hend hsuffix (by rw [htake]; exact hshort)⟩
  · rcases heldLength_cases markers (held text markers ++ more) with hzero | hex
    · omega
    · obtain ⟨w, hw, hle, hlt, hend⟩ := hex
      exact le_heldLength hw ⟨Nat.le_trans hle hsuffix.length_le, hlt, hend.trans hsuffix⟩

theorem append_eq_released (markers : List (List α)) (text more : List α) :
    text ++ more = released text markers ++ (held text markers ++ more) := by
  rw [← List.append_assoc, released_append_held]

theorem held_append (markers : List (List α)) (text more : List α) :
    held (text ++ more) markers = held (held text markers ++ more) markers := by
  have hle := heldLength_le markers (held text markers ++ more)
  have hlength := heldLength_released markers text more
  rw [held, held, hlength, append_eq_released markers text more, List.length_append,
    Nat.add_sub_assoc hle, ← List.drop_drop, List.drop_left]

theorem released_append (markers : List (List α)) (text more : List α) :
    released (text ++ more) markers =
      released text markers ++ released (held text markers ++ more) markers := by
  have hboth := released_append_held markers (text ++ more)
  have hinner := released_append_held markers (held text markers ++ more)
  have hjoin : released (text ++ more) markers ++ held (held text markers ++ more) markers =
      (released text markers ++ released (held text markers ++ more) markers) ++
        held (held text markers ++ more) markers := by
    rw [List.append_assoc, hinner, ← held_append, hboth]
    exact append_eq_released markers text more
  exact List.append_cancel_right hjoin

end EdgeLLM.Verified.Markers
