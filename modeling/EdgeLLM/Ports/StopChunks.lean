import EdgeLLM.Ports.StopStrings

/-!
# Stop strings in a text that comes in chunks

`applyStopStringMatch` is called after each chunk until it matches, with
`isFinal` on the last one.  It looks for stop strings in what has come so far:
the first chunk that completes one decides, although a longer stop string that
starts earlier may be completed by a later chunk only.
-/

namespace EdgeLLM.Ports.Generation

open Utf8 (Bytes)
open Verified

/-- The calls over the chunks: what they emit together, and whether one matched. -/
def matchChunks (stops : List Bytes) (buffer : Bytes) : List Bytes → StopMatchOutcome
  | [] => {}
  | chunk :: rest =>
    let call := applyStopStringMatch (buffer ++ chunk) stops (longestStop stops) rest.isEmpty
    if call.1.stopMatched then call.1
    else
      let more := matchChunks stops call.2 rest
      { emitted := call.1.emitted ++ more.emitted, stopMatched := more.stopMatched }

/-- One final call on a text. -/
def matchWhole (stops : List Bytes) (text : Bytes) : StopMatchOutcome :=
  (applyStopStringMatch text stops (longestStop stops) true).1

/-- The text up to the first chunk that completes a stop string. -/
def decidingText (stops : List Bytes) (before : Bytes) : List Bytes → Bytes
  | [] => before
  | chunk :: rest =>
    if (earliest stops (before ++ chunk)).isSome then before ++ chunk
    else decidingText stops (before ++ chunk) rest

variable {stops : List Bytes}

theorem matchWhole_eq (stops : List Bytes) (text : Bytes) : matchWhole stops text =
      { emitted := cut stops text, stopMatched := (earliest stops text).isSome } := by
  unfold matchWhole cut
  rcases applyStopStringMatch_cases stops text true with hstop | hgo
  · obtain ⟨pos, hbest, hcall⟩ := hstop
    rw [hcall, hbest]
    rfl
  · obtain ⟨k, hbest, hcall, hfinal, -⟩ := hgo
    have hsplit := List.take_append_drop k text
    rw [hfinal rfl, List.append_nil] at hsplit
    rw [hcall, hbest, hsplit]
    rfl

/-- The text before the earliest stop string contains none. -/
theorem clean_cut (stops : List Bytes) (text : Bytes) : Clean stops (cut stops text) := by
  unfold cut
  cases hbest : earliest stops text with
  | none => exact earliest_eq_none.1 hbest
  | some pos =>
    obtain ⟨-, hfirst⟩ := earliest_eq_some.1 hbest
    intro k hk
    have hlt := hk.lt_length
    have hwhole := hk.append (text.drop pos)
    rw [List.take_append_drop] at hwhole
    rw [List.length_take] at hlt
    exact hfirst k (by omega) hwhole

/-- What the calls give out, with what was given out before them.  The induction
is on the chunks; `Held` is what one call leaves to the next. -/
theorem matchChunks_held (chunks : List Bytes) :
    ∀ {emitted buffer : Bytes}, Held stops (longestStop stops) emitted buffer →
      (chunks = [] → buffer = []) →
      matchWhole stops (decidingText stops (emitted ++ buffer) chunks) =
        { emitted := emitted ++ (matchChunks stops buffer chunks).emitted
          stopMatched := (matchChunks stops buffer chunks).stopMatched } := by
  induction chunks with
  | nil =>
    intro emitted buffer hheld hnil
    have hclean := earliest_eq_none.2 hheld.clean
    rw [hnil rfl, List.append_nil] at hclean ⊢
    rw [matchWhole_eq, decidingText, cut, hclean, matchChunks, List.append_nil]
    rfl
  | cons chunk rest ih =>
    intro emitted buffer hheld _
    have hmatched := @applyStopStringMatch_matched stops emitted buffer chunk rest.isEmpty hheld
    unfold matchChunks decidingText
    dsimp only
    by_cases hstop : (earliest stops (emitted ++ buffer ++ chunk)).isSome = true
    · -- this chunk decides
      rw [hstop] at hmatched
      obtain ⟨hcut, -⟩ := applyStopStringMatch_cut hheld hmatched
      rw [if_pos hmatched, if_pos hstop, matchWhole_eq, hstop, hcut, hmatched]
    · rw [Bool.not_eq_true] at hstop
      rw [hstop] at hmatched
      obtain ⟨hsplit, hfinal⟩ := applyStopStringMatch_emitted hmatched
      rw [hmatched, hstop, if_neg Bool.false_ne_true, if_neg Bool.false_ne_true]
      cases rest with
      | nil =>
        -- the last chunk flushes the buffer
        have hclean := Option.isSome_eq_false_iff.1 hstop
        rw [Option.isNone_iff_eq_none] at hclean
        rw [hfinal rfl, List.append_nil] at hsplit
        rw [matchWhole_eq, decidingText, cut, hclean, matchChunks, List.append_nil, hsplit,
          ← List.append_assoc]
        rfl
      | cons next more =>
        have hnext := applyStopStringMatch_held hheld hmatched
        have hrest := ih hnext (fun hnil => by cases hnil)
        rw [List.isEmpty_cons] at hsplit ⊢
        rw [List.append_assoc emitted, hsplit, ← List.append_assoc] at hrest
        rw [hrest, List.append_assoc]

/-- The chunks give what one final call gives on the text up to the chunk that
decides. -/
theorem matchChunks_eq (stops : List Bytes) (chunks : List Bytes) :
    matchChunks stops [] chunks = matchWhole stops (decidingText stops [] chunks) :=
  (matchChunks_held chunks (held_start stops) fun _ => rfl).symm

/-! ## The whole text -/

/-- What decides is a beginning of the text; it is the whole text unless it
contains a stop string. -/
theorem decidingText_spec (chunks : List Bytes) : ∀ {before : Bytes}, Clean stops before →
      (∃ first rest, chunks = first ++ rest ∧
          decidingText stops before chunks = before ++ first.flatten) ∧
        (earliest stops (decidingText stops before chunks) = none →
          decidingText stops before chunks = before ++ chunks.flatten) := by
  induction chunks with
  | nil =>
    intro before _
    rw [decidingText, List.flatten_nil, List.append_nil]
    exact ⟨⟨[], [], rfl, (List.append_nil before).symm⟩, fun _ => rfl⟩
  | cons chunk rest ih =>
    intro before _
    unfold decidingText
    rw [List.flatten_cons, ← List.append_assoc]
    by_cases hstop : (earliest stops (before ++ chunk)).isSome = true
    · rw [if_pos hstop]
      refine ⟨⟨[chunk], rest, rfl, by simp⟩, ?_⟩
      intro hnone
      rw [hnone] at hstop
      cases hstop
    · rw [if_neg hstop]
      rw [Option.not_isSome_iff_eq_none, earliest_eq_none] at hstop
      obtain ⟨⟨first, more, hchunks, htext⟩, hwhole⟩ := ih hstop
      refine ⟨⟨chunk :: first, more, by rw [hchunks]; rfl, ?_⟩, hwhole⟩
      rw [htext, List.flatten_cons, List.append_assoc]

/-- No chunk after one that completes a stop string completes a longer one that
starts earlier. -/
def NoEarlierStop (stops : List Bytes) (chunks : List Bytes) : Prop :=
  ∀ first rest, chunks = first ++ rest → ∀ pos, earliest stops first.flatten = some pos →
    earliest stops chunks.flatten = some pos

/-- Before what decides nothing has been completed. -/
theorem decidingText_first (chunks : List Bytes) :
    ∀ {before : Bytes} {first rest : List Bytes} {pos : Nat}, chunks = first ++ rest →
      Clean stops before → earliest stops (before ++ first.flatten) = some pos →
        decidingText stops before chunks <+: before ++ first.flatten := by
  induction chunks with
  | nil =>
    intro before first rest pos hsplit hclean hpos
    obtain ⟨rfl, rfl⟩ := List.append_eq_nil_iff.1 hsplit.symm
    rw [List.flatten_nil, List.append_nil, earliest_eq_none.2 hclean] at hpos
    cases hpos
  | cons chunk more ih =>
    intro before first rest pos hsplit hclean hpos
    cases first with
    | nil =>
      rw [List.flatten_nil, List.append_nil, earliest_eq_none.2 hclean] at hpos
      cases hpos
    | cons head tail =>
      rw [List.cons_append, List.cons.injEq] at hsplit
      obtain ⟨rfl, hsplit⟩ := hsplit
      rw [List.flatten_cons, ← List.append_assoc] at hpos ⊢
      unfold decidingText
      split
      · exact List.prefix_append _ _
      · rename_i hstop
        rw [Option.not_isSome_iff_eq_none, earliest_eq_none] at hstop
        exact ih hsplit hstop hpos

/-- A stop string of a beginning is one of the text, and the earliest one only
moves to the front. -/
theorem earliest_le_of_prefix {text whole : Bytes} {pos : Nat} (hbegins : text <+: whole)
    (hpos : earliest stops text = some pos) : ∃ best, earliest stops whole = some best ∧ best ≤ pos := by
  obtain ⟨more, rfl⟩ := hbegins
  have hhits := ((earliest_eq_some.1 hpos).1).append more
  cases hbest : earliest stops (text ++ more) with
  | none => exact absurd hhits (earliest_eq_none.1 hbest pos)
  | some best =>
    refine ⟨best, rfl, ?_⟩
    by_contra hlt
    exact (earliest_eq_some.1 hbest).2 pos (by omega) hhits

/-- The chunks give what the whole text gives, up to the chunk that decides,
exactly when no later one completes a stop string that starts earlier. -/
theorem matchWhole_decidingText (chunks : List Bytes) :
    matchWhole stops (decidingText stops [] chunks) = matchWhole stops chunks.flatten ↔
      NoEarlierStop stops chunks := by
  have hclean : Clean stops [] := (held_start stops).clean
  obtain ⟨⟨first, rest, hchunks, htext⟩, hwhole⟩ := decidingText_spec chunks hclean
  rw [List.nil_append] at htext hwhole
  cases hdecided : earliest stops (decidingText stops [] chunks) with
  | none =>
    have hsame := hwhole hdecided
    rw [hsame] at hdecided ⊢
    apply iff_of_true rfl
    intro some more hsplit pos hpos
    have hin : some.flatten <+: chunks.flatten := by
      rw [hsplit, List.flatten_append]
      exact List.prefix_append _ _
    obtain ⟨best, hbest, -⟩ := earliest_le_of_prefix hin hpos
    rw [hdecided] at hbest
    cases hbest
  | some k =>
    have happend : chunks.flatten = decidingText stops [] chunks ++ rest.flatten := by
      rw [htext, ← List.flatten_append, ← hchunks]
    have hcut := cut_append hdecided rest.flatten
    rw [← happend] at hcut
    constructor
    · intro hsame some more hsplit pos hpos
      rw [matchWhole_eq, matchWhole_eq, StopMatchOutcome.mk.injEq] at hsame
      have hbest := hcut.1 hsame.1
      have hin : some.flatten <+: chunks.flatten := by
        rw [hsplit, List.flatten_append]
        exact List.prefix_append _ _
      obtain ⟨best, hwholeBest, hle⟩ := earliest_le_of_prefix hin hpos
      have hafter := decidingText_first chunks hsplit hclean hpos
      obtain ⟨early, hearly, hge⟩ := earliest_le_of_prefix hafter hdecided
      rw [List.nil_append, hpos, Option.some.injEq] at hearly
      rw [hbest, Option.some.injEq] at hwholeBest
      rw [hbest]
      congr 1
      omega
    · intro hnone
      have hbest := hnone first rest hchunks k (by rw [← htext]; exact hdecided)
      rw [matchWhole_eq, matchWhole_eq, hcut.2 hbest, hbest, hdecided]

/-- The chunks match exactly when the whole text does, and give out the text
before the earliest stop string of what decides: so no stop string, and, without
a match, everything.  That is what one call on the whole text gives exactly when
no later chunk completes a stop string that starts earlier. -/
theorem matchChunks_spec (stops : List Bytes) (chunks : List Bytes) :
    matchChunks stops [] chunks = matchWhole stops (decidingText stops [] chunks) ∧
      (matchChunks stops [] chunks).stopMatched = (matchWhole stops chunks.flatten).stopMatched ∧
      Clean stops (matchChunks stops [] chunks).emitted ∧
      (matchChunks stops [] chunks).emitted <+: chunks.flatten ∧
      ((matchChunks stops [] chunks).stopMatched = false →
        (matchChunks stops [] chunks).emitted = chunks.flatten) ∧
      (matchChunks stops [] chunks = matchWhole stops chunks.flatten ↔
        NoEarlierStop stops chunks) := by
  have hclean : Clean stops [] := (held_start stops).clean
  obtain ⟨⟨first, rest, hchunks, htext⟩, hwhole⟩ := decidingText_spec chunks hclean
  rw [List.nil_append] at htext hwhole
  have hbegins : decidingText stops [] chunks <+: chunks.flatten := by
    rw [htext, hchunks, List.flatten_append]
    exact List.prefix_append _ _
  have hmatched : (earliest stops (decidingText stops [] chunks)).isSome =
      (earliest stops chunks.flatten).isSome := by
    cases hdecided : earliest stops (decidingText stops [] chunks) with
    | none => rw [← hwhole hdecided, hdecided]
    | some k =>
      obtain ⟨best, hbest, -⟩ := earliest_le_of_prefix hbegins hdecided
      rw [hbest]
      rfl
  rw [matchChunks_eq]
  refine ⟨rfl, ?_, ?_, ?_, ?_, matchWhole_decidingText chunks⟩
  · rw [matchWhole_eq, matchWhole_eq]
    exact hmatched
  · rw [matchWhole_eq]
    exact clean_cut stops _
  · rw [matchWhole_eq]
    exact (cut_begins stops _).trans hbegins
  · rw [matchWhole_eq]
    intro hnone
    rw [Option.isSome_eq_false_iff, Option.isNone_iff_eq_none] at hnone
    show cut stops (decidingText stops [] chunks) = chunks.flatten
    rw [cut, hnone]
    exact hwhole hnone

/-- The stop string "b" is complete after "ab", and "abcd", which starts earlier,
after "cd". -/
theorem stop_decidedEarly :
    matchChunks [[98], [97, 98, 99, 100]] [] [[97, 98], [99, 100]] ≠
      matchWhole [[98], [97, 98, 99, 100]] [97, 98, 99, 100] := by
  decide

end EdgeLLM.Ports.Generation
