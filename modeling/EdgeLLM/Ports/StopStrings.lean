import EdgeLLM.Ports.Utf8Sanitizer
import EdgeLLM.Verified.WordSearch

/-!
# Stop strings

`applyStopStringMatch` against the rolling buffer of a slot.  The buffer keeps
back `maxStopLen - 1` bytes, so that a stop string that straddles two calls is
found whole.
-/

namespace EdgeLLM.Ports.Generation

open Utf8 (Bytes)
open Verified

structure StopMatchOutcome where
  emitted : Bytes := []
  stopMatched : Bool := false
deriving DecidableEq

/-- `applyStopStringMatch`: the outcome and the new buffer. -/
def applyStopStringMatch (buffer : Bytes) (stops : List Bytes) (maxStopLen : Nat) (isFinal : Bool) :
    StopMatchOutcome × Bytes :=
  if maxStopLen = 0 then
    -- no stops or all-empty entries: pass-through
    ({ emitted := buffer }, [])
  else
    match earliest stops buffer with
    | some pos => ({ emitted := buffer.take pos, stopMatched := true }, [])
    | none =>
      if isFinal then
        ({ emitted := buffer }, [])
      else
        let holdBack := maxStopLen - 1
        if buffer.length ≤ holdBack then
          ({}, buffer)
        else
          let safeLen := buffer.length - holdBack
          ({ emitted := buffer.take safeLen }, buffer.drop safeLen)

/-- The longest length of a slot's stop strings. -/
def longestStop (stops : List Bytes) : Nat :=
  stops.foldl (fun maxLen stop => if maxLen < stop.length then stop.length else maxLen) 0

private theorem longestStop_foldl (stops : List Bytes) : ∀ start : Nat,
      start ≤ stops.foldl (fun maxLen stop => if maxLen < stop.length then stop.length else maxLen)
        start ∧ ∀ stop ∈ stops, stop.length ≤
        stops.foldl (fun maxLen stop => if maxLen < stop.length then stop.length else maxLen)
          start := by
  induction stops with
  | nil => exact fun start => ⟨Nat.le_refl _, fun stop hmem => by cases hmem⟩
  | cons first rest ih =>
    intro start
    rw [List.foldl_cons]
    have hnext := ih (if start < first.length then first.length else start)
    have hstart : start ≤ (if start < first.length then first.length else start) ∧
        first.length ≤ (if start < first.length then first.length else start) := by
      split <;> omega
    refine ⟨Nat.le_trans hstart.1 hnext.1, ?_⟩
    intro stop hmem
    rcases List.mem_cons.1 hmem with heq | hrest
    · rw [heq]; exact Nat.le_trans hstart.2 hnext.1
    · exact hnext.2 stop hrest

theorem length_le_longestStop {stops : List Bytes} {stop : Bytes} (hmem : stop ∈ stops) :
    stop.length ≤ longestStop stops :=
  (longestStop_foldl stops 0).2 stop hmem

theorem held_start (stops : List Bytes) : Held stops (longestStop stops) [] [] where
  clean := by
    rintro k ⟨stop, -, hne, hpre⟩
    rw [List.append_nil, List.drop_nil] at hpre
    exact hne (List.prefix_nil.1 hpre)
  bound := fun _ => length_le_longestStop
  kept := fun hne => absurd rfl hne

section Held

variable {stops : List Bytes} {emitted buffer delta : Bytes} {isFinal : Bool}

private theorem earliest_of_longestStop_zero (hzero : longestStop stops = 0) (text : Bytes) :
    earliest stops text = none := by
  rw [earliest_eq_none]
  rintro k ⟨stop, hmem, hne, -⟩
  have hlen := length_le_longestStop hmem
  rw [hzero, Nat.le_zero] at hlen
  exact hne (List.eq_nil_of_length_eq_zero hlen)

/-- What a call returns: the text before the earliest stop string, or, where
there is none, a part of the buffer, keeping what `Held` asks for unless the
call is the final one. -/
theorem applyStopStringMatch_cases (stops : List Bytes) (buffer : Bytes) (isFinal : Bool) :
    (∃ pos, earliest stops buffer = some pos ∧
      applyStopStringMatch buffer stops (longestStop stops) isFinal =
        (⟨buffer.take pos, true⟩, [])) ∨ ∃ k, earliest stops buffer = none ∧
      applyStopStringMatch buffer stops (longestStop stops) isFinal =
        (⟨buffer.take k, false⟩, buffer.drop k) ∧ (isFinal = true → buffer.drop k = []) ∧
      (buffer.take k ≠ [] → isFinal = false → longestStop stops ≤ (buffer.drop k).length + 1) := by
  have hwhole : applyStopStringMatch buffer stops (longestStop stops) isFinal =
      (⟨buffer, false⟩, []) → applyStopStringMatch buffer stops (longestStop stops) isFinal =
        (⟨buffer.take buffer.length, false⟩, buffer.drop buffer.length) := by
    intro h
    rw [h, List.take_length, List.drop_length]
  by_cases hzero : longestStop stops = 0
  · right
    refine ⟨buffer.length, earliest_of_longestStop_zero hzero buffer, hwhole ?_, ?_, ?_⟩
    · rw [applyStopStringMatch, if_pos hzero]
    · exact fun _ => List.drop_length
    · intro _ _
      rw [hzero]
      exact Nat.zero_le _
  · cases hbest : earliest stops buffer with
    | some pos =>
      left
      refine ⟨pos, rfl, ?_⟩
      rw [applyStopStringMatch, if_neg hzero, hbest]
    | none =>
      right
      cases isFinal with
      | true =>
        refine ⟨buffer.length, rfl, hwhole ?_, fun _ => List.drop_length, ?_⟩
        · rw [applyStopStringMatch, if_neg hzero, hbest]
          rfl
        · exact fun _ hfinal => by cases hfinal
      | false =>
        have hheld : applyStopStringMatch buffer stops (longestStop stops) false =
            if buffer.length ≤ longestStop stops - 1 then ({}, buffer)
            else ({ emitted := buffer.take (buffer.length - (longestStop stops - 1)) },
              buffer.drop (buffer.length - (longestStop stops - 1))) := by
          rw [applyStopStringMatch, if_neg hzero, hbest]
          rfl
        rw [hheld]
        by_cases hshort : buffer.length ≤ longestStop stops - 1
        · refine ⟨0, rfl, ?_, (fun hfinal => by cases hfinal), ?_⟩
          · rw [if_pos hshort, List.take_zero, List.drop_zero]
          · exact fun hne => absurd List.take_zero hne
        · refine ⟨buffer.length - (longestStop stops - 1), rfl, ?_,
            (fun hfinal => by cases hfinal), ?_⟩
          · rw [if_neg hshort]
          · intro _ _
            rw [List.length_drop]
            omega

/-- The call stops exactly when the text so far contains a stop string. -/
theorem applyStopStringMatch_matched (h : Held stops (longestStop stops) emitted buffer) :
    (applyStopStringMatch (buffer ++ delta) stops (longestStop stops) isFinal).1.stopMatched =
      (earliest stops (emitted ++ buffer ++ delta)).isSome := by
  rw [h.earliest_append delta, Option.isSome_map]
  rcases applyStopStringMatch_cases stops (buffer ++ delta) isFinal with hstop | hgo
  · obtain ⟨pos, hbest, hcall⟩ := hstop
    rw [hcall, hbest]
    rfl
  · obtain ⟨k, hbest, hcall, -⟩ := hgo
    rw [hcall, hbest]
    rfl

/-- A call that stops has given out the text before the earliest stop string. -/
theorem applyStopStringMatch_cut (h : Held stops (longestStop stops) emitted buffer)
    (hmatched : (applyStopStringMatch (buffer ++ delta) stops (longestStop stops)
      isFinal).1.stopMatched = true) :
    emitted ++ (applyStopStringMatch (buffer ++ delta) stops (longestStop stops) isFinal).1.emitted =
        cut stops (emitted ++ buffer ++ delta) ∧
      (applyStopStringMatch (buffer ++ delta) stops (longestStop stops) isFinal).2 = [] := by
  rcases applyStopStringMatch_cases stops (buffer ++ delta) isFinal with hstop | hgo
  · obtain ⟨pos, hbest, hcall⟩ := hstop
    rw [cut, h.earliest_append delta, hcall, hbest]
    refine ⟨?_, rfl⟩
    show emitted ++ (buffer ++ delta).take pos =
      (emitted ++ buffer ++ delta).take (emitted.length + pos)
    rw [List.append_assoc, List.take_length_add_append]
  · obtain ⟨k, hbest, hcall, -⟩ := hgo
    rw [hcall] at hmatched
    cases hmatched

/-- A call that does not stop gives out the next bytes and keeps the rest. -/
theorem applyStopStringMatch_emitted
    (hmatched : (applyStopStringMatch buffer stops (longestStop stops)
      isFinal).1.stopMatched = false) :
    (applyStopStringMatch buffer stops (longestStop stops) isFinal).1.emitted ++
        (applyStopStringMatch buffer stops (longestStop stops) isFinal).2 = buffer ∧
      (isFinal = true →
        (applyStopStringMatch buffer stops (longestStop stops) isFinal).2 = []) := by
  rcases applyStopStringMatch_cases stops buffer isFinal with hstop | hgo
  · obtain ⟨pos, hbest, hcall⟩ := hstop
    rw [hcall] at hmatched
    cases hmatched
  · obtain ⟨k, hbest, hcall, hfinal, -⟩ := hgo
    rw [hcall]
    exact ⟨List.take_append_drop k buffer, hfinal⟩

/-- What a call that is neither final nor stopping keeps is enough for the
next one. -/
theorem applyStopStringMatch_held (h : Held stops (longestStop stops) emitted buffer)
    (hmatched : (applyStopStringMatch (buffer ++ delta) stops (longestStop stops)
      false).1.stopMatched = false) : Held stops (longestStop stops)
      (emitted ++ (applyStopStringMatch (buffer ++ delta) stops (longestStop stops) false).1.emitted)
      (applyStopStringMatch (buffer ++ delta) stops (longestStop stops) false).2 := by
  have hclean := hmatched
  rw [applyStopStringMatch_matched h, Option.isSome_eq_false_iff, Option.isNone_iff_eq_none,
    earliest_eq_none] at hclean
  rcases applyStopStringMatch_cases stops (buffer ++ delta) false with hstop | hgo
  · obtain ⟨pos, hbest, hcall⟩ := hstop
    rw [hcall] at hmatched
    cases hmatched
  · obtain ⟨k, hbest, hcall, -, hkept⟩ := hgo
    rw [hcall]
    have hall : Held stops (longestStop stops) emitted (buffer ++ delta) := by
      refine ⟨?_, h.bound, ?_⟩
      · rw [← List.append_assoc]
        exact hclean
      · intro hne
        have hlong := h.kept hne
        rw [List.length_append]
        omega
    exact hall.give k fun hne => hkept hne rfl

end Held

end EdgeLLM.Ports.Generation
