import Mathlib.Algebra.Order.Ring.Nat
import Mathlib.Data.List.Basic

/-!
# The streaming UTF-8 sanitizer

`sanitizeUtf8Streaming` turns raw bytes into well-formed UTF-8: invalid bytes
become U+FFFD, and a codepoint cut off by the end of the buffer is held back for
the next call.  `sanitizeUtf8Flush` gives up on the held bytes.

The copying of a codepoint's bytes is spread over the bytes, so that the scan
recurses on the input.
-/

namespace EdgeLLM.Ports.Utf8

/-- A C++ string. -/
abbrev Bytes : Type := List UInt8

/-- UTF-8 encoding of U+FFFD REPLACEMENT CHARACTER. -/
def kFFFD : Bytes := [0xEF, 0xBF, 0xBD]

/-- Length of the codepoint that a leader byte starts; 0 for any other byte. -/
def leaderByteLen (c : UInt8) : Nat :=
  if c &&& 0x80 = 0x00 then 1
  else if c &&& 0xE0 = 0xC0 then 2
  else if c &&& 0xF0 = 0xE0 then 3
  else if c &&& 0xF8 = 0xF0 then 4
  else 0

/-- `decodeCodepoint`; the bytes are as many as the length says. -/
def decodeCodepoint : Bytes → UInt32
  | [a] => a.toUInt32
  | [a, b] => ((a &&& 0x1F).toUInt32 <<< 6) ||| (b &&& 0x3F).toUInt32
  | [a, b, c] =>
    ((a &&& 0x0F).toUInt32 <<< 12) ||| ((b &&& 0x3F).toUInt32 <<< 6) ||| (c &&& 0x3F).toUInt32
  | [a, b, c, d] =>
    ((a &&& 0x07).toUInt32 <<< 18) ||| ((b &&& 0x3F).toUInt32 <<< 12) |||
      ((c &&& 0x3F).toUInt32 <<< 6) ||| (d &&& 0x3F).toUInt32
  | _ => 0

/-- No overlong encoding, no surrogate, nothing above U+10FFFF. -/
def isValidCodepointForLen (cp : UInt32) (need : Nat) : Bool :=
  let overlong := (need = 2 ∧ cp < 0x80) ∨ (need = 3 ∧ cp < 0x800) ∨ (need = 4 ∧ cp < 0x10000)
  let surrogate := 0xD800 ≤ cp ∧ cp ≤ 0xDFFF
  let tooBig := 0x10FFFF < cp
  !overlong && !surrogate && !tooBig

/-- The codepoint with leader `c` and the continuation bytes `tail` is valid. -/
def isCodepoint (c : UInt8) (tail : Bytes) : Bool :=
  tail.all (fun b => b &&& 0xC0 = 0x80) &&
    isValidCodepointForLen (decodeCodepoint (c :: tail)) (tail.length + 1)

/-- The loop of `sanitizeUtf8Streaming`: its output and the bytes it holds.
`copying` counts the bytes left of a codepoint already found valid. -/
def scan : Nat → Bytes → Bytes × Bytes
  | _, [] => ([], [])
  | copying + 1, c :: rest => ((c :: (scan copying rest).1), (scan copying rest).2)
  | 0, c :: rest =>
    let need := leaderByteLen c
    if need = 0 then
      -- invalid leader or isolated continuation byte
      (kFFFD ++ (scan 0 rest).1, (scan 0 rest).2)
    else if rest.length + 1 < need then
      -- trailing incomplete codepoint
      ([], c :: rest)
    else if isCodepoint c (rest.take (need - 1)) then
      (c :: (scan (need - 1) rest).1, (scan (need - 1) rest).2)
    else
      (kFFFD ++ (scan 0 rest).1, (scan 0 rest).2)

/-- The sanitized text and the new pending bytes. -/
def sanitizeUtf8Streaming (buffer pending : Bytes) : Bytes × Bytes :=
  scan 0 (pending ++ buffer)

/-- One U+FFFD per held byte. -/
def sanitizeUtf8Flush (pending : Bytes) : Bytes :=
  pending.flatMap fun _ => kFFFD

/-- A single-shot pass: nothing is left pending. -/
def sanitized (raw : Bytes) : Bytes :=
  (sanitizeUtf8Streaming raw []).1 ++ sanitizeUtf8Flush (sanitizeUtf8Streaming raw []).2

/-- The bytes held before more input are the ones scanned with it. -/
theorem scan_append (more : Bytes) : ∀ (input : Bytes) (copying : Nat), copying ≤ input.length →
      scan copying (input ++ more) =
        ((scan copying input).1 ++ (scan 0 ((scan copying input).2 ++ more)).1,
          (scan 0 ((scan copying input).2 ++ more)).2) := by
  intro input
  induction input with
  | nil =>
    intro copying hcopying
    rw [List.length_nil, Nat.le_zero] at hcopying
    rw [hcopying, scan, List.nil_append, List.nil_append]
  | cons c rest ih =>
    intro copying hcopying
    cases copying with
    | succ copying =>
      have hrest := ih copying (Nat.le_of_succ_le_succ hcopying)
      rw [List.cons_append, scan, scan, hrest, List.cons_append]
    | zero =>
      have hzero := ih 0 (Nat.zero_le _)
      rw [List.cons_append, scan, scan]
      by_cases hbad : leaderByteLen c = 0
      · rw [if_pos hbad, if_pos hbad, hzero, List.append_assoc]
      · rw [if_neg hbad, if_neg hbad]
        by_cases hshort : rest.length + 1 < leaderByteLen c
        · -- held: the next scan starts over at this leader
          rw [if_pos hshort, List.nil_append, List.cons_append, scan, if_neg hbad]
        · have hlong : ¬ (rest ++ more).length + 1 < leaderByteLen c := by
            rw [List.length_append]
            omega
          have htake : (rest ++ more).take (leaderByteLen c - 1) =
              rest.take (leaderByteLen c - 1) := by
            apply List.take_append_of_le_length
            omega
          rw [if_neg hshort, if_neg hlong, htake]
          by_cases hvalid : isCodepoint c (rest.take (leaderByteLen c - 1)) = true
          · have hskip := ih (leaderByteLen c - 1) (by omega)
            rw [if_pos hvalid, if_pos hvalid, hskip, List.cons_append]
          · rw [if_neg hvalid, if_neg hvalid, hzero, List.append_assoc]

/-- Cutting the input in two changes nothing. -/
theorem sanitizeUtf8Streaming_append (buffer more pending : Bytes) :
    sanitizeUtf8Streaming (buffer ++ more) pending = ((sanitizeUtf8Streaming buffer pending).1 ++
          (sanitizeUtf8Streaming more (sanitizeUtf8Streaming buffer pending).2).1,
        (sanitizeUtf8Streaming more (sanitizeUtf8Streaming buffer pending).2).2) := by
  rw [sanitizeUtf8Streaming, ← List.append_assoc, scan_append more _ 0 (Nat.zero_le _)]
  rfl

theorem sanitizeUtf8Streaming_nil : sanitizeUtf8Streaming [] [] = ([], []) := rfl

/-- Held bytes stay held as long as nothing follows them. -/
theorem sanitizeUtf8Streaming_held (buffer pending : Bytes) :
    sanitizeUtf8Streaming [] (sanitizeUtf8Streaming buffer pending).2 =
      ([], (sanitizeUtf8Streaming buffer pending).2) := by
  have happend := sanitizeUtf8Streaming_append buffer [] pending
  rw [List.append_nil, Prod.ext_iff] at happend
  obtain ⟨hout, hheld⟩ := happend
  have hnothing := List.self_eq_append_right.1 hout
  exact Prod.ext hnothing hheld.symm

theorem sanitizeUtf8Flush_eq_nil {pending : Bytes} : sanitizeUtf8Flush pending = [] ↔ pending = [] := by
  cases pending with
  | nil => exact iff_of_true rfl rfl
  | cons c rest => exact iff_of_false (by simp [sanitizeUtf8Flush, kFFFD]) (by simp)

end EdgeLLM.Ports.Utf8
