import EdgeLLM.Ports.Utf8Exact
import Mathlib.Algebra.Order.BigOperators.Group.List
import Mathlib.Data.List.SplitLengths

/-!
# Pre-tokenization

`RegexSplit::process` cuts a text at the matches of a regular expression, and
`Sequence::process` hands the pieces of one step to the next.  An expression that
names a Unicode category is matched on a collapsed text with one byte per code
point, any other expression on the UTF-8 bytes; either way the positions are read
as code point offsets.
-/

namespace EdgeLLM.Ports.PreTokenizer

open Utf8
open Verified.Utf8Text

/-- What `process` throws; `indexOutOfRange` is a read past the end of a vector,
which has no defined outcome. -/
inductive Failure
  | textTooLarge
  | invalidCharacter
  | invalidCodepoint
  | indexOutOfRange
  deriving DecidableEq

def MAX_TEXT_SIZE_BYTES : Nat := 1024 * 1024

def unicodeCptToUtf8 (cp : UInt32) : Except Failure Bytes :=
  if cp ≤ 0x7F then .ok [cp.toUInt8]
  else if cp ≤ 0x7FF then
    .ok [UInt32.toUInt8 ((cp >>> 6 &&& 0x1F) ||| 0xC0), UInt32.toUInt8 ((cp &&& 0x3F) ||| 0x80)]
  else if cp ≤ 0xFFFF then
    .ok [UInt32.toUInt8 ((cp >>> 12 &&& 0x0F) ||| 0xE0),
      UInt32.toUInt8 ((cp >>> 6 &&& 0x3F) ||| 0x80), UInt32.toUInt8 ((cp &&& 0x3F) ||| 0x80)]
  else if cp ≤ 0x10FFFF then
    .ok [UInt32.toUInt8 ((cp >>> 18 &&& 0x07) ||| 0xF0),
      UInt32.toUInt8 ((cp >>> 12 &&& 0x3F) ||| 0x80),
      UInt32.toUInt8 ((cp >>> 6 &&& 0x3F) ||| 0x80), UInt32.toUInt8 ((cp &&& 0x3F) ||| 0x80)]
  else .error .invalidCodepoint

/-- `unicodeCptFromUtf8` at the byte `c`, with `rest` behind it. -/
def unicodeCptFromUtf8 (c : UInt8) (rest : Bytes) : Except Failure UInt32 :=
  let need := leaderByteLen c
  if need = 0 ∨ rest.length + 1 < need then .error .invalidCharacter
  else if (rest.take (need - 1)).all (fun b => b &&& 0xC0 = 0x80) then
    .ok (decodeCodepoint (c :: rest.take (need - 1)))
  else .error .invalidCharacter

/-- `unicodeCptsFromUtf8`; the first argument counts the bytes left of a code point
already read. -/
def unicodeCptsFromUtf8 : Nat → Bytes → Except Failure (List UInt32)
  | _, [] => .ok []
  | skip + 1, _ :: rest => unicodeCptsFromUtf8 skip rest
  | 0, c :: rest =>
    (unicodeCptFromUtf8 c rest).bind fun cp =>
      (unicodeCptsFromUtf8 (leaderByteLen c - 1) rest).map fun cpts => cp :: cpts

/-! ## Cutting at the matches -/

/-- Matches as `position` and `length`, each behind the one before it. -/
def InOrder (size : Nat) : Nat → List (Nat × Nat) → Prop
  | start, [] => start ≤ size
  | start, m :: ms => start ≤ m.1 ∧ InOrder size (m.1 + m.2) ms

/-- A compiled expression: the matches that iterating it over a text yields. -/
structure Regex where
  iterate : Bytes → List (Nat × Nat)
  inOrder : ∀ text, InOrder text.length 0 (iterate text)

/-- The loop of `unicodeRegexSplit` over the matches, and the part behind them. -/
def splitOffsets (size : Nat) : Nat → List (Nat × Nat) → List Nat
  | startIdx, [] => if startIdx < size then [size - startIdx] else []
  | startIdx, m :: ms =>
    (if startIdx < m.1 then [m.1 - startIdx] else []) ++ m.2 :: splitOffsets size (m.1 + m.2) ms

/-- `unicodeRegexSplit`: the length of each piece. -/
def unicodeRegexSplit (text : Bytes) (regex : Regex) : List Nat :=
  splitOffsets text.length 0 (regex.iterate text)

/-- `RegexSplit`, constructed.  The byte that stands for a code point from 128 on
comes from the Unicode tables. -/
structure RegexSplit where
  mNeedRegexCollapse : Bool
  mRegex : Regex
  collapsed : UInt32 → UInt8

namespace RegexSplit

/-- `unicodeCollapseText`: one byte per code point. -/
def unicodeCollapseText (self : RegexSplit) (cpts : List UInt32) : Bytes :=
  cpts.map fun cp => if cp < 128 then cp.toUInt8 else self.collapsed cp

/-- The text of `offset` code points from `i` on. -/
def word (cpts : List UInt32) : Nat → Nat → Except Failure Bytes
  | _, 0 => .ok []
  | i, offset + 1 =>
    match cpts[i]? with
    | none => .error .indexOutOfRange
    | some cp =>
      (unicodeCptToUtf8 cp).bind fun bytes =>
        (word cpts (i + 1) offset).map fun more => bytes ++ more

/-- The loop over the offsets. -/
def bpeWords (cpts : List UInt32) : Nat → List Nat → Except Failure (List Bytes)
  | _, [] => .ok []
  | wordStart, offset :: offsets =>
    (word cpts wordStart offset).bind fun bytes =>
      (bpeWords cpts (wordStart + offset) offsets).map fun words => bytes :: words

def process (self : RegexSplit) (text : Bytes) : Except Failure (List Bytes) :=
  if text = [] then .ok []
  else if MAX_TEXT_SIZE_BYTES < text.length then .error .textTooLarge
  else
    (unicodeCptsFromUtf8 0 text).bind fun cpts =>
      let textCollapsed := if self.mNeedRegexCollapse then self.unicodeCollapseText cpts else text
      bpeWords cpts 0 (unicodeRegexSplit textCollapsed self.mRegex)

end RegexSplit

/-- One step over the pieces. -/
def processPieces (step : RegexSplit) : List Bytes → Except Failure (List Bytes)
  | [] => .ok []
  | piece :: pieces =>
    (step.process piece).bind fun stepResult =>
      (processPieces step pieces).map fun nextPieces => stepResult ++ nextPieces

/-- The loop over the steps. -/
def processSteps : List RegexSplit → List Bytes → Except Failure (List Bytes)
  | [], currentPieces => .ok currentPieces
  | step :: steps, currentPieces => (processPieces step currentPieces).bind (processSteps steps)

/-- `Sequence::process`. -/
def processSequence (mSteps : List RegexSplit) (text : Bytes) : Except Failure (List Bytes) :=
  if text = [] then .ok []
  else if MAX_TEXT_SIZE_BYTES < text.length then .error .textTooLarge
  else if mSteps = [] then .ok [text]
  else processSteps mSteps [text]

/-! ## A text as its characters -/

/-- The UTF-8 bytes of some characters. -/
def encode (chars : List Char) : Bytes := chars.flatMap String.utf8EncodeChar

theorem encode_cons (ch : Char) (chars : List Char) :
    encode (ch :: chars) = String.utf8EncodeChar ch ++ encode chars := List.flatMap_cons

theorem encode_append (xs ys : List Char) : encode (xs ++ ys) = encode xs ++ encode ys :=
  List.flatMap_append

variable {chars : List Char} {ch : Char}

theorem encode_eq_nil : encode chars = [] ↔ chars = [] := by
  constructor
  · intro h
    cases chars with
    | nil => rfl
    | cons ch chars =>
      rw [encode_cons, List.append_eq_nil_iff] at h
      exact absurd ⟨ch, h.1.symm⟩ not_encodes_nil
  · intro h
    rw [h]
    rfl

/-- Decoding an encoding gives the code point back. -/
theorem decodeCodepoint_encodeChar (ch : Char) :
    decodeCodepoint (String.utf8EncodeChar ch) = ch.val := by
  have hmap := encodeChar_toNat ch
  have hbound := isScalar_toNat ch
  have hval : ch.val.toNat = ch.toNat := rfl
  have hfour : (String.utf8EncodeChar ch).length ≤ 4 := Encodes.length_le_four ⟨ch, rfl⟩
  unfold IsScalar at hbound
  rw [← UInt32.toNat_inj, hval]
  match hbytes : String.utf8EncodeChar ch with
  | [] => exact absurd ⟨ch, hbytes.symm⟩ not_encodes_nil
  | [a] =>
    rw [hbytes] at hmap
    rw [decodeCodepoint, UInt8.toNat_toUInt32]
    split_ifs at hmap <;> simp at hmap
    exact hmap
  | [a, b] =>
    rw [hbytes] at hmap
    rw [decodeCodepoint_two]
    split_ifs at hmap <;> simp at hmap
    omega
  | [a, b, c] =>
    rw [hbytes] at hmap
    rw [decodeCodepoint_three]
    split_ifs at hmap <;> simp at hmap
    omega
  | [a, b, c, d] =>
    rw [hbytes] at hmap
    rw [decodeCodepoint_four]
    split_ifs at hmap <;> simp at hmap
    omega
  | a :: b :: c :: d :: e :: rest =>
    rw [hbytes] at hfour
    simp only [List.length_cons] at hfour
    omega

/-- The bytes of one character are read as its code point, whatever follows. -/
theorem unicodeCptFromUtf8_encodeChar {c : UInt8} {tail : Bytes}
    (hch : String.utf8EncodeChar ch = c :: tail) (rest : Bytes) :
    leaderByteLen c = tail.length + 1 ∧ unicodeCptFromUtf8 c (tail ++ rest) = .ok ch.val := by
  have hgood : Encodes (c :: tail) := ⟨ch, hch.symm⟩
  have hlength : leaderByteLen c = tail.length + 1 := by
    rw [leaderByteLen_eq, hgood.shape.1]
  have hall : (tail.all fun b => b &&& 0xC0 = 0x80) = true := by
    simp only [List.all_eq_true, decide_eq_true_eq, continuation_iff]
    exact hgood.shape.2
  refine ⟨hlength, ?_⟩
  rw [unicodeCptFromUtf8, hlength, if_neg (by rw [List.length_append]; omega),
    Nat.add_sub_cancel, List.take_left, if_pos hall, ← hch, decodeCodepoint_encodeChar]

theorem unicodeCptsFromUtf8_skip (tail rest : Bytes) :
    unicodeCptsFromUtf8 tail.length (tail ++ rest) = unicodeCptsFromUtf8 0 rest := by
  induction tail with
  | nil => rfl
  | cons b tail ih =>
    rw [List.length_cons, List.cons_append, unicodeCptsFromUtf8, ih]

/-- The code points of a text are its characters'. -/
theorem unicodeCptsFromUtf8_encode (chars : List Char) :
    unicodeCptsFromUtf8 0 (encode chars) = .ok (chars.map Char.val) := by
  induction chars with
  | nil => rfl
  | cons ch chars ih =>
    rw [encode_cons]
    cases hch : String.utf8EncodeChar ch with
    | nil => exact absurd ⟨ch, hch.symm⟩ not_encodes_nil
    | cons c tail =>
      obtain ⟨hlength, hread⟩ := unicodeCptFromUtf8_encodeChar hch (encode chars)
      rw [List.cons_append, unicodeCptsFromUtf8, hread, hlength, Nat.add_sub_cancel]
      rw [unicodeCptsFromUtf8_skip, ih]
      rfl

/-- Writing a character's code point gives its bytes. -/
theorem unicodeCptToUtf8_val (ch : Char) :
    unicodeCptToUtf8 ch.val = .ok (String.utf8EncodeChar ch) := by
  have hbound := isScalar_toNat ch
  have hval : ch.val.toNat = ch.toNat := rfl
  unfold IsScalar at hbound
  have hlast : ch.val ≤ 0x10FFFF := by
    rw [UInt32.le_iff_toNat_le, hval]
    simp
    omega
  rw [String.utf8EncodeChar_eq_utf8EncodeCharFast, String.utf8EncodeCharFast, unicodeCptToUtf8,
    if_pos hlast]
  split_ifs <;> simp

theorem splitOffsets_sum {size : Nat} :
    ∀ (ms : List (Nat × Nat)) (start : Nat), InOrder size start ms →
      start + (splitOffsets size start ms).sum = size := by
  intro ms
  induction ms with
  | nil =>
    intro start horder
    rw [InOrder] at horder
    rw [splitOffsets]
    split_ifs
    · rw [List.sum_singleton]
      omega
    · rw [List.sum_nil]
      omega
  | cons m ms ih =>
    intro start horder
    obtain ⟨hstart, hrest⟩ := horder
    have hsum := ih (m.1 + m.2) hrest
    rw [splitOffsets, List.sum_append, List.sum_cons]
    split_ifs
    · rw [List.sum_singleton]
      omega
    · rw [List.sum_nil]
      omega

theorem splitOffsets_pos {size : Nat} : ∀ (ms : List (Nat × Nat)) (start : Nat),
      (∀ offset ∈ splitOffsets size start ms, 0 < offset) ↔ ∀ m ∈ ms, 0 < m.2 := by
  intro ms
  induction ms with
  | nil =>
    intro start
    rw [splitOffsets]
    split_ifs with hmore
    · have hpos : 0 < size - start := Nat.sub_pos_of_lt hmore
      simp [hpos]
    · simp
  | cons m ms ih =>
    intro start
    rw [splitOffsets, List.forall_mem_append, List.forall_mem_cons, List.forall_mem_cons, ih]
    split_ifs with hbefore
    · have hpos : 0 < m.1 - start := Nat.sub_pos_of_lt hbefore
      simp [hpos]
    · simp

theorem unicodeRegexSplit_sum (text : Bytes) (regex : Regex) :
    (unicodeRegexSplit text regex).sum = text.length := by
  have hsum := splitOffsets_sum _ 0 (regex.inOrder text)
  rwa [Nat.zero_add] at hsum

/-! ## Words -/

/-- Only ASCII characters. -/
def IsAscii (chars : List Char) : Prop := ∀ ch ∈ chars, ch.toNat < 0x80

instance (chars : List Char) : Decidable (IsAscii chars) :=
  List.decidableBAll (fun ch : Char => ch.toNat < 0x80) chars

theorem encodeChar_length_pos (ch : Char) : 0 < (String.utf8EncodeChar ch).length := by
  rw [String.length_utf8EncodeChar]
  exact ch.utf8Size_pos

theorem encodeChar_length_eq_one : (String.utf8EncodeChar ch).length = 1 ↔ ch.toNat < 0x80 := by
  have hval : ch.val.toNat = ch.toNat := rfl
  rw [String.length_utf8EncodeChar, Char.utf8Size_eq_one_iff, UInt32.le_iff_toNat_le, hval]
  simp
  omega

theorem length_le_encode (chars : List Char) : chars.length ≤ (encode chars).length := by
  induction chars with
  | nil => exact Nat.le_refl _
  | cons ch chars ih =>
    have hpos := encodeChar_length_pos ch
    rw [encode_cons, List.length_append, List.length_cons]
    omega

/-- The bytes are as many as the characters only in ASCII. -/
theorem encode_length_eq_iff (chars : List Char) :
    (encode chars).length = chars.length ↔ IsAscii chars := by
  induction chars with
  | nil => exact iff_of_true rfl (fun _ h => absurd h List.not_mem_nil)
  | cons ch chars ih =>
    have hpos := encodeChar_length_pos ch
    have hle := length_le_encode chars
    rw [IsAscii, List.forall_mem_cons, ← encodeChar_length_eq_one]
    have hrest : (∀ c ∈ chars, c.toNat < 0x80) ↔ (encode chars).length = chars.length := ih.symm
    rw [hrest, encode_cons, List.length_append, List.length_cons]
    omega

namespace RegexSplit

/-- A word inside the text is its characters' bytes. -/
theorem word_inside (chars : List Char) : ∀ n i, i + n ≤ chars.length →
      word (chars.map Char.val) i n = .ok (encode ((chars.drop i).take n)) := by
  intro n
  induction n with
  | zero =>
    intro i _
    rw [word, List.take_zero]
    rfl
  | succ n ih =>
    intro i hi
    have hlt : i < chars.length := by omega
    have hget : (chars.map Char.val)[i]? = some chars[i].val := by
      rw [List.getElem?_map, List.getElem?_eq_getElem hlt]
      rfl
    rw [word, hget, List.drop_eq_getElem_cons hlt, List.take_succ_cons, encode_cons]
    simp only
    rw [unicodeCptToUtf8_val, ih (i + 1) (by omega)]
    rfl

/-- A word that ends past the last code point reads past it. -/
theorem word_outside (chars : List Char) : ∀ n i, i ≤ chars.length → chars.length < i + n →
      word (chars.map Char.val) i n = .error .indexOutOfRange := by
  intro n
  induction n with
  | zero =>
    intro i hi hlong
    omega
  | succ n ih =>
    intro i hi hlong
    rw [word]
    by_cases hlt : i < chars.length
    · have hget : (chars.map Char.val)[i]? = some chars[i].val := by
        rw [List.getElem?_map, List.getElem?_eq_getElem hlt]
        rfl
      rw [hget]
      simp only
      rw [unicodeCptToUtf8_val, ih (i + 1) (by omega) (by omega)]
      rfl
    · have hget : (chars.map Char.val)[i]? = none := by
        rw [List.getElem?_eq_none]
        rw [List.length_map]
        omega
      rw [hget]

theorem bpeWords_inside (chars : List Char) : ∀ offsets start, start + offsets.sum ≤ chars.length →
      bpeWords (chars.map Char.val) start offsets =
        .ok ((offsets.splitLengths (chars.drop start)).map encode) := by
  intro offsets
  induction offsets with
  | nil =>
    intro start _
    rfl
  | cons offset offsets ih =>
    intro start hfits
    rw [List.sum_cons] at hfits
    rw [bpeWords, word_inside chars offset start (by omega), ih (start + offset) (by omega),
      List.splitLengths_cons, List.drop_drop]
    rfl

/-- Offsets that go past the last code point read past it. -/
theorem bpeWords_outside (chars : List Char) :
    ∀ offsets start, start ≤ chars.length → chars.length < start + offsets.sum →
      bpeWords (chars.map Char.val) start offsets = .error .indexOutOfRange := by
  intro offsets
  induction offsets with
  | nil =>
    intro start hstart hlong
    rw [List.sum_nil] at hlong
    omega
  | cons offset offsets ih =>
    intro start hstart hlong
    rw [List.sum_cons] at hlong
    rw [bpeWords]
    by_cases hfits : start + offset ≤ chars.length
    · rw [word_inside chars offset start hfits, ih (start + offset) hfits (by omega)]
      rfl
    · rw [word_outside chars offset start hstart (by omega)]
      rfl

/-! ## One step -/

variable (step : RegexSplit)

/-- The text that the expression is matched on. -/
def subject (chars : List Char) : Bytes :=
  if step.mNeedRegexCollapse then step.unicodeCollapseText (chars.map Char.val) else encode chars

/-- The characters between and in the matches. -/
def cut (chars : List Char) : List (List Char) :=
  if chars = [] then []
  else (unicodeRegexSplit (step.subject chars) step.mRegex).splitLengths chars

/-- No match in the text is empty. -/
def NoEmptyMatch (chars : List Char) : Prop :=
  chars ≠ [] → ∀ m ∈ step.mRegex.iterate (step.subject chars), 0 < m.2

/-- Positions in the subject are code point offsets. -/
def Aligned (chars : List Char) : Prop := step.mNeedRegexCollapse = true ∨ IsAscii chars

variable {step}

theorem subject_length {chars : List Char} (haligned : step.Aligned chars) :
    (step.subject chars).length = chars.length := by
  rw [subject]
  split_ifs with hneed
  · rw [unicodeCollapseText, List.length_map, List.length_map]
  · exact (encode_length_eq_iff chars).2 (haligned.resolve_left hneed)

/-- The cut loses nothing. -/
theorem cut_flatten {chars : List Char} (haligned : step.Aligned chars) :
    (step.cut chars).flatten = chars := by
  rw [cut]
  split_ifs with hnil
  · rw [hnil]
    rfl
  · apply List.flatten_splitLengths
    rw [unicodeRegexSplit_sum, subject_length haligned]

theorem cut_ne_nil_iff {chars : List Char} (haligned : step.Aligned chars) :
    (∀ piece ∈ step.cut chars, piece ≠ []) ↔ step.NoEmptyMatch chars := by
  rw [cut, NoEmptyMatch]
  split_ifs with hnil
  · simp [hnil]
  · have hlengths := List.map_splitLengths_length chars
      (unicodeRegexSplit (step.subject chars) step.mRegex)
      (by rw [unicodeRegexSplit_sum, subject_length haligned])
    have hpos : (∀ piece ∈ (unicodeRegexSplit (step.subject chars) step.mRegex).splitLengths chars,
        piece ≠ []) ↔ ∀ offset ∈ unicodeRegexSplit (step.subject chars) step.mRegex, 0 < offset := by
      conv_rhs => rw [← hlengths]
      simp only [List.forall_mem_map, List.length_pos_iff]
    rw [hpos, unicodeRegexSplit, splitOffsets_pos]
    simp [hnil]

/-- Positions that are code point offsets cut the text at them. -/
theorem process_collapsed {chars : List Char} (hsize : (encode chars).length ≤ MAX_TEXT_SIZE_BYTES)
    (haligned : step.Aligned chars) :
    step.process (encode chars) = .ok ((step.cut chars).map encode) := by
  rw [process, cut]
  by_cases hnil : chars = []
  · rw [hnil]
    rfl
  · have hsum := unicodeRegexSplit_sum (step.subject chars) step.mRegex
    rw [subject_length haligned] at hsum
    rw [if_neg (fun h => hnil (encode_eq_nil.1 h)), if_neg (Nat.not_lt.2 hsize), if_neg hnil,
      unicodeCptsFromUtf8_encode]
    exact bpeWords_inside chars _ 0 (by rw [Nat.zero_add]; exact hsum.le)

/-- Positions in UTF-8 bytes run past the code points. -/
theorem process_outOfRange {chars : List Char}
    (hsize : (encode chars).length ≤ MAX_TEXT_SIZE_BYTES) (haligned : ¬ step.Aligned chars) :
    step.process (encode chars) = .error .indexOutOfRange := by
  rw [Aligned, not_or] at haligned
  have hnil : chars ≠ [] := by
    intro hnil
    apply haligned.2
    rw [hnil]
    exact fun _ h => absurd h List.not_mem_nil
  have hlong : chars.length < (encode chars).length := by
    have hle := length_le_encode chars
    have hne := mt (encode_length_eq_iff chars).1 haligned.2
    omega
  have hsum := unicodeRegexSplit_sum (encode chars) step.mRegex
  rw [process, if_neg (fun h => hnil (encode_eq_nil.1 h)), if_neg (Nat.not_lt.2 hsize),
    unicodeCptsFromUtf8_encode]
  show bpeWords _ 0 (unicodeRegexSplit (if step.mNeedRegexCollapse = true then _ else _) _) = _
  rw [if_neg haligned.1]
  exact bpeWords_outside chars _ 0 (Nat.zero_le _) (by omega)

end RegexSplit

/-! ## A sequence of steps -/

open RegexSplit

/-- The pieces that some steps cut, one step after the other. -/
def cutAll : List RegexSplit → List (List Char) → List (List Char)
  | [], pieces => pieces
  | step :: steps, pieces => cutAll steps (pieces.flatMap step.cut)

/-- The last step has no empty match in a piece that the steps before it cut. -/
def LastMatchesNonempty : List RegexSplit → List (List Char) → Prop
  | [], _ => True
  | [step], pieces => ∀ piece ∈ pieces, step.NoEmptyMatch piece
  | step :: next :: steps, pieces =>
    LastMatchesNonempty (next :: steps) (pieces.flatMap step.cut)

/-- Every step's positions are code point offsets. -/
def AllAligned (steps : List RegexSplit) (chars : List Char) : Prop :=
  IsAscii chars ∨ ∀ step ∈ steps, step.mNeedRegexCollapse = true

variable {pieces : List (List Char)} {step : RegexSplit}

/-- The characters of some pieces are ASCII when all of the text is. -/
theorem isAscii_flatten :
    IsAscii pieces.flatten ↔ ∀ piece ∈ pieces, IsAscii piece := by
  simp only [IsAscii, List.mem_flatten]
  constructor
  · intro h piece hpiece ch hch
    exact h ch ⟨piece, hpiece, hch⟩
  · intro h ch hch
    obtain ⟨piece, hpiece, hmem⟩ := hch
    exact h piece hpiece ch hmem

theorem encode_piece_le {piece : List Char} (h : piece ∈ pieces) :
    (encode piece).length ≤ (encode pieces.flatten).length := by
  obtain ⟨before, after, rfl⟩ := List.append_of_mem h
  rw [List.flatten_append, List.flatten_cons, encode_append, encode_append, List.length_append,
    List.length_append]
  omega

theorem cut_flatMap_flatten
    (haligned : ∀ piece ∈ pieces, step.Aligned piece) :
    (pieces.flatMap step.cut).flatten = pieces.flatten := by
  induction pieces with
  | nil => rfl
  | cons piece pieces ih =>
    obtain ⟨hpiece, hpieces⟩ := List.forall_mem_cons.1 haligned
    rw [List.flatMap_cons, List.flatten_append, List.flatten_cons, ih hpieces, cut_flatten hpiece]

theorem processPieces_aligned
    (hsize : ∀ piece ∈ pieces, (encode piece).length ≤ MAX_TEXT_SIZE_BYTES)
    (haligned : ∀ piece ∈ pieces, step.Aligned piece) :
    processPieces step (pieces.map encode) = .ok ((pieces.flatMap step.cut).map encode) := by
  induction pieces with
  | nil => rfl
  | cons piece pieces ih =>
    obtain ⟨hfirst, hothers⟩ := List.forall_mem_cons.1 hsize
    obtain ⟨hpiece, hpieces⟩ := List.forall_mem_cons.1 haligned
    rw [List.map_cons, processPieces, process_collapsed hfirst hpiece, ih hothers hpieces,
      List.flatMap_cons, List.map_append]
    rfl

/-- A step whose positions are bytes fails at the first piece beyond ASCII. -/
theorem processPieces_misaligned
    (hsize : ∀ piece ∈ pieces, (encode piece).length ≤ MAX_TEXT_SIZE_BYTES)
    (hmisaligned : ∃ piece ∈ pieces, ¬ step.Aligned piece) :
    processPieces step (pieces.map encode) = .error .indexOutOfRange := by
  induction pieces with
  | nil =>
    obtain ⟨piece, hpiece, _⟩ := hmisaligned
    exact absurd hpiece List.not_mem_nil
  | cons piece pieces ih =>
    obtain ⟨hfirst, hothers⟩ := List.forall_mem_cons.1 hsize
    rw [List.map_cons, processPieces]
    by_cases hpiece : step.Aligned piece
    · have hlater : ∃ piece ∈ pieces, ¬ step.Aligned piece := by
        obtain ⟨bad, hbad, hnot⟩ := hmisaligned
        rcases List.mem_cons.1 hbad with rfl | hmem
        · exact absurd hpiece hnot
        · exact ⟨bad, hmem, hnot⟩
      rw [process_collapsed hfirst hpiece, ih hothers hlater]
      rfl
    · rw [process_outOfRange hfirst hpiece]
      rfl

/-- The steps cut the pieces, or read past some code points. -/
theorem processSteps_spec (steps : List RegexSplit) :
    ∀ pieces : List (List Char), (encode pieces.flatten).length ≤ MAX_TEXT_SIZE_BYTES →
      (AllAligned steps pieces.flatten →
        processSteps steps (pieces.map encode) = .ok ((cutAll steps pieces).map encode) ∧
          (cutAll steps pieces).flatten = pieces.flatten ∧
          (steps ≠ [] → ((∀ piece ∈ cutAll steps pieces, piece ≠ []) ↔
            LastMatchesNonempty steps pieces))) ∧ (¬ AllAligned steps pieces.flatten →
        processSteps steps (pieces.map encode) = .error .indexOutOfRange) := by
  induction steps with
  | nil =>
    intro pieces _
    refine ⟨fun _ => ⟨rfl, rfl, fun h => absurd rfl h⟩, ?_⟩
    intro hnot
    exact absurd (.inr fun _ h => absurd h List.not_mem_nil) hnot
  | cons step steps ih =>
    intro pieces hsize
    have hsizes : ∀ piece ∈ pieces, (encode piece).length ≤ MAX_TEXT_SIZE_BYTES :=
      fun piece hpiece => (encode_piece_le hpiece).trans hsize
    by_cases haligned : ∀ piece ∈ pieces, step.Aligned piece
    · have hflatten := cut_flatMap_flatten haligned
      obtain ⟨hgood, hbad⟩ := ih (pieces.flatMap step.cut) (by rw [hflatten]; exact hsize)
      rw [hflatten] at hgood hbad
      have hhead : processSteps (step :: steps) (pieces.map encode) =
          processSteps steps ((pieces.flatMap step.cut).map encode) := by
        rw [processSteps, processPieces_aligned hsizes haligned]
        rfl
      constructor
      · intro hall
        have hrest : AllAligned steps pieces.flatten :=
          hall.imp_right fun h other hother => h other (List.mem_cons_of_mem _ hother)
        obtain ⟨hsteps, hcut, hnonempty⟩ := hgood hrest
        refine ⟨hhead.trans hsteps, hcut, fun _ => ?_⟩
        cases steps with
        | nil =>
          rw [cutAll, cutAll, LastMatchesNonempty, List.forall_mem_flatMap]
          apply forall₂_congr
          intro piece hpiece
          exact cut_ne_nil_iff (haligned piece hpiece)
        | cons next steps =>
          rw [cutAll, LastMatchesNonempty]
          exact hnonempty (List.cons_ne_nil next steps)
      · intro hnot
        rw [hhead]
        apply hbad
        intro hrest
        apply hnot
        rcases hrest with hascii | hcollapse
        · exact .inl hascii
        · by_cases hneed : step.mNeedRegexCollapse = true
          · exact .inr (List.forall_mem_cons.2 ⟨hneed, hcollapse⟩)
          · refine .inl (isAscii_flatten.2 ?_)
            intro piece hpiece
            exact (haligned piece hpiece).resolve_left hneed
    · rw [not_forall₂] at haligned
      obtain ⟨piece, hpiece, hnot⟩ := haligned
      constructor
      · intro hall
        apply absurd _ hnot
        rcases hall with hascii | hcollapse
        · exact .inr (isAscii_flatten.1 hascii piece hpiece)
        · exact .inl (hcollapse step List.mem_cons_self)
      · intro _
        rw [processSteps, processPieces_misaligned hsizes ⟨piece, hpiece, hnot⟩]
        rfl

/-- The outcome partitions the text into texts, none of them empty. -/
def Partitions (result : Except Failure (List Bytes)) (text : Bytes) : Prop :=
  ∃ pieces, result = .ok pieces ∧ pieces.flatten = text ∧ ∀ piece ∈ pieces, piece ≠ [] ∧ IsText piece

theorem partitions_map_encode (hflatten : pieces.flatten = chars) :
    Partitions (.ok (pieces.map encode)) (encode chars) ↔ ∀ piece ∈ pieces, piece ≠ [] := by
  have hbytes : (pieces.map encode).flatten = encode chars := by
    rw [← hflatten]
    induction pieces generalizing chars with
    | nil => rfl
    | cons piece pieces ih =>
      rw [List.map_cons, List.flatten_cons, List.flatten_cons, encode_append, ih rfl]
  constructor
  · intro h piece hpiece
    obtain ⟨_, heq, _, hgood⟩ := h
    rw [Except.ok.injEq] at heq
    rw [← heq] at hgood
    exact fun hnil => (hgood _ (List.mem_map_of_mem hpiece)).1 (encode_eq_nil.2 hnil)
  · intro h
    refine ⟨_, rfl, hbytes, ?_⟩
    intro bytes hmem
    obtain ⟨piece, hpiece, rfl⟩ := List.mem_map.1 hmem
    exact ⟨fun hnil => h piece hpiece (encode_eq_nil.1 hnil), piece, rfl⟩

theorem not_partitions_error {e : Failure} {text : Bytes} : ¬ Partitions (.error e) text := by
  intro h
  obtain ⟨_, heq, _⟩ := h
  cases heq

theorem process_partitions_iff
    (hsize : (encode chars).length ≤ MAX_TEXT_SIZE_BYTES) :
    Partitions (step.process (encode chars)) (encode chars) ↔
      step.Aligned chars ∧ step.NoEmptyMatch chars := by
  by_cases haligned : step.Aligned chars
  · rw [process_collapsed hsize haligned, partitions_map_encode (cut_flatten haligned),
      cut_ne_nil_iff haligned]
    exact (and_iff_right haligned).symm
  · rw [process_outOfRange hsize haligned]
    exact iff_of_false not_partitions_error (fun h => haligned h.1)

theorem lastMatchesNonempty_of_nil :
    ∀ (steps : List RegexSplit) (pieces : List (List Char)), (∀ piece ∈ pieces, piece = []) →
      LastMatchesNonempty steps pieces := by
  intro steps
  induction steps with
  | nil =>
    intro pieces _
    trivial
  | cons step steps ih =>
    intro pieces hnil
    cases steps with
    | nil => exact fun piece hpiece hne => absurd (hnil piece hpiece) hne
    | cons next steps =>
      apply ih
      intro piece hpiece
      obtain ⟨whole, hwhole, hcut⟩ := List.mem_flatMap.1 hpiece
      rw [hnil whole hwhole, cut, if_pos rfl] at hcut
      exact absurd hcut List.not_mem_nil

theorem processSequence_partitions_iff {steps : List RegexSplit}
    (hsize : (encode chars).length ≤ MAX_TEXT_SIZE_BYTES) :
    Partitions (processSequence steps (encode chars)) (encode chars) ↔
      AllAligned steps chars ∧ LastMatchesNonempty steps [chars] := by
  by_cases hnil : chars = []
  · subst hnil
    apply iff_of_true
    · exact ⟨[], rfl, rfl, fun _ h => absurd h List.not_mem_nil⟩
    · refine ⟨.inl fun _ h => absurd h List.not_mem_nil, ?_⟩
      exact lastMatchesNonempty_of_nil steps _ (fun piece hpiece => List.mem_singleton.1 hpiece)
  have hwhole : ([chars] : List (List Char)).flatten = chars := by simp
  obtain ⟨hgood, hbad⟩ := processSteps_spec steps [chars] (by rw [hwhole]; exact hsize)
  rw [hwhole] at hgood hbad
  rw [processSequence, if_neg (fun h => hnil (encode_eq_nil.1 h)), if_neg (Nat.not_lt.2 hsize)]
  by_cases hsteps : steps = []
  · subst hsteps
    rw [if_pos rfl]
    apply iff_of_true
    · exact (partitions_map_encode hwhole).2 (fun piece hpiece => by
        rw [List.mem_singleton.1 hpiece]
        exact hnil)
    · exact ⟨.inr fun _ h => absurd h List.not_mem_nil, trivial⟩
  rw [if_neg hsteps]
  by_cases haligned : AllAligned steps chars
  · obtain ⟨hresult, hflatten, hnonempty⟩ := hgood haligned
    have hlist : [encode chars] = [chars].map encode := rfl
    rw [hlist, hresult, partitions_map_encode hflatten, hnonempty hsteps]
    exact (and_iff_right haligned).symm
  · have hlist : [encode chars] = [chars].map encode := rfl
    rw [hlist, hbad haligned]
    exact iff_of_false not_partitions_error (fun h => haligned h.1)

/-- On a text within the size limit: the offsets of an expression cover what it is
matched on, and are positive when no match is empty; and a step, or a sequence of
steps, partitions the text exactly when the positions it reads are code point
offsets and no match of the last step is empty. -/
theorem preTokenization_partitions_iff (chars : List Char)
    (hsize : (encode chars).length ≤ MAX_TEXT_SIZE_BYTES) :
    (∀ (text : Bytes) (regex : Regex), (unicodeRegexSplit text regex).sum = text.length ∧
        ((∀ offset ∈ unicodeRegexSplit text regex, 0 < offset) ↔
          ∀ m ∈ regex.iterate text, 0 < m.2)) ∧
      (∀ step : RegexSplit, Partitions (step.process (encode chars)) (encode chars) ↔
        step.Aligned chars ∧ step.NoEmptyMatch chars) ∧
      ∀ steps : List RegexSplit,
        Partitions (processSequence steps (encode chars)) (encode chars) ↔
          AllAligned steps chars ∧ LastMatchesNonempty steps [chars] := by
  refine ⟨?_, ?_, ?_⟩
  · intro text regex
    exact ⟨unicodeRegexSplit_sum text regex, splitOffsets_pos _ 0⟩
  · intro step
    exact process_partitions_iff hsize
  · intro steps
    exact processSequence_partitions_iff hsize

/-- The matches of the expression `x` in a text that starts at `i`. -/
def lettersX : Nat → Bytes → List (Nat × Nat)
  | _, [] => []
  | i, b :: rest => if b = 0x78 then (i, 1) :: lettersX (i + 1) rest else lettersX (i + 1) rest

theorem lettersX_inOrder :
    ∀ (text : Bytes) (i start : Nat), start ≤ i → InOrder (i + text.length) start (lettersX i text) := by
  intro text
  induction text with
  | nil =>
    intro i start hstart
    exact hstart
  | cons b rest ih =>
    intro i start hstart
    have hlength : i + (b :: rest).length = i + 1 + rest.length := by
      rw [List.length_cons]
      omega
    rw [lettersX, hlength]
    split_ifs
    · exact ⟨hstart, ih (i + 1) (i + 1) (Nat.le_refl _)⟩
    · exact ih (i + 1) start (by omega)

/-- The step that splits at the expression `x`. -/
def splitX : RegexSplit where
  mNeedRegexCollapse := false
  mRegex :=
    { iterate := lettersX 0
      inOrder := fun text => by simpa using lettersX_inOrder text 0 0 (Nat.le_refl _) }
  collapsed := fun _ => 0

/-- `axb` is partitioned at its `x`. -/
theorem preTokenization_partitions_axb :
    Partitions (processSequence [splitX] (encode ['a', 'x', 'b'])) (encode ['a', 'x', 'b']) := by
  apply ((preTokenization_partitions_iff ['a', 'x', 'b'] (by decide)).2.2 [splitX]).2
  refine ⟨.inl (by decide), ?_⟩
  intro piece hpiece _
  rw [List.mem_singleton.1 hpiece]
  decide

/-- The letter é is two bytes and one code point: the second offset reads past the
code points. -/
theorem not_partitions_beyond_ascii :
    ¬ Partitions (splitX.process (encode [Char.ofNat 0xE9])) (encode [Char.ofNat 0xE9]) := by
  rw [process_partitions_iff (by decide)]
  intro h
  rcases h.1 with hneed | hascii
  · exact absurd hneed (by decide)
  · exact absurd hascii (by decide)

end EdgeLLM.Ports.PreTokenizer
