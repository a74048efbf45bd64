import EdgeLLM.Ports.BytePairMerge

/-!
# What the ids of a piece stand for

The ids that `encode` appends are read back through the vocabulary, byte tokens as
their byte.  A symbol that is in the vocabulary, or whose bytes all have a byte
token, comes back; any other symbol ends the final loop, and a piece of a single
unit that is no token appends nothing at all, while `encode` returns true.
-/

namespace EdgeLLM.Ports.Encoding

open Utf8
open Generation
open Verified.PairMerging

namespace TokenEncoder

/-- The byte that a token of the form `<0xNN>` stands for. -/
def spelledByte (token : Bytes) : Option UInt8 :=
  if token.length = 6 then Tokenizer.fallbackByte token else none

variable (enc : TokenEncoder)

/-- The text of one id: its token, or the byte of a byte token. -/
def tokenText (rank : Rank) : Bytes :=
  match enc.mDecoder rank with
  | none => []
  | some token =>
    if enc.mByteFallback then
      match spelledByte token with
      | some byte => [byte]
      | none => token
    else token

/-- The text of some ids. -/
def recovered (ids : List Rank) : Bytes := ids.flatMap enc.tokenText

/-- The string is a token that is not read as a byte. -/
def IsPlainToken (string : Bytes) : Prop :=
  (∃ rank, enc.mEncoder string = some rank) ∧ (enc.mByteFallback = true → spelledByte string = none)

/-- The string comes back from its ids: it is a plain token, or it falls back to
byte tokens that are all there. -/
def Kept (string : Bytes) : Prop :=
  enc.IsPlainToken string ∨
    enc.mEncoder string = none ∧ enc.mByteFallback = true ∧
      ∀ byte ∈ string, (enc.mEncoder (byteToken byte)).isSome = true

variable {enc}

theorem spelledByte_byteToken (byte : UInt8) : spelledByte (byteToken byte) = some byte := by
  revert byte
  apply forall_byte
  decide +kernel

theorem spelledByte_length {token : Bytes} {byte : UInt8} (h : spelledByte token = some byte) :
    token.length = 6 := by
  unfold spelledByte at h
  split_ifs at h with hlength
  exact hlength

theorem tokenText_plain {string : Bytes} {rank : Rank} (henc : enc.mEncoder string = some rank)
    (hplain : enc.mByteFallback = true → spelledByte string = none) :
    enc.tokenText rank = string := by
  rw [tokenText, (enc.reversed string rank).2 henc]
  simp only
  split_ifs with hfallback
  · rw [hplain hfallback]
  · rfl

/-- A token that is read as a byte is read back too short. -/
theorem tokenText_spelled {string : Bytes} {rank : Rank} {byte : UInt8}
    (henc : enc.mEncoder string = some rank) (hfallback : enc.mByteFallback = true)
    (hspelled : spelledByte string = some byte) : enc.tokenText rank = [byte] := by
  rw [tokenText, (enc.reversed string rank).2 henc]
  simp only
  rw [if_pos hfallback, hspelled]

theorem recovered_cons (rank : Rank) (ids : List Rank) :
    enc.recovered (rank :: ids) = enc.tokenText rank ++ enc.recovered ids := List.flatMap_cons

theorem recovered_append (xs ys : List Rank) :
    enc.recovered (xs ++ ys) = enc.recovered xs ++ enc.recovered ys := List.flatMap_append

/-- The byte tokens of a string: all of it, or less. -/
theorem recovered_fallbackTokens (hfallback : enc.mByteFallback = true) (string : Bytes) :
    ((enc.fallbackTokens string).2 = true ∧ enc.recovered (enc.fallbackTokens string).1 = string ∧
        ∀ byte ∈ string, (enc.mEncoder (byteToken byte)).isSome = true) ∨
      ((enc.fallbackTokens string).2 = false ∧
        (enc.recovered (enc.fallbackTokens string).1).length < string.length ∧
        ¬ ∀ byte ∈ string, (enc.mEncoder (byteToken byte)).isSome = true) := by
  induction string with
  | nil => exact .inl ⟨rfl, rfl, fun byte hbyte => absurd hbyte List.not_mem_nil⟩
  | cons byte rest ih =>
    rw [fallbackTokens]
    cases henc : enc.mEncoder (byteToken byte) with
    | none =>
      refine .inr ⟨rfl, Nat.succ_pos _, ?_⟩
      intro hall
      have hhead := hall byte List.mem_cons_self
      rw [henc] at hhead
      cases hhead
    | some rank =>
      have htext := tokenText_spelled henc hfallback (spelledByte_byteToken byte)
      simp only [recovered_cons, htext, List.forall_mem_cons, henc, Option.isSome_some,
        true_and, List.cons_append, List.nil_append, List.length_cons, Nat.succ_lt_succ_iff,
        List.cons.injEq]
      exact ih

/-- What the final loop appends for some strings comes back no longer than they
are, and as long only when each of them is kept. -/
theorem recovered_finalTokens : ∀ strings : List Bytes, (∀ string ∈ strings, string ≠ []) →
      ((∀ string ∈ strings, enc.Kept string) ∧
          enc.recovered (enc.finalTokens strings) = strings.flatten) ∨
        (¬ (∀ string ∈ strings, enc.Kept string) ∧
          (enc.recovered (enc.finalTokens strings)).length < strings.flatten.length) := by
  intro strings
  induction strings with
  | nil =>
    intro _
    exact .inl ⟨fun string h => absurd h List.not_mem_nil, rfl⟩
  | cons string rest ih =>
    intro hne
    obtain ⟨hstring, hothers⟩ := List.forall_mem_cons.1 hne
    have hpos := List.length_pos_iff.2 hstring
    rw [finalTokens, List.flatten_cons, List.length_append, List.forall_mem_cons]
    cases henc : enc.mEncoder string with
    | some rank =>
      simp only
      rw [recovered_cons, List.length_append]
      by_cases hplain : enc.mByteFallback = true → spelledByte string = none
      · have htext := tokenText_plain henc hplain
        have hkept : enc.Kept string := .inl ⟨⟨rank, henc⟩, hplain⟩
        rw [htext]
        rcases ih hothers with ⟨hall, hsame⟩ | ⟨hnot, hless⟩
        · exact .inl ⟨⟨hkept, hall⟩, by rw [hsame]⟩
        · exact .inr ⟨fun h => hnot h.2, Nat.add_lt_add_left hless _⟩
      · obtain ⟨hfallback, hspelled⟩ := Classical.not_imp.1 hplain
        obtain ⟨byte, hbyte⟩ := Option.ne_none_iff_exists'.1 hspelled
        have htext := tokenText_spelled henc hfallback hbyte
        have hlength := spelledByte_length hbyte
        have hnot : ¬ enc.Kept string := by
          intro hkept
          rcases hkept with hplain' | ⟨hnone, _⟩
          · exact hplain hplain'.2
          · rw [henc] at hnone
            cases hnone
        refine .inr ⟨fun h => hnot h.1, ?_⟩
        rw [htext, hlength, List.length_singleton]
        rcases ih hothers with ⟨_, hsame⟩ | ⟨_, hless⟩
        · rw [hsame]
          omega
        · omega
    | none =>
      simp only
      by_cases hfallback : enc.mByteFallback = true
      · rw [if_pos hfallback]
        rcases recovered_fallbackTokens hfallback string with
          ⟨hcomplete, htext, hbytes⟩ | ⟨hincomplete, hless, hbytes⟩
        · have hkept : enc.Kept string := .inr ⟨henc, hfallback, hbytes⟩
          rw [if_pos hcomplete, recovered_append, htext, List.length_append]
          rcases ih hothers with ⟨hall, hsame⟩ | ⟨hnot, hless⟩
          · exact .inl ⟨⟨hkept, hall⟩, by rw [hsame]⟩
          · exact .inr ⟨fun h => hnot h.2, Nat.add_lt_add_left hless _⟩
        · have hnot : ¬ enc.Kept string := by
            intro hkept
            rcases hkept with ⟨⟨rank, hsome⟩, _⟩ | ⟨_, _, hall⟩
            · rw [henc] at hsome
              cases hsome
            · exact hbytes hall
          rw [if_neg (by rw [hincomplete]; exact Bool.false_ne_true)]
          exact .inr ⟨fun h => hnot h.1, by omega⟩
      · have hnot : ¬ enc.Kept string := by
          intro hkept
          rcases hkept with ⟨⟨rank, hsome⟩, _⟩ | ⟨_, hon, _⟩
          · rw [henc] at hsome
            cases hsome
          · exact hfallback hon
        rw [if_neg hfallback]
        refine .inr ⟨fun h => hnot h.1, ?_⟩
        have hnil : (enc.recovered []).length = 0 := rfl
        rw [hnil]
        omega

/-- The final loop loses nothing exactly when every string is kept. -/
theorem recovered_finalTokens_iff {strings : List Bytes} (hne : ∀ string ∈ strings, string ≠ []) :
    enc.recovered (enc.finalTokens strings) = strings.flatten ↔
      ∀ string ∈ strings, enc.Kept string := by
  rcases recovered_finalTokens strings hne with ⟨hall, hsame⟩ | ⟨hnot, hless⟩
  · exact iff_of_true hsame hall
  · refine iff_of_false ?_ hnot
    intro hsame
    rw [hsame] at hless
    exact absurd hless (Nat.lt_irrefl _)

/-! ## The symbols of a piece -/

theorem flatten_mergeAt : ∀ (i : Nat) (strings : List Bytes),
      (mergeAt (· ++ ·) i strings).flatten = strings.flatten := by
  intro i
  induction i with
  | zero =>
    intro strings
    match strings with
    | [] => rfl
    | [x] => rfl
    | l :: r :: rest =>
      rw [mergeAt, List.flatten_cons, List.flatten_cons, List.flatten_cons, List.append_assoc]
  | succ i ih =>
    intro strings
    cases strings with
    | nil => rfl
    | cons x rest => rw [mergeAt, List.flatten_cons, List.flatten_cons, ih]

theorem ne_nil_mergeAt : ∀ (i : Nat) (strings : List Bytes), (∀ string ∈ strings, string ≠ []) →
      ∀ string ∈ mergeAt (· ++ ·) i strings, string ≠ [] := by
  intro i
  induction i with
  | zero =>
    intro strings hne
    match strings with
    | [] => exact hne
    | [x] => exact hne
    | l :: r :: rest =>
      obtain ⟨hl, hrest⟩ := List.forall_mem_cons.1 hne
      rw [mergeAt]
      refine List.forall_mem_cons.2 ⟨?_, (List.forall_mem_cons.1 hrest).2⟩
      exact fun h => hl (List.append_eq_nil_iff.1 h).1
  | succ i ih =>
    intro strings hne
    cases strings with
    | nil => exact hne
    | cons x rest =>
      obtain ⟨hx, hrest⟩ := List.forall_mem_cons.1 hne
      exact List.forall_mem_cons.2 ⟨hx, ih rest hrest⟩

/-- The symbols left are pieces of the text, none of them empty. -/
theorem textbookSymbols_spec (chars : List Char) :
    (textbookSymbols enc chars).flatten = chars.flatMap String.utf8EncodeChar ∧
      ∀ string ∈ textbookSymbols enc chars, string ≠ [] := by
  constructor
  · apply mergePairs_invariant (P := fun strings : List Bytes =>
      strings.flatten = chars.flatMap String.utf8EncodeChar)
    · intro i strings h
      exact (flatten_mergeAt i strings).trans h
    · exact units_flatten enc chars
  apply mergePairs_invariant (P := fun strings : List Bytes => ∀ string ∈ strings, string ≠ [])
  · exact ne_nil_mergeAt
  intro unit hunit
  obtain ⟨c, tail, rfl, _⟩ := unitLength_units enc chars unit hunit
  exact List.cons_ne_nil c tail

variable (enc) in
/-- The piece is empty; or it is a plain token; or it is no token, has several
units, and the symbols that the reference algorithm leaves are all kept. -/
def Recoverable (chars : List Char) : Prop :=
  chars = [] ∨ enc.IsPlainToken (chars.flatMap String.utf8EncodeChar) ∨
    enc.mEncoder (chars.flatMap String.utf8EncodeChar) = none ∧ 1 < (units enc chars).length ∧
      ∀ string ∈ textbookSymbols enc chars, enc.Kept string

/-- The ids of the piece stand for all of it exactly when it is recoverable. -/
theorem recovered_textbookEncode_iff (chars : List Char) :
    enc.recovered (textbookEncode enc chars) = chars.flatMap String.utf8EncodeChar ↔
      Recoverable enc chars := by
  rw [textbookEncode, Recoverable]
  by_cases hnil : chars = []
  · rw [if_pos hnil, hnil]
    exact iff_of_true rfl (.inl rfl)
  have hbytes := fun h => hnil (utf8_eq_nil.1 h)
  rw [if_neg hnil]
  cases henc : enc.mEncoder (chars.flatMap String.utf8EncodeChar) with
  | some rank =>
    simp only [reduceCtorEq, false_and, or_false, hnil, false_or]
    rw [recovered_cons, show enc.recovered [] = [] from rfl, List.append_nil]
    constructor
    · intro hsame
      refine ⟨⟨rank, henc⟩, ?_⟩
      intro hfallback
      rw [← Option.not_isSome_iff_eq_none]
      intro hsome
      obtain ⟨byte, hbyte⟩ := Option.isSome_iff_exists.1 hsome
      have htext := tokenText_spelled henc hfallback hbyte
      have hlength := spelledByte_length hbyte
      rw [← hsame, htext, List.length_singleton] at hlength
      omega
    · intro hplain
      exact tokenText_plain henc hplain.2
  | none =>
    have hnotPlain : ¬ enc.IsPlainToken (chars.flatMap String.utf8EncodeChar) := by
      intro hplain
      obtain ⟨rank, hsome⟩ := hplain.1
      rw [henc] at hsome
      cases hsome
    simp only [hnil, hnotPlain, false_or, true_and]
    have hsymbols : (textbookSymbols enc chars).flatten = _ ∧ _ := textbookSymbols_spec chars
    obtain ⟨hflatten, hne⟩ := hsymbols
    by_cases hone : (units enc chars).length ≤ 1
    · rw [if_pos hone]
      refine iff_of_false (fun h => hbytes h.symm) ?_
      intro h
      omega
    · rw [if_neg hone, ← recovered_finalTokens_iff hne, hflatten]
      exact (and_iff_right (Nat.lt_of_not_le hone)).symm

variable (enc) in
/-- If `encode` returns true its ids stand for the whole piece; and for a byte pair
encoder with byte fallback and all byte tokens it does, on a piece within the size
limit. -/
def LosslessOn (heap : PopHeap) (chars : List Char) : Prop :=
  (∀ ids, enc.encode heap (chars.flatMap String.utf8EncodeChar) = some (true, ids) →
      enc.recovered ids = chars.flatMap String.utf8EncodeChar) ∧
    (enc.mType = .BPE → enc.mByteFallback = true →
      (∀ byte, (enc.mEncoder (byteToken byte)).isSome = true) →
        (chars.flatMap String.utf8EncodeChar).length ≤ kMaxTokenPieceSizeBytes →
          ∃ ids, enc.encode heap (chars.flatMap String.utf8EncodeChar) = some (true, ids) ∧
            enc.recovered ids = chars.flatMap String.utf8EncodeChar)

/-- Within the limit a byte pair encoder returns true, with the reference's ids. -/
theorem encode_textbook (heap : PopHeap) {chars : List Char} (htype : enc.mType = .BPE)
    (hsize : (chars.flatMap String.utf8EncodeChar).length ≤ kMaxTokenPieceSizeBytes) :
    enc.encode heap (chars.flatMap String.utf8EncodeChar) =
      some (true, textbookEncode enc chars) := by
  rw [encode, if_neg (Nat.not_lt.2 hsize), htype]
  by_cases hnil : chars = []
  · rw [if_pos (utf8_eq_nil.2 hnil), textbookEncode, if_pos hnil]
  · rw [if_neg (fun h => hnil (utf8_eq_nil.1 h))]
    simp only
    rw [bytePairEncode_eq]
    rfl

/-- Pieces that are not empty are refused over the limit, and by other encoders. -/
theorem encode_refused (heap : PopHeap) {chars : List Char} (hnil : chars ≠ [])
    (h : enc.mType ≠ .BPE ∨
      kMaxTokenPieceSizeBytes < (chars.flatMap String.utf8EncodeChar).length) :
    enc.encode heap (chars.flatMap String.utf8EncodeChar) = some (false, []) := by
  rw [encode, if_neg (fun h => hnil (utf8_eq_nil.1 h))]
  split_ifs with hlong
  · rfl
  · have htype := h.resolve_right hlong
    cases htag : enc.mType with
    | BPE => exact absurd htag htype
    | SENTENCEPIECE => rfl
    | WORDPIECE => rfl

/-- The pieces that `encode` does not lose: those it refuses, by its type or by the
size limit, and the recoverable ones. -/
theorem encode_lossless_iff (enc : TokenEncoder) (heap : PopHeap) (chars : List Char) :
    LosslessOn enc heap chars ↔
      (enc.mType ≠ .BPE ∨
        kMaxTokenPieceSizeBytes < (chars.flatMap String.utf8EncodeChar).length) ∨
        Recoverable enc chars := by
  by_cases hnil : chars = []
  · subst hnil
    refine iff_of_true ⟨?_, ?_⟩ (.inr (.inl rfl))
    · intro ids hids
      have hsome : enc.encode heap [] = some (true, []) := rfl
      rw [List.flatMap_nil, hsome, Option.some.injEq, Prod.mk.injEq] at hids
      rw [← hids.2]
      rfl
    · intro _ _ _ _
      exact ⟨[], rfl, rfl⟩
  by_cases hrefused : enc.mType ≠ .BPE ∨
      kMaxTokenPieceSizeBytes < (chars.flatMap String.utf8EncodeChar).length
  · refine iff_of_true ⟨?_, ?_⟩ (.inl hrefused)
    · intro ids hids
      rw [encode_refused heap hnil hrefused, Option.some.injEq, Prod.mk.injEq] at hids
      exact absurd hids.1 Bool.false_ne_true
    · intro htype _ _ hsize
      rcases hrefused with hother | hlong
      · exact absurd htype hother
      · exact absurd hsize (Nat.not_le.2 hlong)
  · obtain ⟨htype, hsize⟩ := not_or.1 hrefused
    have hencode := encode_textbook heap (not_not.1 htype) (Nat.le_of_not_lt hsize)
    rw [← recovered_textbookEncode_iff, LosslessOn, hencode]
    constructor
    · intro h
      exact .inr (h.1 _ rfl)
    · intro h
      have hsame := h.resolve_left hrefused
      refine ⟨?_, fun _ _ _ _ => ⟨_, rfl, hsame⟩⟩
      intro ids hids
      rw [Option.some.injEq, Prod.mk.injEq] at hids
      rw [← hids.2]
      exact hsame

/-! ## A character without a token -/

/-- The ids of the byte tokens: the bytes. -/
def byteRank (token : Bytes) : Option Int :=
  (spelledByte token).bind fun byte =>
    if byteToken byte = token then some (byte.toNat : Int) else none

theorem byteRank_eq_some_iff {token : Bytes} {rank : Int} : byteRank token = some rank ↔
      ∃ byte : UInt8, byteToken byte = token ∧ (byte.toNat : Int) = rank := by
  constructor
  · intro h
    rw [byteRank, Option.bind_eq_some_iff] at h
    obtain ⟨byte, _, hbyte⟩ := h
    split_ifs at hbyte with htoken
    exact ⟨byte, htoken, Option.some.inj hbyte⟩
  · intro h
    obtain ⟨byte, rfl, rfl⟩ := h
    rw [byteRank, spelledByte_byteToken, Option.bind_some, if_pos rfl]

/-- The byte token of an id. -/
def rankToken (rank : Int) : Option Bytes :=
  if 0 ≤ rank ∧ rank < 256 then some (byteToken (UInt8.ofNat rank.toNat)) else none

theorem rankToken_byteRank (token : Bytes) (rank : Int) :
    rankToken rank = some token ↔ byteRank token = some rank := by
  rw [byteRank_eq_some_iff, rankToken]
  constructor
  · intro h
    split_ifs at h with hrange
    refine ⟨UInt8.ofNat rank.toNat, Option.some.inj h, ?_⟩
    have hsmall : rank.toNat < 2 ^ 8 := by omega
    rw [UInt8.toNat_ofNat', Nat.mod_eq_of_lt hsmall, Int.toNat_of_nonneg hrange.1]
  · intro h
    obtain ⟨byte, rfl, rfl⟩ := h
    have hbyte : byte.toNat < 256 := byte.toNat_lt
    rw [if_pos (by omega), Int.toNat_natCast, UInt8.ofNat_toNat]

/-- A vocabulary of the 256 byte tokens, with byte fallback and no merges. -/
def byteVocabulary : TokenEncoder where
  mType := .BPE
  mEncoder := byteRank
  mDecoder := rankToken
  mByteFallback := true
  mUseMergePriorities := true
  mMergePriorities := fun _ => none
  reversed := rankToken_byteRank

/-- The piece `a` has one character and no token of its own: `encode` returns true
and appends nothing, although every byte has a token. -/
theorem not_losslessOn_letter : ¬ LosslessOn byteVocabulary PopHeap.scanning ['a'] := by
  intro h
  have hencode : byteVocabulary.encode PopHeap.scanning
      (['a'].flatMap String.utf8EncodeChar) = some (true, []) := by decide
  have hlost := h.1 [] hencode
  revert hlost
  decide

end TokenEncoder

end EdgeLLM.Ports.Encoding
