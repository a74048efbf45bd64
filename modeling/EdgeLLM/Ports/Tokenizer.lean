import EdgeLLM.Ports.StreamChannel

/-!
# Detokenization

The decoding half of a loaded tokenizer: the whole-sequence `decode`, the
per-token `idToPiece`, and `emitDelta`, which streams the pieces of the tokens
that have arrived through the sanitizer.

Scans of a C++ loop that advance by the length of a match are spread over the
bytes, with a count of the bytes still to skip.
-/

namespace EdgeLLM.Ports.Generation

open Utf8

/-- `Tokenizer` after `load`, as far as decoding reads it.  The two tables are
the reversed vocabularies. -/
structure Tokenizer where
  mEosId : Token
  mAdditionalEosIds : List Token := []
  mDecoder : Token → Option Bytes
  mSpecialTokensDecoder : Token → Option Bytes
  mSkippableSpecialTokenIds : Token → Bool
  mDecoderReplacements : List (Bytes × Bytes) := []
  mMetaspaceStripLeading : Bool := false
  mByteFallbackDecode : Bool := false
  /-- An empty pattern would be found again at every position: `decode` would
  not return. -/
  patterns_ne_nil : ∀ r ∈ mDecoderReplacements, r.1 ≠ [] := by decide

namespace Tokenizer

/-- `isEosToken`: the primary token or an additional one. -/
def isEosToken (tok : Tokenizer) (tokenId : Token) : Bool :=
  tokenId == tok.mEosId || tok.mAdditionalEosIds.contains tokenId

def getEosId (tok : Tokenizer) : Token := tok.mEosId

def isSkippableSpecial (tok : Tokenizer) (token : Token) : Bool :=
  tok.mSkippableSpecialTokenIds token

/-- `hexCharToInt`; `none` is -1. -/
def hexCharToInt (c : UInt8) : Option UInt8 :=
  if 0x30 ≤ c ∧ c ≤ 0x39 then some (c - 0x30)
  else if 0x41 ≤ c ∧ c ≤ 0x46 then some (c - 0x41 + 10)
  else if 0x61 ≤ c ∧ c ≤ 0x66 then some (c - 0x61 + 10)
  else none

/-- The byte that a text starting with `<0xNN>` stands for. -/
def fallbackByte : Bytes → Option UInt8
  | 0x3C :: 0x30 :: 0x78 :: hi :: lo :: 0x3E :: _ =>
    match hexCharToInt hi, hexCharToInt lo with
    | some hiVal, some loVal => some ((hiVal <<< 4) ||| loVal)
    | _, _ => none
  | _ => none

/-- The byte-fallback pass of `decode` over the whole text. -/
def byteFallback : Nat → Bytes → Bytes
  | _, [] => []
  | skip + 1, _ :: rest => byteFallback skip rest
  | 0, c :: rest =>
    match fallbackByte (c :: rest) with
    | some b => b :: byteFallback 5 rest
    | none => c :: byteFallback 0 rest

/-- One decoder replacement over the whole text. -/
def replaceAll (pattern replacement : Bytes) : Nat → Bytes → Bytes
  | _, [] => []
  | skip + 1, _ :: rest => replaceAll pattern replacement skip rest
  | 0, c :: rest =>
    if pattern.isPrefixOf (c :: rest) then
      replacement ++ replaceAll pattern replacement (pattern.length - 1) rest
    else
      c :: replaceAll pattern replacement 0 rest

/-- The decoder replacements, in their order. -/
def applyReplacements (tok : Tokenizer) (text : Bytes) : Bytes :=
  tok.mDecoderReplacements.foldl (fun text r => replaceAll r.1 r.2 0 text) text

def getRankToken (tok : Tokenizer) (rank : Token) : Bytes :=
  match tok.mDecoder rank with
  | some piece => piece
  | none => (tok.mSpecialTokensDecoder rank).getD []

/-- `idToPiece`: the bytes of one token. -/
def idToPiece (tok : Tokenizer) (token : Token) (skipSpecialTokens : Bool) : Bytes :=
  if skipSpecialTokens && tok.isSkippableSpecial token then []
  else
    match tok.mSpecialTokensDecoder token with
    | some added => added
    | none =>
      let piece := tok.getRankToken token
      let piece :=
        if tok.mByteFallbackDecode && piece.length == 6 then
          match fallbackByte piece with
          | some b => [b]
          | none => piece
        else piece
      tok.applyReplacements piece

/-- `TokenEncoder::decode`; `none` is its failure on an unknown token. -/
def encoderDecode (tok : Tokenizer) (skipSpecialTokens : Bool) : List Token → Option Bytes
  | [] => some []
  | token :: rest =>
    if skipSpecialTokens && tok.isSkippableSpecial token then
      tok.encoderDecode skipSpecialTokens rest
    else
      match tok.mSpecialTokensDecoder token with
      | some added => (tok.encoderDecode skipSpecialTokens rest).map (added ++ ·)
      | none =>
        match tok.mDecoder token with
        | some piece => (tok.encoderDecode skipSpecialTokens rest).map (piece ++ ·)
        | none =>
          if skipSpecialTokens then tok.encoderDecode skipSpecialTokens rest else none

/-- The leading space that the Metaspace decoder strips. -/
def stripLeading (tok : Tokenizer) (raw : Bytes) : Bytes :=
  match raw with
  | 0x20 :: rest => if tok.mMetaspaceStripLeading then rest else raw
  | _ => raw

/-- `decode`: the text of a whole sequence. -/
def decode (tok : Tokenizer) (tokens : List Token) (skipSpecialTokens : Bool) : Bytes :=
  match tok.encoderDecode skipSpecialTokens tokens with
  | none => []
  | some raw =>
    let raw := if tok.mByteFallbackDecode then byteFallback 0 raw else raw
    sanitized (tok.stripLeading (tok.applyReplacements raw))

/-- The concatenated pieces of some tokens. -/
def pieces (tok : Tokenizer) (skipSpecial : Bool) (tokens : List Token) : Bytes :=
  tokens.flatMap fun token => tok.idToPiece token skipSpecial

@[simp] theorem pieces_nil (tok : Tokenizer) (skipSpecial : Bool) :
    tok.pieces skipSpecial [] = [] := rfl

theorem pieces_append (tok : Tokenizer) (skipSpecial : Bool) (xs ys : List Token) :
    tok.pieces skipSpecial (xs ++ ys) = tok.pieces skipSpecial xs ++ tok.pieces skipSpecial ys :=
  List.flatMap_append

/-- A small tokenizer: a token from 1 to 255 is its byte, and token 0 ends the
text. -/
def ofBytes : Tokenizer where
  mEosId := 0
  mDecoder := fun token => if 0 < token ∧ token < 256 then some [UInt8.ofNat token.toNat] else none
  mSpecialTokensDecoder := fun token => if token = 0 then some [0x2F] else none
  mSkippableSpecialTokenIds := fun token => token = 0

end Tokenizer

/-- `emitDelta`: the text of the tokens that have arrived, and the new state. -/
def emitDelta (s : SlotStreamState) (tok : Tokenizer) (allTokenIds : List Token)
    (skipSpecial : Bool) : Bytes × SlotStreamState :=
  if allTokenIds.length = s.sentTokenCount ∧ s.pendingBytes = [] then ([], s)
  else
    let raw := tok.pieces skipSpecial (allTokenIds.drop s.sentTokenCount)
    let out := sanitizeUtf8Streaming raw s.pendingBytes
    (out.1, { s with sentTokenCount := allTokenIds.length, pendingBytes := out.2 })

def emitDeltaFlush (s : SlotStreamState) : Bytes × SlotStreamState :=
  (sanitizeUtf8Flush s.pendingBytes, { s with pendingBytes := [] })

/-- The fast path of `emitDelta` does what the slow path would. -/
theorem emitDelta_eq (s : SlotStreamState) (tok : Tokenizer) (allTokenIds : List Token)
    (skipSpecial : Bool) :
    emitDelta s tok allTokenIds skipSpecial =
      ((sanitizeUtf8Streaming (tok.pieces skipSpecial (allTokenIds.drop s.sentTokenCount))
          s.pendingBytes).1,
        { s with
          sentTokenCount := allTokenIds.length
          pendingBytes := (sanitizeUtf8Streaming
            (tok.pieces skipSpecial (allTokenIds.drop s.sentTokenCount)) s.pendingBytes).2 }) := by
  rw [emitDelta]
  by_cases hidle : allTokenIds.length = s.sentTokenCount ∧ s.pendingBytes = []
  · have hdrop : allTokenIds.drop s.sentTokenCount = [] := by
      rw [← hidle.1, List.drop_length]
    rw [if_pos hidle, hdrop, Tokenizer.pieces_nil, hidle.2, sanitizeUtf8Streaming_nil, hidle.1]
    cases s
    simp_all
  · rw [if_neg hidle]

end EdgeLLM.Ports.Generation
