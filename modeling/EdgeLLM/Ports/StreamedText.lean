import EdgeLLM.Ports.Tokenizer
import EdgeLLM.Ports.Utf8Exact

/-!
# Streamed and decoded text

A response carries the text of `decode`, a stream the deltas of `emitDelta` and the flush
behind them.  For a tokenizer without decoder steps both are the sanitized pieces, unless
`decode` refuses an unknown token.
-/

namespace EdgeLLM.Ports.Generation

open Utf8 Verified.Utf8Text

namespace Tokenizer

variable {tok : Tokenizer} {skipSpecial : Bool}

/-- A byte-level tokenizer: its decoder only joins the pieces. -/
structure Plain (tok : Tokenizer) : Prop where
  replacements : tok.mDecoderReplacements = []
  metaspace : tok.mMetaspaceStripLeading = false
  byteFallback : tok.mByteFallbackDecode = false

/-- The token has a piece. -/
def known (tok : Tokenizer) (token : Token) : Bool :=
  (tok.mSpecialTokensDecoder token).isSome || (tok.mDecoder token).isSome

theorem Plain.encoderDecode_cons (h : tok.Plain) (token : Token) (rest : List Token) :
    tok.encoderDecode skipSpecial (token :: rest) = if skipSpecial || tok.known token then
        (tok.encoderDecode skipSpecial rest).map (tok.idToPiece token skipSpecial ++ ·)
      else none := by
  simp only [encoderDecode, idToPiece, known, getRankToken, applyReplacements, h.replacements,
    h.byteFallback, List.foldl_nil]
  by_cases hskip : (skipSpecial && tok.isSkippableSpecial token) = true
  · simp_all
  · cases skipSpecial <;> cases tok.mSpecialTokensDecoder token <;>
      cases tok.mDecoder token <;> simp_all

/-- Without skipping, an unknown token fails the decoding. -/
theorem Plain.encoderDecode_eq (h : tok.Plain) (tokens : List Token) :
    tok.encoderDecode skipSpecial tokens = if skipSpecial || tokens.all tok.known then
      some (tok.pieces skipSpecial tokens) else none := by
  induction tokens with
  | nil => simp [encoderDecode]
  | cons token rest ih =>
    rw [h.encoderDecode_cons, ih, List.all_cons]
    cases skipSpecial <;> cases tok.known token <;> cases rest.all tok.known <;> rfl

theorem Plain.decode_eq (h : tok.Plain) (tokens : List Token) :
    tok.decode tokens skipSpecial = if skipSpecial || tokens.all tok.known then
      sanitized (tok.pieces skipSpecial tokens) else [] := by
  have hstrip : ∀ raw, tok.stripLeading raw = raw := by
    intro raw
    unfold stripLeading
    split
    · rw [h.metaspace]
      rfl
    · rfl
  rw [decode, h.encoderDecode_eq, h.byteFallback]
  by_cases hknown : (skipSpecial || tokens.all tok.known) = true
  · rw [if_pos hknown, if_pos hknown]
    simp [applyReplacements, h.replacements, hstrip]
  · rw [if_neg hknown, if_neg hknown]

end Tokenizer

/-- What a stream puts out after `done`: the deltas of some iterations, and the flush. -/
def emitted (tok : Tokenizer) (skipSpecial : Bool) :
    List (List Token) → List Token → SlotStreamState → Bytes
  | [], _, s => (emitDeltaFlush s).1
  | arrived :: rest, done, s =>
    (emitDelta s tok (done ++ arrived) skipSpecial).1 ++ emitted tok skipSpecial rest
      (done ++ arrived) (emitDelta s tok (done ++ arrived) skipSpecial).2

variable {tok : Tokenizer} {skipSpecial : Bool}

theorem emitted_eq_streamed (iterations : List (List Token)) :
    ∀ (done : List Token) (s : SlotStreamState), s.sentTokenCount = done.length →
      emitted tok skipSpecial iterations done s =
        streamed (iterations.map (tok.pieces skipSpecial)) s.pendingBytes := by
  induction iterations with
  | nil => exact fun _ _ _ => rfl
  | cons arrived rest ih =>
    intro done s hsent
    have hdelta := emitDelta_eq s tok (done ++ arrived) skipSpecial
    rw [hsent, List.drop_left] at hdelta
    rw [emitted, ih, hdelta, List.map_cons, streamed]
    rw [hdelta]

theorem sanitized_eq_nil {raw : Bytes} : sanitized raw = [] ↔ raw = [] := by
  cases raw with
  | nil => exact iff_of_true rfl rfl
  | cons c rest =>
    refine iff_of_false ?_ (List.cons_ne_nil c rest)
    rw [sanitized, sanitizeUtf8Streaming, List.nil_append, scan]
    split_ifs <;> simp [sanitizeUtf8Flush, kFFFD]

/-- However a generation is cut into iterations, a stream carries what `decode` gives, unless a
token is unknown. -/
theorem emitted_eq_decode_iff (h : tok.Plain) (iterations : List (List Token))
    (prompt : List Token) (s : SlotStreamState) (hsent : s.sentTokenCount = prompt.length)
    (hpending : s.pendingBytes = []) :
    emitted tok skipSpecial iterations prompt s = tok.decode iterations.flatten skipSpecial ↔
      (skipSpecial || iterations.flatten.all tok.known) = true ∨
        tok.pieces skipSpecial iterations.flatten = [] := by
  have hpieces : (iterations.map (tok.pieces skipSpecial)).flatten =
      tok.pieces skipSpecial iterations.flatten := by
    clear hpending
    induction iterations with
    | nil => rfl
    | cons arrived rest ih =>
      rw [List.map_cons, List.flatten_cons, ih, List.flatten_cons, Tokenizer.pieces_append]
  rw [emitted_eq_streamed iterations prompt s hsent, hpending, streamed_sanitized, hpieces,
    h.decode_eq]
  split
  · rename_i hknown
    exact iff_of_true rfl (Or.inl hknown)
  · rename_i hunknown
    rw [or_iff_right hunknown]
    exact sanitized_eq_nil

/-- Two letters, one at a time, behind a prompt of one token. -/
theorem emitted_eq_decode_letters :
    emitted .ofBytes false [[0x68], [0x69]] [0x41] { sentTokenCount := 1 } =
        Tokenizer.ofBytes.decode [0x68, 0x69] false ↔
      (false || [0x68, 0x69].all Tokenizer.ofBytes.known) = true ∨
        Tokenizer.ofBytes.pieces false [0x68, 0x69] = [] :=
  emitted_eq_decode_iff ⟨rfl, rfl, rfl⟩ [[0x68], [0x69]] [0x41] _ rfl rfl

end EdgeLLM.Ports.Generation
