import EdgeLLM.Ports.ReasoningParser
import EdgeLLM.Verified.TrailingRun

/-!
# Terminal tokens at the end of a stream

`TerminalTokenStripper` takes the trailing run of terminal tokens off a text
that comes in chunks.  It gives out what no more text can turn into such a run,
which for tokens without borders is the same at every chunking.
-/

namespace EdgeLLM.Ports.TerminalTokens

open Reasoning Verified.Markers Verified.TrailingRun

/-- The `while` loop of `_trailing_tokens_len`, which moves `end` to the start
of the run. -/
def trailingStart (text : Text) (tokens : List Text) (stop : Nat) : Nat :=
  match _h : tokens.find? fun token => !token.isEmpty && token.isSuffixOf (text.take stop) with
  | some token => trailingStart text tokens (stop - token.length)
  | none => stop
termination_by stop
decreasing_by
  obtain ⟨-, hne, hends⟩ := lastToken_mem _h
  have hpos := List.length_pos_iff.2 hne
  have hle := hends.length_le
  rw [List.length_take] at hle
  omega

def trailingTokensLen (text : Text) (tokens : List Text) : Nat :=
  text.length - trailingStart text tokens text.length

def stripTerminalTokens (text : Text) (tokens : List Text) : Text :=
  text.take (text.length - trailingTokensLen text tokens)

theorem trailingStart_le (text : Text) (tokens : List Text) (stop : Nat) :
    trailingStart text tokens stop ≤ stop := by
  induction stop using trailingStart.induct text tokens with
  | case1 stop token h ih =>
    rw [trailingStart, h]
    exact Nat.le_trans ih (Nat.sub_le _ _)
  | case2 stop h =>
    rw [trailingStart, h]

/-- The loop stops where the run starts. -/
theorem take_trailingStart (text : Text) (tokens : List Text) (stop : Nat) : stop ≤ text.length →
      text.take (trailingStart text tokens stop) = dropTrailing tokens (text.take stop) := by
  induction stop using trailingStart.induct text tokens with
  | case1 stop token h ih =>
    intro hstop
    have hlast : lastToken tokens (text.take stop) = some token := h
    have hlen : (text.take stop).length = stop := List.length_take_of_le hstop
    rw [trailingStart, h, dropTrailing, hlast]
    dsimp only
    rw [ih (by omega), hlen, List.take_take, Nat.min_eq_left (Nat.sub_le _ _)]
  | case2 stop h =>
    intro _
    rw [trailingStart, h, dropTrailing_of_clean (lastToken_eq_none.1 h)]

theorem stripTerminalTokens_eq (text : Text) (tokens : List Text) :
    stripTerminalTokens text tokens = dropTrailing tokens text := by
  have hle := trailingStart_le text tokens text.length
  have htake := take_trailingStart text tokens text.length (Nat.le_refl _)
  rw [List.take_length] at htake
  rw [stripTerminalTokens, trailingTokensLen, Nat.sub_sub_self hle, htake]

theorem take_trailingTokensLen (text : Text) (tokens : List Text) :
    text.take (text.length - trailingTokensLen text tokens) = dropTrailing tokens text :=
  stripTerminalTokens_eq text tokens

structure TerminalTokenStripper where
  tokens : List Text
  held : Text

namespace TerminalTokenStripper

/-- `__init__` -/
def new (tokens : List Text) : TerminalTokenStripper where
  tokens := tokens
  held := []

def feed (s : TerminalTokenStripper) (text : Text) : Text × TerminalTokenStripper :=
  if s.tokens = [] then (text, s)
  else
    let buffer := s.held ++ text
    let partialLen := partialTokenLen buffer s.tokens
    let hold := partialLen +
      trailingTokensLen (buffer.take (buffer.length - partialLen)) s.tokens
    (buffer.take (buffer.length - hold),
      { s with held := if hold ≠ 0 then buffer.drop (buffer.length - hold) else [] })

def flush (s : TerminalTokenStripper) (stopped : Bool) : Text × TerminalTokenStripper :=
  (if stopped then stripTerminalTokens s.held s.tokens else s.held, { s with held := [] })

/-- The deltas of the chunks, in their order. -/
def feedAll : TerminalTokenStripper → List Text → Text × TerminalTokenStripper
  | s, [] => ([], s)
  | s, chunk :: chunks =>
    let (delta, s') := s.feed chunk
    let (deltas, last) := s'.feedAll chunks
    (delta ++ deltas, last)

/-- All that is given out for a text that comes in chunks. -/
def stream (tokens : List Text) (chunks : List Text) (stopped : Bool) : Text :=
  let (deltas, last) := (new tokens).feedAll chunks
  deltas ++ (last.flush stopped).1

/-- What is held is what a stream keeps of the text so far. -/
def Keeps (s : TerminalTokenStripper) (text : Text) : Prop := s.held = kept s.tokens text

theorem kept_nil (text : Text) : kept [] text = [] := by
  have hsafe : safe [] text = text := by
    rw [safe, dropTrailing_of_clean (by intro t ht; cases ht)]
    exact List.take_length
  rw [kept, hsafe, List.drop_length]

theorem keeps_new (tokens : List Text) : (new tokens).Keeps [] := by
  have hjoin := safe_append_kept tokens ([] : Text)
  exact (List.append_eq_nil_iff.1 hjoin).2.symm

/-- The text fed is split into what is given out and what is held. -/
theorem feed_eq (s : TerminalTokenStripper) (text : Text) (hheld : s.tokens = [] → s.held = []) :
    s.feed text = (safe s.tokens (s.held ++ text),
      { s with held := kept s.tokens (s.held ++ text) }) := by
  unfold feed
  by_cases hnone : s.tokens = []
  · have hsafe := safe_append_kept [] text
    rw [kept_nil, List.append_nil] at hsafe
    rw [if_pos hnone, hheld hnone, List.nil_append, hnone, hsafe, kept_nil, ← hheld hnone, ← hnone]
  · rw [if_neg hnone]
    dsimp only
    generalize s.held ++ text = buffer
    have hreleased : buffer.take (buffer.length - partialTokenLen buffer s.tokens) =
        released buffer s.tokens := rfl
    rw [hreleased]
    have hprefix : safe s.tokens buffer <+: buffer :=
      (dropTrailing_begins _ _).trans (List.take_prefix _ _)
    have hcut : buffer.length - (partialTokenLen buffer s.tokens +
        trailingTokensLen (released buffer s.tokens) s.tokens) = (safe s.tokens buffer).length := by
      have hlen : (released buffer s.tokens).length =
          buffer.length - partialTokenLen buffer s.tokens := List.length_take_of_le (Nat.sub_le _ _)
      rw [safe, ← take_trailingTokensLen, List.length_take_of_le (Nat.sub_le _ _), hlen, Nat.sub_sub]
    rw [hcut, ← List.prefix_iff_eq_take.1 hprefix]
    by_cases hzero : partialTokenLen buffer s.tokens +
        trailingTokensLen (released buffer s.tokens) s.tokens = 0
    · have hall : kept s.tokens buffer = [] := by
        rw [kept, ← hcut, hzero]
        exact List.drop_length
      rw [if_neg (not_not.2 hzero), hall]
    · rw [if_pos hzero]
      rfl

theorem Keeps.held_nil {s : TerminalTokenStripper} {text : Text} (h : s.Keeps text)
    (hnone : s.tokens = []) : s.held = [] := by
  rw [h, hnone, kept_nil]

/-- One chunk behind the text so far. -/
theorem Keeps.feed {s : TerminalTokenStripper} {text : Text} (hfree : Unbordered s.tokens)
    (h : s.Keeps text) (chunk : Text) :
    safe s.tokens (text ++ chunk) = safe s.tokens text ++ (s.feed chunk).1 ∧
      (s.feed chunk).2.tokens = s.tokens ∧ (s.feed chunk).2.Keeps (text ++ chunk) := by
  rw [feed_eq s chunk h.held_nil, h]
  exact ⟨safe_append hfree text chunk, rfl, (kept_append hfree text chunk).symm⟩

theorem Keeps.feedAll (chunks : List Text) :
    ∀ {s : TerminalTokenStripper} {text : Text}, Unbordered s.tokens → s.Keeps text →
      safe s.tokens (text ++ chunks.flatten) = safe s.tokens text ++ (s.feedAll chunks).1 ∧
        (s.feedAll chunks).2.tokens = s.tokens ∧
        (s.feedAll chunks).2.Keeps (text ++ chunks.flatten) := by
  induction chunks with
  | nil =>
    intro s text _ h
    rw [List.flatten_nil, List.append_nil]
    exact ⟨(List.append_nil _).symm, rfl, h⟩
  | cons chunk chunks ih =>
    intro s text hfree h
    obtain ⟨hsafe, htokens, hkeeps⟩ := h.feed hfree chunk
    obtain ⟨hsafe', htokens', hkeeps'⟩ := ih (by rwa [htokens]) hkeeps
    rw [htokens] at hsafe' htokens'
    rw [List.flatten_cons, ← List.append_assoc]
    refine ⟨?_, htokens', hkeeps'⟩
    rw [hsafe', hsafe, List.append_assoc]
    rfl

end TerminalTokenStripper

/-- A text that comes in chunks loses what it loses at once: the trailing run of
terminal tokens where the generation stopped, nothing where it did not. -/
theorem stream_eq (tokens : List Text) (hne : ∀ t ∈ tokens, t ≠ []) (hfree : Unbordered tokens)
    (chunks : List Text) :
    TerminalTokenStripper.stream tokens chunks true = stripTerminalTokens chunks.flatten tokens ∧
      TerminalTokenStripper.stream tokens chunks false = chunks.flatten ∧
      (∃ run : List Text, (∀ t ∈ run, t ∈ tokens) ∧
        chunks.flatten = stripTerminalTokens chunks.flatten tokens ++ run.flatten) ∧
      ∀ t ∈ tokens, ¬ t <:+ stripTerminalTokens chunks.flatten tokens := by
  obtain ⟨hsafe, htokens, hkeeps⟩ :=
    (TerminalTokenStripper.keeps_new tokens).feedAll chunks hfree
  obtain ⟨hclean, hrun⟩ := dropTrailing_spec tokens chunks.flatten
  have hjoin := safe_append_kept tokens chunks.flatten
  have hempty : safe tokens ([] : Text) = [] :=
    (List.append_eq_nil_iff.1 (safe_append_kept tokens [])).1
  have hdeltas : ((TerminalTokenStripper.new tokens).feedAll chunks).1 =
      safe tokens chunks.flatten := by
    have hall : safe tokens ([] ++ chunks.flatten) =
        safe tokens [] ++ ((TerminalTokenStripper.new tokens).feedAll chunks).1 := hsafe
    rw [hempty] at hall
    exact hall.symm
  have hheld : ((TerminalTokenStripper.new tokens).feedAll chunks).2.held =
      kept tokens chunks.flatten := by
    rw [hkeeps, htokens]
    rfl
  rw [stripTerminalTokens_eq]
  refine ⟨?_, ?_, hrun, ?_⟩
  · show _ ++ stripTerminalTokens _ _ = _
    rw [hdeltas, hheld, htokens, stripTerminalTokens_eq]
    exact (dropTrailing_kept hfree chunks.flatten).symm
  · show _ ++ TerminalTokenStripper.held _ = _
    rw [hdeltas, hheld, hjoin]
  · intro t ht
    exact hclean t ht (hne t ht)

/-- A token that comes in two chunks, behind one that does not end the text. -/
theorem stream_eq_eos :
    TerminalTokenStripper.stream ["<eos>".toList, "<|im_end|>".toList]
        ["a<eos>b<e".toList, "os><|im".toList, "_end|>".toList] true =
      stripTerminalTokens "a<eos>b<eos><|im_end|>".toList
        ["<eos>".toList, "<|im_end|>".toList] :=
  (stream_eq ["<eos>".toList, "<|im_end|>".toList] (by decide) (by decide)
    ["a<eos>b<e".toList, "os><|im".toList, "_end|>".toList]).1

end EdgeLLM.Ports.TerminalTokens
