import EdgeLLM.Verified.Splitting

/-!
# Reasoning parsers

The three registered reasoning parsers, each as the split of a whole text
(`extract`) and as the splitter that is fed the text in chunks (`feed`, then
`flush`): the think tags, the Muse-Glimmer channels and the Gemma 4 thinking
block. A generator is the list of what it yields with the state it leaves.

The loops of `feed` run on the held text, which each turn but the last makes
shorter; they are given one turn more than it has characters.
-/

namespace EdgeLLM.Ports.Reasoning

open Verified Verified.Splitting

abbrev Text := List Char

/-- The `field` of a delta. -/
inductive Field where
  | reasoning
  | content
  deriving DecidableEq

structure ReasoningDelta where
  field : Field
  text : Text

/-- A yield under `if text`. -/
def delta (field : Field) (text : Text) : List ReasoningDelta :=
  if text = [] then [] else [{ field := field, text := text }]

/-- `text or None` -/
def orNone (text : Text) : Option Text := if text = [] then none else some text

/-- The deltas of one field, put together. -/
def joined (deltas : List ReasoningDelta) (field : Field) : Text :=
  (deltas.filter (·.field = field)).flatMap (·.text)

def removeSuffix (ending text : Text) : Text :=
  if ending.isSuffixOf text then text.take (text.length - ending.length) else text

/-- `candidate.partition(end_token)` where the end token may be missing. -/
def splitReasoning (endToken : Text) (candidate : Text) : Option Text × Option Text :=
  match partition endToken candidate with
  | none => (orNone candidate, none)
  | some (reasoning, content) => (orNone reasoning, orNone content)

structure ReasoningParser where
  startToken : Text
  endToken : Text

/-- The registered parser of this class. -/
def thinking : ReasoningParser where
  startToken := "<think>".toList
  endToken := "</think>".toList

def ReasoningParser.extract (p : ReasoningParser) (text : Text) : Option Text × Option Text :=
  match partition p.startToken text with
  | some (_, afterStart) => splitReasoning p.endToken afterStart
  | none => splitReasoning p.endToken text

structure StreamingReasoningParser where
  startToken : Text
  endToken : Text
  reasoning : Bool
  allowImplicit : Bool
  atStart : Bool
  buffer : Text

def ReasoningParser.stream (p : ReasoningParser) (allowImplicit : Bool) :
    StreamingReasoningParser where
  startToken := p.startToken
  endToken := p.endToken
  reasoning := allowImplicit
  allowImplicit := allowImplicit
  atStart := true
  buffer := []

/-- `"reasoning" if self._reasoning else "content"` -/
def fieldOf (reasoning : Bool) : Field := if reasoning then .reasoning else .content

/-- The marker that ends the current span. -/
def spanMarker (startToken endToken : Text) (reasoning : Bool) : Text :=
  if reasoning then endToken else startToken

namespace StreamingReasoningParser

/-- The `while` loop of `feed`. -/
def drain (startToken endToken : Text) :
    Nat → Bool → Text → List ReasoningDelta × Bool × Text
  | 0, reasoning, buffer => ([], reasoning, buffer)
  | fuel + 1, reasoning, buffer =>
    if buffer = [] then ([], reasoning, buffer)
    else
      match partition (spanMarker startToken endToken reasoning) buffer with
      | some (found, behind) =>
        let rest := drain startToken endToken fuel (!reasoning) behind
        (delta (fieldOf reasoning) found ++ rest.1, rest.2)
      | none =>
        let keep := (spanMarker startToken endToken reasoning).length - 1
        if buffer.length ≤ keep then ([], reasoning, buffer)
        else
          -- `self._buffer[:-keep] if keep else self._buffer`
          let rest := drain startToken endToken fuel reasoning
            (buffer.drop (buffer.length - keep))
          (delta (fieldOf reasoning) (buffer.take (buffer.length - keep)) ++ rest.1, rest.2)

/-- The start of a text decides whether it opens with a start token. -/
def begin (s : StreamingReasoningParser) : StreamingReasoningParser :=
  if s.atStart then
    if s.startToken.isPrefixOf s.buffer then
      { s with
        buffer := s.buffer.drop s.startToken.length
        reasoning := true
        atStart := false }
    else if s.startToken.length ≤ s.buffer.length then
      { s with reasoning := s.allowImplicit, atStart := false }
    else s
  else s

def feed (s : StreamingReasoningParser) (text : Text) :
    List ReasoningDelta × StreamingReasoningParser :=
  let s := { s with buffer := s.buffer ++ text }.begin
  let loop := drain s.startToken s.endToken (s.buffer.length + 1) s.reasoning s.buffer
  (loop.1, { s with reasoning := loop.2.1, buffer := loop.2.2 })

def flush (s : StreamingReasoningParser) : List ReasoningDelta :=
  if s.buffer = [] then []
  else if s.atStart then [{ field := fieldOf s.allowImplicit, text := s.buffer }]
  else [{ field := fieldOf s.reasoning, text := s.buffer }]

end StreamingReasoningParser

def museMessageStart : Text := "<|message|>".toList
def museReasoningStart : Text := " to=self<|message|>".toList
def museChannelStart : Text := "<|eom|><|start|>assistant to=".toList
def museEnd : Text := "<|eot|>".toList

namespace Muse

def dropRecipient (text : Text) : Text :=
  match partition museMessageStart text with
  | some (_, message) => removeSuffix museEnd message
  | none => removeSuffix museEnd text

/-- `extract` from the candidate on. -/
def splitChannel (candidate : Text) : Option Text × Option Text :=
  match partition museChannelStart candidate with
  | none => (orNone candidate, none)
  | some (reasoning, content) => (orNone reasoning, orNone (dropRecipient content))

def extract (text : Text) : Option Text × Option Text :=
  if museReasoningStart.isPrefixOf text then
    splitChannel (text.drop museReasoningStart.length)
  else
    match partition museReasoningStart text with
    | some (_, candidate) => splitChannel candidate
    | none => (none, orNone (dropRecipient text))

/-- `_state` of the stream. -/
inductive State where
  | header
  | reasoning
  | recipient
  | content

structure Stream where
  state : State
  buffer : Text

def stream : Stream where
  state := .header
  buffer := []

/-- The `while` loop of `feed`. -/
def drain : Nat → State → Text → List ReasoningDelta × Stream
  | 0, state, buffer => ([], ⟨state, buffer⟩)
  | fuel + 1, state, buffer =>
    if buffer = [] then ([], ⟨state, buffer⟩)
    else
      match state with
      | .header =>
        if buffer.isPrefixOf museReasoningStart then ([], ⟨.header, buffer⟩)
        else if museReasoningStart.isPrefixOf buffer then
          drain fuel .reasoning (buffer.drop museReasoningStart.length)
        else if " to=".toList.isPrefixOf buffer then
          match partition museMessageStart buffer with
          | none => ([], ⟨.header, buffer⟩)
          | some (_, message) => drain fuel .content message
        else drain fuel .content buffer
      | .reasoning =>
        match partition museChannelStart buffer with
        | some (found, behind) =>
          let rest := drain fuel .recipient behind
          (delta .reasoning found ++ rest.1, rest.2)
        | none =>
          let keep := museChannelStart.length - 1
          if buffer.length ≤ keep then ([], ⟨.reasoning, buffer⟩)
          else
            (delta .reasoning (buffer.take (buffer.length - keep)),
              ⟨.reasoning, buffer.drop (buffer.length - keep)⟩)
      | .recipient =>
        match partition museMessageStart buffer with
        | none => ([], ⟨.recipient, buffer⟩)
        | some (_, message) => drain fuel .content message
      | .content =>
        match partition museEnd buffer with
        | some (found, behind) =>
          let rest := drain fuel .content behind
          (delta .content found ++ rest.1, rest.2)
        | none =>
          let keep := museEnd.length - 1
          if buffer.length ≤ keep then ([], ⟨.content, buffer⟩)
          else
            (delta .content (buffer.take (buffer.length - keep)),
              ⟨.content, buffer.drop (buffer.length - keep)⟩)

namespace Stream

def feed (s : Stream) (text : Text) : List ReasoningDelta × Stream :=
  -- the header may hand the same text to the content
  drain ((s.buffer ++ text).length + 2) s.state (s.buffer ++ text)

def flush (s : Stream) : List ReasoningDelta :=
  if s.buffer = [] then []
  else
    match s.state with
    | .header | .recipient => delta .content (dropRecipient s.buffer)
    | .content => delta .content (removeSuffix museEnd s.buffer)
    | .reasoning => delta .reasoning s.buffer

end Stream

end Muse

def gemmaChannelStart : Text := "<|channel>".toList
def gemmaChannelEnd : Text := "<channel|>".toList
def gemmaThoughtHeader : Text := "thought".toList

/-- `partial_token_len`: the longest ending of the text that is a proper beginning of
one of the tokens. -/
def partialTokenLen (text : Text) (tokens : List Text) : Nat :=
  tokens.foldl (fun best token =>
    scanDown (fun size => (token.take size).isSuffixOf text)
      (min text.length (token.length - 1)) best) 0

namespace Gemma

/-- `_strip_gemma4_header` -/
def stripHeader (text : Text) : Text :=
  if text.isPrefixOf gemmaThoughtHeader then []
  else if gemmaThoughtHeader.isPrefixOf text then
    let body := text.drop gemmaThoughtHeader.length
    if ['\n'].isPrefixOf body then body.drop 1 else body
  else text

def extract (text : Text) (startsOpen : Option Bool) : Option Text × Option Text :=
  if gemmaChannelStart.isPrefixOf text then
    splitReasoning gemmaChannelEnd (stripHeader (text.drop gemmaChannelStart.length))
  else
    match startsOpen with
    | some true => splitReasoning gemmaChannelEnd text
    | some false => (none, orNone text)
    | none =>
      match find gemmaChannelEnd text, find gemmaChannelStart text with
      | none, _ => (none, orNone text)
      | some ending, some start =>
        if start < ending then (none, orNone text)
        else splitReasoning gemmaChannelEnd text
      | some _, none => splitReasoning gemmaChannelEnd text

/-- `_state` of the stream. -/
inductive State where
  | start
  | header
  | reasoning
  | content

structure Stream where
  startsOpen : Bool
  state : State
  buffer : Text

def stream (allowImplicit : Bool) : Stream where
  startsOpen := allowImplicit
  state := .start
  buffer := []

/-- The field a text without a channel start belongs to. -/
def openState (startsOpen : Bool) : State := if startsOpen then .reasoning else .content

/-- The `while` loop of `feed`. -/
def drain (startsOpen : Bool) : Nat → State → Text → List ReasoningDelta × State × Text
  | 0, state, buffer => ([], state, buffer)
  | fuel + 1, state, buffer =>
    if buffer = [] then ([], state, buffer)
    else
      match state with
      | .start =>
        if gemmaChannelStart.isPrefixOf buffer then
          drain startsOpen fuel .header (buffer.drop gemmaChannelStart.length)
        else if buffer.isPrefixOf gemmaChannelStart then ([], .start, buffer)
        else drain startsOpen fuel (openState startsOpen) buffer
      | .header =>
        if buffer.isPrefixOf (gemmaThoughtHeader ++ ['\n']) then ([], .header, buffer)
        else drain startsOpen fuel .reasoning (stripHeader buffer)
      | .reasoning =>
        match partition gemmaChannelEnd buffer with
        | some (found, behind) =>
          let rest := drain startsOpen fuel .content behind
          (delta .reasoning found ++ rest.1, rest.2)
        | none =>
          let keep := partialTokenLen buffer [gemmaChannelEnd]
          (delta .reasoning (buffer.take (buffer.length - keep)), .reasoning,
            buffer.drop (buffer.length - keep))
      | .content => ([{ field := .content, text := buffer }], .content, [])

namespace Stream

def feed (s : Stream) (text : Text) : List ReasoningDelta × Stream :=
  -- start, header and reasoning may each hand on the same text
  let loop := drain s.startsOpen ((s.buffer ++ text).length + 4) s.state (s.buffer ++ text)
  (loop.1, { s with state := loop.2.1, buffer := loop.2.2 })

def flush (s : Stream) : List ReasoningDelta :=
  match s.state with
  | .header => []
  | .start => delta (fieldOf s.startsOpen) s.buffer
  | .reasoning => delta .reasoning s.buffer
  | .content => delta .content s.buffer

end Stream

end Gemma

end EdgeLLM.Ports.Reasoning
