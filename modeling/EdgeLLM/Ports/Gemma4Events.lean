import EdgeLLM.Ports.Gemma4Call
import EdgeLLM.Verified.Markers

/-!
# The Gemma 4 event parser

`_Gemma4EventParser` is fed the output in chunks. It gives out content as soon
as that can no longer become a tool call, keeps a block to its closer and a
bare call to the end of the output, and removes the strip tokens in between.

The loop of `feed` runs on the held text. Each turn but the last makes it
shorter, or enters a block; the loop is given that many turns.
-/

namespace EdgeLLM.Ports.ToolCalling.Gemma4

open Verified Verified.Markers

variable {O : Type}

def blockOpener : Text := "<|tool_call>".toList

def blockCloser : Text := "<tool_call|>".toList

/-- What the parser is made with, and where its call ids come from: the `n`-th
call of `_new_call_id` returns `newCallId n`. -/
structure Session (O : Type) where
  python : Python O
  frames : Nat
  toolConfig : ToolConfig O
  stripTokens : List Text
  newCallId : Nat → Text

inductive Event where
  | content (text : Text)
  | toolCall (call : ToolCall)
  deriving DecidableEq

/-- `_Gemma4EventParser`; `made` counts the calls that got an id. -/
structure EventParser where
  buf : Text
  atStart : Bool
  inBlock : Bool
  bare : Bool
  done : Bool
  inProtocol : Bool
  error : Option Raised
  made : Nat

def EventParser.start : EventParser where
  buf := []
  atStart := true
  inBlock := false
  bare := false
  done := false
  inProtocol := false
  error := none
  made := 0

/-- `text.replace(token, "")`, where `skip` characters of an occurrence are left. -/
def removeFrom (token : Text) : Nat → Text → Text
  | _, [] => []
  | skip + 1, _ :: rest => removeFrom token skip rest
  | 0, ch :: rest =>
    if token ≠ [] ∧ token.isPrefixOf (ch :: rest) then removeFrom token (token.length - 1) rest
    else ch :: removeFrom token 0 rest

/-- `_strip_tokens` -/
def removeTokens (text : Text) (tokens : List Text) : Text :=
  tokens.foldl (fun text token => removeFrom token 0 text) text

def partialMarkerLen (text : Text) (markers : List Text) : Nat := heldLength text markers

/-- `text.find(word, start)` -/
def findFrom (word text : Text) (start : Nat) : Option Nat :=
  (find word (text.drop start)).map (start + ·)

namespace Session

def scanMarkers (x : Session O) : List Text := blockOpener :: x.stripTokens

def blockEvent (x : Session O) (made : Nat) (block : Text) : Except Raised ToolCall :=
  let block := removeTokens block x.stripTokens
  let body := (block.take (block.length - blockCloser.length)).drop blockOpener.length
  parseCall x.python x.frames x.toolConfig (x.newCallId made) body

/-- A turn of the loop of `feed`. -/
inductive Turn where
  /-- The loop goes on. -/
  | again (events : List Event) (s : EventParser)
  /-- `break` -/
  | wait (events : List Event) (s : EventParser)
  | raised (e : Raised) (s : EventParser)

/-- `_content_event` under the condition it is appended with. -/
def contentEvents (s : EventParser) (text : Text) : List Event :=
  if text ≠ [] ∧ s.inProtocol = false then [.content text] else []

/-- The turn from `_earliest_marker` on. -/
def scan (x : Session O) (s : EventParser) : Turn :=
  match firstMarker x.scanMarkers s.buf with
  | none =>
    let hold := partialMarkerLen s.buf x.scanMarkers
    let release := s.buf.take (s.buf.length - hold)
    .wait (contentEvents s release) { s with buf := s.buf.drop release.length }
  | some (idx, marker) =>
    let events := contentEvents s (s.buf.take idx)
    if marker = blockOpener then
      .again events { s with buf := s.buf.drop idx, inBlock := true, inProtocol := true }
    else .again events { s with buf := s.buf.drop (idx + marker.length) }

def turn (x : Session O) (s : EventParser) : Turn :=
  if s.inBlock then
    match findFrom blockCloser s.buf blockOpener.length with
    | none => .wait [] s
    | some idx =>
      let stop := idx + blockCloser.length
      match x.blockEvent s.made (s.buf.take stop) with
      | .error e => .raised e s
      | .ok call =>
        .again [.toolCall call]
          { s with buf := s.buf.drop stop, inBlock := false, made := s.made + 1 }
  else if s.atStart then
    let head := lstrip s.buf
    match x.stripTokens.find? (·.isPrefixOf head) with
    | some token =>
      .again [] { s with
        buf := s.buf.take (s.buf.length - head.length) ++ head.drop token.length }
    | none =>
      if x.stripTokens.any (head.isPrefixOf ·) then .wait [] s
      else if barePrefix.isPrefixOf head then
        .wait [] { s with bare := true, inProtocol := true }
      else if head.isPrefixOf barePrefix then .wait [] s
      else x.scan { s with atStart := false }
  else x.scan s

/-- The `while` loop of `feed`: the events, and the state it leaves or what it
raises in which state. -/
def loop (x : Session O) :
    Nat → EventParser → List Event × Except (Raised × EventParser) EventParser
  | 0, s => ([], .ok s)
  | turns + 1, s =>
    if s.buf = [] then ([], .ok s)
    else
      match x.turn s with
      | .wait events s => (events, .ok s)
      | .raised e s => ([], .error (e, s))
      | .again events s =>
        let rest := loop x turns s
        (events ++ rest.1, rest.2)

/-- The turns the loop can take. -/
def turnsLeft (s : EventParser) : Nat := 2 * s.buf.length + (if s.inBlock then 0 else 1)

def drain (x : Session O) (s : EventParser) :
    List Event × Except (Raised × EventParser) EventParser :=
  x.loop (turnsLeft s + 1) s

/-- `_fail`, where what was raised is a `ToolProtocolError`. -/
def failed (s : EventParser) (e : Raised) : EventParser :=
  match e with
  | .toolProtocolError _ => { s with error := some e, buf := [] }
  | _ => s

/-- `feed`; the events of a call that raises are lost. -/
def feed (x : Session O) (s : EventParser) (text : Text) :
    Except Raised (List Event) × EventParser :=
  match s.error with
  | some e => (.error e, s)
  | none =>
    if s.done then (.ok [], s)
    else
      let s := { s with buf := s.buf ++ text }
      if s.bare then (.ok [], s)
      else
        match x.drain s with
        | (events, .ok s) => (.ok events, s)
        | (_, .error (e, s)) => (.error e, failed s e)

/-- The end of `finish`, where no bare call was found. -/
def close (x : Session O) (s : EventParser) : Except Raised (List Event) × EventParser :=
  let buf := s.buf
  let s := { s with buf := [] }
  if s.done then (.ok [], s)
  else
    let text := removeTokens buf x.stripTokens
    let s := { s with done := true }
    if s.bare ∨ s.inBlock then
      let e := Raised.toolProtocolError .incomplete
      (.error e, failed s e)
    else if s.inProtocol then (.ok [], s)
    else (.ok (if text ≠ [] then [.content text] else []), s)

def finish (x : Session O) (s : EventParser) : Except Raised (List Event) × EventParser :=
  match s.error with
  | some e => (.error e, s)
  | none =>
    if s.bare ∧ ¬ s.done then
      -- `_bare_progress`
      match parseCallPrefix x.python x.frames x.toolConfig (x.newCallId s.made)
          (removeTokens s.buf x.stripTokens) with
      | .error e => (.error e, failed s e)
      | .ok none => x.close s
      | .ok (some call) =>
        (.ok [.toolCall call], { s with done := true, buf := [], made := s.made + 1 })
    else x.close s

/-- `feed` chunk by chunk, then `finish`, up to the first call that raises: the
events given out, and what was raised. -/
def run (x : Session O) : EventParser → List Text → List Event × Option Raised
  | s, [] =>
    match x.finish s with
    | (.ok events, _) => (events, none)
    | (.error e, _) => ([], some e)
  | s, chunk :: chunks =>
    match x.feed s chunk with
    | (.ok events, s) =>
      let rest := run x s chunks
      (events ++ rest.1, rest.2)
    | (.error e, _) => ([], some e)

end Session

/-- The content given out. -/
def contentOf (events : List Event) : Text :=
  events.flatMap fun
    | .content text => text
    | .toolCall _ => []

/-- The calls given out. -/
def callsOf (events : List Event) : List ToolCall :=
  events.filterMap fun
    | .content _ => none
    | .toolCall call => some call

end EdgeLLM.Ports.ToolCalling.Gemma4
