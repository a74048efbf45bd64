import EdgeLLM.Verified.Residual

/-!
# The argument scanner

`_JsonScanner` reads the arguments of a streamed tool call one character at a
time and says where the container ends. Its state is a stack of open
containers and the name of what it expects next, with the sub-states of a
string, a number and a literal beside it.
-/

namespace EdgeLLM.Ports.ToolCalling

open Verified.Residual

/-- An open `{` or `[`. -/
inductive Bracket where
  | brace
  | bracket
  deriving DecidableEq

/-- `_state` -/
inductive ScanState where
  | value
  | arrayFirst
  | keyFirst
  | keyRequired
  | colon
  | afterValue
  | inString
  | inNumber
  | inLiteral

/-- `_num_state`, `unset` for the empty string it starts as. -/
inductive NumState where
  | unset
  | intStart
  | intZero
  | int
  | fracStart
  | frac
  | expStart
  | expSign
  | exp
  deriving DecidableEq

/-- `_JsonScanner`; the head of `stack` is the container opened last. -/
structure JsonScanner where
  stack : List Bracket
  state : ScanState
  stringIsKey : Bool
  escape : Bool
  hexLeft : Nat
  literal : List Char
  literalPos : Nat
  numState : NumState
  confirmed : Bool
  done : Bool

def jsonWs : List Char := " \t\n\r".toList

def escapable : List Char := "\"\\/bfnrtu".toList

def literals (ch : Char) : Option (List Char) :=
  if ch = 't' then some "true".toList
  else if ch = 'f' then some "false".toList
  else if ch = 'n' then some "null".toList
  else none

def isDigit (ch : Char) : Bool := ch ∈ "0123456789".toList

namespace JsonScanner

def new : JsonScanner where
  stack := []
  state := .value
  stringIsKey := false
  escape := false
  hexLeft := 0
  literal := []
  literalPos := 0
  numState := .unset
  confirmed := false
  done := false

def confirm (s : JsonScanner) : JsonScanner :=
  if s.confirmed = false ∧ s.stack.length = 1 then { s with confirmed := true } else s

def close (s : JsonScanner) (expected : Bracket) : JsonScanner × Verdict :=
  match s.stack with
  | [] => (s, .error)
  | top :: below =>
    if top ≠ expected then (s, .error)
    else if below = [] then
      -- `{}` and `[]` close without any value start
      ({ s with stack := below, done := true, confirmed := true }, .done)
    else ({ s with stack := below, state := .afterValue }, .ok)

def startValue (s : JsonScanner) (ch : Char) : JsonScanner × Verdict :=
  if ch = '{' then
    ({ s.confirm with stack := .brace :: s.stack, state := .keyFirst }, .ok)
  else if ch = '[' then
    ({ s.confirm with stack := .bracket :: s.stack, state := .arrayFirst }, .ok)
  else if s.stack = [] then (s, .error)
  else if ch = '"' then
    ({ s.confirm with state := .inString, stringIsKey := false }, .ok)
  else if ch ∈ "-0123456789".toList then
    ({ s.confirm with
        state := .inNumber
        numState := if ch = '-' then .intStart else if ch = '0' then .intZero else .int }, .ok)
  else
    match literals ch with
    | some literal =>
      ({ s.confirm with state := .inLiteral, literal := literal, literalPos := 1 }, .ok)
    | none => (s, .error)

def pushStructural (s : JsonScanner) (ch : Char) : JsonScanner × Verdict :=
  if ch ∈ jsonWs then (s, .ok)
  else
    match s.state with
    | .value => s.startValue ch
    | .arrayFirst => if ch = ']' then s.close .bracket else s.startValue ch
    | .keyFirst =>
      if ch = '"' then ({ s with state := .inString, stringIsKey := true }, .ok)
      else if ch = '}' then s.close .brace
      else (s, .error)
    | .keyRequired =>
      if ch = '"' then ({ s with state := .inString, stringIsKey := true }, .ok)
      else (s, .error)
    | .colon => if ch = ':' then ({ s with state := .value }, .ok) else (s, .error)
    | .afterValue =>
      if ch = ',' then
        -- the stack is never empty here (`Shaped`)
        ({ s with state := if s.stack.head? = some .brace then .keyRequired else .value }, .ok)
      else if ch = '}' then s.close .brace
      else if ch = ']' then s.close .bracket
      else (s, .error)
    | .inString | .inNumber | .inLiteral => (s, .error)

def pushString (s : JsonScanner) (ch : Char) : JsonScanner × Verdict :=
  if s.hexLeft ≠ 0 then
    if ch ∉ "0123456789abcdefABCDEF".toList then (s, .error)
    else ({ s with hexLeft := s.hexLeft - 1 }, .ok)
  else if s.escape then
    if ch ∉ escapable then (s, .error)
    else ({ s with escape := false, hexLeft := if ch = 'u' then 4 else s.hexLeft }, .ok)
  else if ch = '\\' then ({ s with escape := true }, .ok)
  else if ch = '"' then
    ({ s with state := if s.stringIsKey then .colon else .afterValue }, .ok)
  else if ch < ' ' then (s, .error)
  else (s, .ok)

def pushNumber (s : JsonScanner) (ch : Char) : JsonScanner × Verdict :=
  if ch ∈ jsonWs ∨ ch ∈ ",\x7d]".toList then
    if s.numState ∈ [.intZero, .int, .frac, .exp] then
      { s with state := .afterValue }.pushStructural ch
    else (s, .error)
  else
    match s.numState with
    | .intStart =>
      ({ s with numState := if ch = '0' then .intZero else .int },
        if isDigit ch then .ok else .error)
    | .intZero =>
      if ch = '.' then ({ s with numState := .fracStart }, .ok)
      else if ch ∈ "eE".toList then ({ s with numState := .expStart }, .ok)
      else (s, .error)
    | .int =>
      if ch = '.' then ({ s with numState := .fracStart }, .ok)
      else if ch ∈ "eE".toList then ({ s with numState := .expStart }, .ok)
      else if isDigit ch then (s, .ok)
      else (s, .error)
    | .fracStart =>
      if isDigit ch then ({ s with numState := .frac }, .ok) else (s, .error)
    | .frac =>
      if isDigit ch then ({ s with numState := .frac }, .ok)
      else if ch ∈ "eE".toList then ({ s with numState := .expStart }, .ok)
      else (s, .error)
    | .expStart =>
      if ch ∈ "+-".toList then ({ s with numState := .expSign }, .ok)
      else if isDigit ch then ({ s with numState := .exp }, .ok)
      else (s, .error)
    | .unset | .expSign | .exp =>
      if isDigit ch then ({ s with numState := .exp }, .ok) else (s, .error)

def pushLiteral (s : JsonScanner) (ch : Char) : JsonScanner × Verdict :=
  -- the position is never past the end here (`Shaped`)
  if s.literal[s.literalPos]? ≠ some ch then (s, .error)
  else
    let s := { s with literalPos := s.literalPos + 1 }
    (if s.literalPos = s.literal.length then { s with state := .afterValue } else s, .ok)

def push (s : JsonScanner) (ch : Char) : JsonScanner × Verdict :=
  if s.done then (s, .error)
  else
    match s.state with
    | .inString => s.pushString ch
    | .inNumber => s.pushNumber ch
    | .inLiteral => s.pushLiteral ch
    | _ => s.pushStructural ch

/-- The answers when every character is pushed, whatever the ones before were
answered. -/
def pushAll (s : JsonScanner) : List Char → List Verdict
  | [] => []
  | ch :: text => (s.push ch).2 :: (s.push ch).1.pushAll text

example : new.pushAll "\x7b\"a\" : [-1.5e+3, tru".toList = List.replicate 20 .ok := by decide

example : new.pushAll "[1,]".toList = [.ok, .ok, .ok, .error] := by decide

end JsonScanner

end EdgeLLM.Ports.ToolCalling
