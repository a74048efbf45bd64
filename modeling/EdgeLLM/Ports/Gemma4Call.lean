import EdgeLLM.Ports.ToolValues
import Mathlib.Algebra.Order.Ring.Nat

/-!
# The Gemma 4 call grammar

A call is `call:NAME{key:value,...}` with strings between `<|"|>` tokens. The
parser scans it with a generator that steps over strings, splits fields at the
commas outside brackets, and parses each value in turn.

The generator is the list of what it yields, with whether it ends in the
`ValueError` for an unterminated string. `frames` is how many nested calls of
`_parse_gemma4_object` and `_parse_gemma4_value` the recursion limit leaves
room for.
-/

namespace EdgeLLM.Ports.ToolCalling

variable {O : Type}

namespace Gemma4

def delimiter : Text := "<|\"|>".toList

inductive Quote where
  | none
  | token
  | json
  deriving DecidableEq

/-- `_gemma4_unquoted_chars` from `index` on; `skip` characters are stepped
over before the next turn of the loop. -/
def unquotedFrom : Quote → Nat → Nat → Text → List (Nat × Char) × Bool
  | quote, _, _, [] => ([], quote ≠ .none)
  | quote, skip + 1, index, _ :: rest => unquotedFrom quote skip (index + 1) rest
  | .json, 0, index, ch :: rest =>
    if ch = '\\' then unquotedFrom .json 1 (index + 1) rest
    else if ch = '"' then unquotedFrom .none 0 (index + 1) rest
    else unquotedFrom .json 0 (index + 1) rest
  | .token, 0, index, ch :: rest =>
    if delimiter.isPrefixOf (ch :: rest) then
      unquotedFrom .none (delimiter.length - 1) (index + 1) rest
    else unquotedFrom .token 0 (index + 1) rest
  | .none, 0, index, ch :: rest =>
    if delimiter.isPrefixOf (ch :: rest) then
      unquotedFrom .token (delimiter.length - 1) (index + 1) rest
    else if ch = '"' then unquotedFrom .json 0 (index + 1) rest
    else
      let yields := unquotedFrom .none 0 (index + 1) rest
      ((index, ch) :: yields.1, yields.2)

def unquoted (text : Text) : List (Nat × Char) × Bool := unquotedFrom .none 0 0 text

/-- A turn of the loop of `_gemma4_object_end`; `return` is the error. -/
def endStep (depth : Int) (item : Nat × Char) : Except Nat Int :=
  if item.2 = '{' then .ok (depth + 1)
  else if item.2 = '}' then
    if depth - 1 = 0 then .error (item.1 + 1) else .ok (depth - 1)
  else .ok depth

/-- `_gemma4_object_end` -/
def objectEnd (text : Text) (start : Nat) : Option Nat :=
  if (text.drop start).head? = some '{' then
    match (unquoted (text.drop start)).1.foldlM endStep 0 with
    | .error stop => some (start + stop)
    | .ok _ => none
  else none

/-- `{"]": "[", "}": "{"}[char]` -/
def openerOf (ch : Char) : Char := if ch = ']' then '[' else '{'

structure Fields where
  fields : List Text
  start : Nat
  stack : List Char

/-- A turn of the loop of `_split_gemma4_fields`. -/
def splitStep (text : Text) (s : Fields) (item : Nat × Char) : Except Raised Fields :=
  if item.2 = '[' ∨ item.2 = '{' then .ok { s with stack := item.2 :: s.stack }
  else if item.2 = ']' ∨ item.2 = '}' then
    match s.stack with
    | top :: rest =>
      if top = openerOf item.2 then .ok { s with stack := rest } else .error .valueError
    | [] => .error .valueError
  else if item.2 = ',' ∧ s.stack = [] then
    .ok { s with
      fields := s.fields ++ [strip ((text.drop s.start).take (item.1 - s.start))]
      start := item.1 + 1 }
  else .ok s

/-- `_split_gemma4_fields` -/
def splitFields (text : Text) : Except Raised (List Text) :=
  match (unquoted text).1.foldlM (splitStep text) { fields := [], start := 0, stack := [] } with
  | .error e => .error e
  | .ok s =>
    if (unquoted text).2 then .error .valueError
    else if s.stack ≠ [] then .error .valueError
    else
      let fields := s.fields ++ [strip (text.drop s.start)]
      if fields.contains [] then .error .valueError else .ok fields

/-- `[A-Za-z_]` -/
def isIdentifierStart (ch : Char) : Bool := ch.isAlpha ∨ ch = '_'

/-- `[A-Za-z0-9_]` -/
def isIdentifierRest (ch : Char) : Bool := ch.isAlphanum ∨ ch = '_'

/-- `re.fullmatch(r"[A-Za-z_][A-Za-z0-9_]*", key)` -/
def isIdentifier : Text → Bool
  | [] => false
  | ch :: rest => isIdentifierStart ch ∧ rest.all isIdentifierRest

/-- `_split_gemma4_key_value` -/
def splitKeyValue (py : Python O) (field : Text) : Except Raised (Text × Text) :=
  match (unquoted field).1.find? (·.2 = ':') with
  | none => .error .valueError
  | some item =>
    let key := strip (field.take item.1)
    let value := strip (field.drop (item.1 + 1))
    if key.head? = some '"' then
      match py.loadsNested key with
      | .error e => .error e
      | .ok (.str key) => if value = [] then .error .valueError else .ok (key, value)
      | .ok _ => .error .valueError
    else if isIdentifier key ∧ value ≠ [] then .ok (key, value)
    else .error .valueError

/-- The groups of `(-?(?:0|[1-9]\d*))(\.\d+)?([eE][-+]?\d+)?` at the start of a
text: the sign, the digits, the fraction, the exponent, and the rest. -/
def matchNumber (text : Text) : Option (Bool × Text × Text × Text × Text) :=
  let negative := text.head? = some '-'
  let body := if negative then text.drop 1 else text
  let digits := if body.head? = some '0' then ['0'] else body.takeWhile isDigit
  if digits = [] then none
  else
    let afterDigits := body.drop digits.length
    let fraction :=
      if afterDigits.head? = some '.' then
        let decimals := (afterDigits.drop 1).takeWhile isDigit
        if decimals = [] then [] else '.' :: decimals
      else []
    let afterFraction := afterDigits.drop fraction.length
    let exponent :=
      match afterFraction with
      | e :: rest =>
        if e = 'e' ∨ e = 'E' then
          let sign := if rest.head? = some '-' ∨ rest.head? = some '+' then rest.take 1 else []
          let power := (rest.drop sign.length).takeWhile isDigit
          if power = [] then [] else e :: (sign ++ power)
        else []
      | [] => []
    some (negative, digits, fraction, exponent, afterFraction.drop exponent.length)

def finiteFloat (py : Python O) (text : Text) : Except Raised (Value O) :=
  if py.isFinite (py.float text) then .ok (.other (py.float text)) else .error .valueError

/-- The scalar a JSON text opens with, and the rest. -/
def scanScalar (py : Python O) (text : Text) : Except Raised (Value O × Text) :=
  if "null".toList.isPrefixOf text then .ok (.none, text.drop 4)
  else if "true".toList.isPrefixOf text then .ok (.bool true, text.drop 4)
  else if "false".toList.isPrefixOf text then .ok (.bool false, text.drop 5)
  else
    match matchNumber text with
    | some (negative, digits, fraction, exponent, rest) =>
      if fraction = [] ∧ exponent = [] then
        (py.int negative digits).map fun n => (.int n, rest)
      else
        (finiteFloat py ((if negative then ['-'] else []) ++ digits ++ fraction ++ exponent)).map
          fun v => (v, rest)
    | none =>
      -- `parse_constant` rejects the three names
      if "NaN".toList.isPrefixOf text ∨ "Infinity".toList.isPrefixOf text ∨
          "-Infinity".toList.isPrefixOf text then .error .valueError
      else .error .jsonDecodeError

/-- `json.loads(text, parse_constant=_reject_non_finite, parse_float=_finite_float)` -/
def loads (py : Python O) (text : Text) : Except Raised (Value O) :=
  let body := text.dropWhile (· ∈ jsonWs)
  match body with
  | [] => .error .jsonDecodeError
  | ch :: _ =>
    if ch = '"' ∨ ch = '{' ∨ ch = '[' then py.loadsNested body
    else
      match scanScalar py body with
      | .error e => .error e
      | .ok (v, rest) =>
        if rest.dropWhile (· ∈ jsonWs) = [] then .ok v else .error .jsonDecodeError

/-- The end of `_parse_gemma4_value`: a JSON scalar, or a bare text where the
declared type is `string`. -/
def scalarOrBare (py : Python O) (value : Text) (expected : Option Text) :
    Except Raised (Value O) :=
  match loads py value with
  | .error .jsonDecodeError =>
    if expected = some "string".toList ∧ value.all (fun ch => ch ∉ "\"'{}[]:".toList) ∧
        ¬ delimiter <:+: value then .ok (.str value)
    else .error .valueError
  | result => result

def wrapped (opening closing : Char) (text : Text) : Bool :=
  text.head? = some opening ∧ text.getLast? = some closing

mutual

/-- `_parse_gemma4_object` -/
def parseObject (py : Python O) :
    Nat → Text → List (Text × Text) → Except Raised (List (Text × Value O))
  | 0, _, _ => .error .recursionError
  | frames + 1, text, types =>
    let body := strip text
    if wrapped '{' '}' body then
      let body := strip (body.drop 1).dropLast
      if body = [] then .ok []
      else
        match splitFields body with
        | .error e => .error e
        | .ok items =>
          items.foldlM (fun result item =>
            match splitKeyValue py item with
            | .error e => .error e
            | .ok (key, value) =>
              if result.any (·.1 = key) then .error .valueError
              else
                match parseValue py frames value (types.lookup key) with
                | .error e => .error e
                | .ok v => .ok (result ++ [(key, v)])) []
    else .error .valueError

/-- `_parse_gemma4_value` -/
def parseValue (py : Python O) : Nat → Text → Option Text → Except Raised (Value O)
  | 0, _, _ => .error .recursionError
  | frames + 1, text, expected =>
    let value := strip text
    if delimiter.isPrefixOf value ∧ delimiter.isSuffixOf value then
      let inner := (value.drop delimiter.length).take (value.length - 2 * delimiter.length)
      if value.length < 2 * delimiter.length ∨ delimiter <:+: inner then .error .valueError
      else .ok (.str inner)
    else if value.head? = some '{' then (parseObject py frames value []).map .dict
    else if wrapped '[' ']' value then
      let body := strip (value.drop 1).dropLast
      if body = [] then .ok (.list [])
      else
        match splitFields body with
        | .error e => .error e
        | .ok items => (items.mapM fun item => parseValue py frames item none).map .list
    else if value = "true".toList then .ok (.bool true)
    else if value = "false".toList then .ok (.bool false)
    else if value = "null".toList then .ok .none
    else scalarOrBare py value expected

end

/-- `[A-Za-z0-9_-]` -/
def isNameChar (ch : Char) : Bool := ch.isAlphanum ∨ ch = '_' ∨ ch = '-'

def barePrefix : Text := "call:".toList

/-- The groups of `call:(?P<name>[A-Za-z0-9_-]+)(?P<arguments>\{.*\})` on a
whole text. -/
def matchCall (text : Text) : Option (Text × Text) :=
  if barePrefix.isPrefixOf text then
    let body := text.drop barePrefix.length
    let name := body.takeWhile isNameChar
    let arguments := body.drop name.length
    if name ≠ [] ∧ wrapped '{' '}' arguments then some (name, arguments) else none
  else none

/-- `_parse_gemma4_call`; `callId` is what `_new_call_id` returns. -/
def parseCall (py : Python O) (frames : Nat) (config : ToolConfig O) (callId text : Text) :
    Except Raised ToolCall :=
  match matchCall (strip text) with
  | none => .error (.toolProtocolError .malformed)
  | some (name, arguments) =>
    if toolNameAllowed name config then
      match parseObject py frames arguments (paramTypesFor name config) with
      | .error e =>
        if e.isValueError ∨ e = .recursionError then .error (.toolProtocolError .malformed)
        else .error e
      | .ok fields =>
        (argumentsToJson py (.dict fields)).map fun text =>
          { id := callId, name := name, arguments := text }
    else .error (.toolProtocolError .unauthorized)

/-- `match.start("arguments")` of `^\s*call:[A-Za-z0-9_-]+(?P<arguments>\{)`. -/
def matchCallPrefix (text : Text) : Option Nat :=
  let head := lstrip text
  if barePrefix.isPrefixOf head then
    let body := head.drop barePrefix.length
    let name := body.takeWhile isNameChar
    if name ≠ [] ∧ (body.drop name.length).head? = some '{' then
      some (text.length - head.length + barePrefix.length + name.length)
    else none
  else none

/-- `_parse_gemma4_call_prefix` -/
def parseCallPrefix (py : Python O) (frames : Nat) (config : ToolConfig O) (callId text : Text) :
    Except Raised (Option ToolCall) :=
  match matchCallPrefix text with
  | none => .ok none
  | some start =>
    match objectEnd text start with
    | none => .ok none
    | some stop => (parseCall py frames config callId (text.take stop)).map some

end Gemma4

end EdgeLLM.Ports.ToolCalling
