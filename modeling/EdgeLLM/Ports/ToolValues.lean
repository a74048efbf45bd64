import EdgeLLM.Ports.JsonScanner
import Mathlib.Data.List.DropRight

/-!
# Tool configurations, arguments and calls

The Python values that tool arguments are made of, their JSON text, and the
functions every tool parser rests on: which names may be called, the declared
types of a tool's parameters, and the text of a call's arguments.

What the parsers take from the interpreter is the structure `Python`: its
objects beyond the ones a JSON text names (floats among them), its limit on
the digits of an integer, and `json.loads`.
-/

namespace EdgeLLM.Ports.ToolCalling

abbrev Text := List Char

/-- `str.isspace`, which `str.strip` and the `\s` of a pattern agree with. -/
def isSpace (ch : Char) : Bool :=
  (0x09 ≤ ch.toNat ∧ ch.toNat ≤ 0x0D) ∨ (0x1C ≤ ch.toNat ∧ ch.toNat ≤ 0x20) ∨
    (0x2000 ≤ ch.toNat ∧ ch.toNat ≤ 0x200A) ∨
    ch.toNat ∈ [0x85, 0xA0, 0x1680, 0x2028, 0x2029, 0x202F, 0x205F, 0x3000]

def lstrip (text : Text) : Text := text.dropWhile isSpace

def rstrip (text : Text) : Text := text.rdropWhile isSpace

def strip (text : Text) : Text := rstrip (lstrip text)

/-- The values of tool arguments; a dictionary in the order of insertion. -/
inductive Value (O : Type) where
  | none
  | bool (b : Bool)
  | int (n : Int)
  | str (s : Text)
  | list (items : List (Value O))
  | dict (fields : List (Text × Value O))
  /-- A float, or an object that no JSON text names. -/
  | other (o : O)

/-- The reasons of a `ToolProtocolError` that parsing raises. -/
inductive Reason where
  | malformed
  | unauthorized
  | incomplete
  deriving DecidableEq

inductive Raised where
  | valueError
  | jsonDecodeError
  | recursionError
  | typeError
  | toolProtocolError (reason : Reason)
  deriving DecidableEq

/-- What `except ValueError` catches. -/
def Raised.isValueError : Raised → Bool
  | .valueError | .jsonDecodeError | .toolProtocolError _ => true
  | .recursionError | .typeError => false

structure Python (O : Type) where
  /-- `sys.get_int_max_str_digits()`, with 0 for no limit. -/
  maxStrDigits : Nat
  float : Text → O
  isFinite : O → Bool
  /-- `bool(o)` -/
  truth : O → Bool
  /-- `json.dumps(o)` -/
  dumpsOther : O → Except Raised Text
  /-- `json.loads(text)` -/
  loads : Text → Except Raised (Value O)
  /-- `json.loads(text, parse_constant=_reject_non_finite, parse_float=_finite_float)`
  of a text that opens a string, an array or an object. -/
  loadsNested : Text → Except Raised (Value O)

variable {O : Type}

/-- `str(n)` -/
def decimal : Int → Text
  | .ofNat n => Nat.toDigits 10 n
  | .negSucc n => '-' :: Nat.toDigits 10 (n + 1)

/-- The interpreter converts between integers and texts of this many digits. -/
def Python.converts (py : Python O) (digits : Nat) : Bool :=
  py.maxStrDigits = 0 ∨ digits ≤ py.maxStrDigits

/-- `int(text)` of a sign and digits. -/
def Python.int (py : Python O) (negative : Bool) (digits : Text) : Except Raised Int :=
  if py.converts digits.length then
    .ok (if negative then -(Nat.ofDigitChars 10 digits 0 : Int) else Nat.ofDigitChars 10 digits 0)
  else .error .valueError

def hexDigits (n : Nat) : Text :=
  [Nat.digitChar (n / 4096 % 16), Nat.digitChar (n / 256 % 16), Nat.digitChar (n / 16 % 16),
    Nat.digitChar (n % 16)]

def escapeChar (ch : Char) : Text :=
  if ch = '"' then "\\\"".toList
  else if ch = '\\' then "\\\\".toList
  else if ch = '\n' then "\\n".toList
  else if ch = '\r' then "\\r".toList
  else if ch = '\t' then "\\t".toList
  else if ch.toNat = 0x08 then "\\b".toList
  else if ch.toNat = 0x0C then "\\f".toList
  else if ch.toNat < 0x20 then "\\u".toList ++ hexDigits ch.toNat
  else [ch]

def dumpsText (s : Text) : Text := '"' :: (s.flatMap escapeChar ++ ['"'])

/-- Texts with `", "` between them. -/
def commaJoin : List Text → Text
  | [] => []
  | [t] => t
  | t :: ts => t ++ (", ".toList ++ commaJoin ts)

mutual

def dumps (py : Python O) : Value O → Except Raised Text
  | .none => .ok "null".toList
  | .bool b => .ok (if b then "true".toList else "false".toList)
  | .int n =>
    if py.converts (Nat.toDigits 10 n.natAbs).length then .ok (decimal n)
    else .error .valueError
  | .str s => .ok (dumpsText s)
  | .list items => (dumpsItems py items).map fun ts => '[' :: (commaJoin ts ++ [']'])
  | .dict fields => (dumpsFields py fields).map fun ts => '{' :: (commaJoin ts ++ ['}'])
  | .other o => py.dumpsOther o

def dumpsItems (py : Python O) : List (Value O) → Except Raised (List Text)
  | [] => .ok []
  | v :: vs =>
    match dumps py v with
    | .error e => .error e
    | .ok t => (dumpsItems py vs).map (t :: ·)

def dumpsFields (py : Python O) : List (Text × Value O) → Except Raised (List Text)
  | [] => .ok []
  | (key, v) :: vs =>
    match dumps py v with
    | .error e => .error e
    | .ok t => (dumpsFields py vs).map ((dumpsText key ++ (": ".toList ++ t)) :: ·)

end

/-- `bool(value)` -/
def Python.truthOf (py : Python O) : Value O → Bool
  | .none => false
  | .bool b => b
  | .int n => n ≠ 0
  | .str s => !s.isEmpty
  | .list items => !items.isEmpty
  | .dict fields => !fields.isEmpty
  | .other o => py.truth o

def argumentsToJson (py : Python O) (arguments : Value O) : Except Raised Text :=
  match arguments with
  | .str s =>
    match py.loads s with
    | .ok _ => .ok s
    | .error e =>
      if e.isValueError then dumps py (.dict [("__raw__".toList, .str s)]) else .error e
  | v => if py.truthOf v then dumps py v else dumps py (.dict [])

/-- The `function` of a tool that `_validate_tools` let pass. -/
structure Tool (O : Type) where
  name : Text
  /-- `None` or a dictionary. -/
  parameters : Option (List (Text × Value O))

structure ToolConfig (O : Type) where
  tools : List (Tool O)
  forcedName : Option Text

structure ToolCall where
  id : Text
  name : Text
  arguments : Text
  deriving DecidableEq

def ToolConfig.names (config : ToolConfig O) : List Text := config.tools.map (·.name)

/-- `_tool_name_allowed`; an empty forced name forces nothing. -/
def toolNameAllowed (name : Text) (config : ToolConfig O) : Bool :=
  match config.forcedName with
  | some forced =>
    if forced ≠ [] ∧ name ≠ forced then false
    else config.names = [] ∨ name ∈ config.names
  | none => config.names = [] ∨ name ∈ config.names

/-- `v.get("type")` of a parameter, where it is a text. -/
def declaredType : Value O → Option Text
  | .dict fields =>
    match fields.lookup "type".toList with
    | some (.str type) => some type
    | _ => none
  | _ => none

def paramTypesFor (name : Text) (config : ToolConfig O) : List (Text × Text) :=
  let props := config.tools.findSome? fun tool =>
    if tool.name = name then
      match (tool.parameters.getD []).lookup "properties".toList with
      | some (.dict props) => some props
      | _ => none
    else none
  (props.getD []).filterMap fun field => (declaredType field.2).map fun type => (field.1, type)

end EdgeLLM.Ports.ToolCalling
