import Llmctl.Store

/-!
# JSON values

`serde_json::Value` and its compact text. The fields of an object are listed in
the order of its map; a number is kept as it prints.
-/

namespace Llmctl

inductive Value where
  | null
  | bool (b : Bool)
  | number (text : String)
  | string (s : String)
  | array (items : List Value)
  | object (fields : List (String × Value))

namespace Value

def asStr : Value → Option String
  | string s => some s
  | _ => none

def get (key : String) : Value → Option Value
  | object fields => (fields.find? fun field => field.1 == key).map (·.2)
  | _ => none

def hexDigit (n : Nat) : Char := if n < 10 then Char.ofNat (48 + n) else Char.ofNat (87 + n)

/-- A character of a JSON string, escaped as `serde_json` does. -/
def escapeChar (c : Char) : List Char :=
  if c = '"' then ['\\', '"']
  else if c = '\\' then ['\\', '\\']
  else if c.toNat = 8 then ['\\', 'b']
  else if c.toNat = 9 then ['\\', 't']
  else if c.toNat = 10 then ['\\', 'n']
  else if c.toNat = 12 then ['\\', 'f']
  else if c.toNat = 13 then ['\\', 'r']
  else if c.toNat < 32 then ['\\', 'u', '0', '0', hexDigit (c.toNat / 16), hexDigit (c.toNat % 16)]
  else [c]

def quote (s : String) : String := "\"" ++ String.ofList (s.toList.flatMap escapeChar) ++ "\""

mutual

def render : Value → String
  | null => "null"
  | bool b => toString b
  | number text => text
  | string s => quote s
  | array items => "[" ++ ",".intercalate (renderItems items) ++ "]"
  | object fields => "\x7b" ++ ",".intercalate (renderFields fields) ++ "\x7d"

def renderItems : List Value → List String
  | [] => []
  | v :: vs => v.render :: renderItems vs

def renderFields : List (String × Value) → List String
  | [] => []
  | (key, v) :: fields => (quote key ++ ":" ++ v.render) :: renderFields fields

end

end Value

end Llmctl
