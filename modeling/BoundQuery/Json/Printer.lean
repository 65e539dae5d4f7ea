import BoundQuery.Json.Basic

/-!
# JSON as text

The compact form: no spaces, fields in their order, and only what must be escaped is escaped. A
float with a leading exponent from -5 to 15 is written positionally with at least one place, any
other with a signed exponent; of two equally near shortest forms the one with the even digit is
taken.
-/

namespace BoundQuery.Json
set_option autoImplicit false

def floatLayout : FloatLayout := ⟨.even, fun lead => -5 ≤ lead && lead ≤ 15, ".0"⟩

def escapeChar (c : Char) : List Char :=
  if c = '\x22' then ['\\', '\x22']
  else if c = '\\' then ['\\', '\\']
  else if c = '\x08' then ['\\', 'b']
  else if c = '\x0c' then ['\\', 'f']
  else if c = '\n' then ['\\', 'n']
  else if c = '\r' then ['\\', 'r']
  else if c = '\t' then ['\\', 't']
  else if c.toNat < 0x20 then
    ['\\', 'u', '0', '0', Nat.digitChar (c.toNat / 16), Nat.digitChar (c.toNat % 16)]
  else [c]

def quote (s : String) : String := .ofList ('\x22' :: s.toList.flatMap escapeChar ++ ['\x22'])

mutual

def render : Json → String
  | .null => "null"
  | .bool b => if b then "true" else "false"
  | .integer n => toString n
  | .float x => x.render floatLayout "null" "null"
  | .string s => quote s
  | .array items => "[" ++ String.intercalate "," (renderItems items) ++ "]"
  | .object fields => "\x7b" ++ String.intercalate "," (renderFields fields) ++ "\x7d"

def renderItems : List Json → List String
  | [] => []
  | item :: rest => render item :: renderItems rest

def renderFields : List (String × Json) → List String
  | [] => []
  | (key, value) :: rest => (quote key ++ ":" ++ render value) :: renderFields rest

end

end BoundQuery.Json
