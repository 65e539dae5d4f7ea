import BoundQuery.Json.Printer
import BoundQuery.Text.Blank
import BoundQuery.Text.Numeral

/-!
# Bound values

A value never stands in the text of a statement: it is registered under a key and goes to the server
beside the text. A list stands for several values, one placeholder each.
-/

namespace BoundQuery
set_option autoImplicit false

inductive Value where
  | null
  | bool (b : Bool)
  | int (n : Int64)
  | float (x : Binary64)
  | text (s : String)
  | list (items : List Value)
  deriving Inhabited, Repr

namespace Value

def listReason : String := "list values are expanded into one placeholder per element"

def ofInt64 (n : Int64) : Value := .int n

/-- An unsigned integer; beyond the signed range it keeps its digits as text. -/
def ofUInt64 (n : UInt64) : Value :=
  if n.toNat ≤ Text.int64Max then .int (Int64.ofNat n.toNat) else .text (Text.naturalText n.toNat)

/-- Floats in messages and in text columns: positional, and without a point if they are whole. -/
def floatLayout : FloatLayout := ⟨.up, fun _ => true, ""⟩

def floatText (x : Binary64) : String := x.render floatLayout "NaN" "inf"

mutual

def display : Value → String
  | .null => "NULL"
  | .bool b => if b then "true" else "false"
  | .int n => Text.int64Text n
  | .float x => floatText x
  | .text s => s
  | .list items => "[" ++ String.intercalate ", " (displayItems items) ++ "]"

def displayItems : List Value → List String
  | [] => []
  | item :: rest => display item :: displayItems rest

end

def isNull : Value → Bool
  | .null => true
  | _ => false

/-- An integer, or the end of the signed 64-bit range that is nearest to it. -/
def saturate (i : Int) : Int64 :=
  Int64.ofInt (max (-(Text.int64Max : Int) - 1) (min i Text.int64Max))

/--
The integer that a value stands for: an integer itself, a whole float, or the numeral that a text
holds between blanks. A whole float beyond 64 bits stands for the end of the range.
-/
def toInteger? : Value → Option Int64
  | .int n => some n
  | .float x => x.toInt?.map saturate
  | .text s => (Text.readInt64 (Text.trim s)).toOption
  | _ => none

mutual

/-- The value of a JSON value. An integer beyond the signed range becomes a float, an object its
text. -/
def ofJson : Json → Value
  | .null => .null
  | .bool b => .bool b
  | .integer n =>
    match (Json.integer n).toInt64? with
    | some i => .int i
    | none => .float (Binary64.ofInt n)
  | .float x => .float x
  | .string s => .text s
  | .array items => .list (ofItems items)
  | .object fields => .text (Json.object fields).render

def ofItems : List Json → List Value
  | [] => []
  | item :: rest => ofJson item :: ofItems rest

end

mutual

def toJson : Value → Json
  | .null => .null
  | .bool b => .bool b
  | .int n => .integer n.toInt
  | .float x => Json.ofFloat x
  | .text s => .string s
  | .list items => .array (toItems items)

def toItems : List Value → List Json
  | [] => []
  | item :: rest => toJson item :: toItems rest

end

end Value

end BoundQuery
