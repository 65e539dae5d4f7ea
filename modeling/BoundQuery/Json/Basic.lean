import BoundQuery.Number.FloatText
import BoundQuery.Text.Numeral

/-!
# JSON values

A number is an integer in 64 bits, signed or unsigned, or a finite double. The fields of an object
are kept in the order of their keys, one for each key; of two with one key the later stands.
-/

namespace BoundQuery
set_option autoImplicit false

inductive Json where
  | null
  | bool (b : Bool)
  | integer (n : Int)
  | float (x : Binary64)
  | string (s : String)
  | array (items : List Json)
  | object (fields : List (String × Json))
  deriving Inhabited, Repr

namespace Json

def insertField (key : String) (value : Json) : List (String × Json) → List (String × Json)
  | [] => [(key, value)]
  | (k, v) :: rest =>
    if key < k then (key, value) :: (k, v) :: rest
    else if key = k then (key, value) :: rest
    else (k, v) :: insertField key value rest

/-- The fields of an object in the order of their keys; the later of two with one key stands. -/
def sortFields (pairs : List (String × Json)) : List (String × Json) :=
  pairs.foldl (fun fields (key, value) => insertField key value fields) []

/-- A double as a JSON value: one that is not finite has none and becomes null. -/
def ofFloat (x : Binary64) : Json := if x.isFinite then .float x else .null

def toInt64? : Json → Option Int64
  | .integer n => if Text.IsInt64 n then some (Int64.ofInt n) else none
  | _ => none

def toUInt64? : Json → Option UInt64
  | .integer n => if 0 ≤ n ∧ n ≤ Text.uint64Max then some (UInt64.ofNat n.toNat) else none
  | _ => none

end Json

end BoundQuery
