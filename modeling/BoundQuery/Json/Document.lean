import BoundQuery.Json.Basic
import BoundQuery.Text.Numeral

/-!
# JSON documents

A document is what was written: numbers as they were spelled, fields in their order with repeated
keys, and strings that may have escaped half a surrogate pair. `Document.value?` gives it a value;
it fails on such a string, on a number beyond the doubles and on what nests too deeply. Parts of a
document that nobody asks for need no value.

A number that is no integer in 64 bits is read like this: digits are taken while they fit into 64
bits without sign, those of the whole part that are left raise the exponent, those of the fraction
are dropped, and the significand so found, as a double, is multiplied or divided by one power of
ten.
-/

namespace BoundQuery
set_option autoImplicit false

/-- A number as it was spelled: the digits of its parts, the fraction empty if it has none. -/
structure Spelling where
  negative : Bool
  whole : List Char
  fraction : List Char
  exponent : Option Int
  deriving DecidableEq, Repr

/--
A JSON text taken apart. A string is `none` if it has half a surrogate pair; of an array or an
object that nests too deeply nothing is kept.
-/
inductive Document where
  | null
  | bool (b : Bool)
  | number (n : Spelling)
  | string (s : Option String)
  | array (items : List Document)
  | object (fields : List (Option String × Document))
  | tooDeep
  deriving Repr

namespace Spelling

/-- Takes digits while the number fits into 64 bits; returns it with the digits left. -/
def accumulate (sum : Nat) : List Char → Nat × List Char
  | [] => (sum, [])
  | c :: rest =>
    let next := sum * 10 + Text.digitValue c
    if next ≤ Text.uint64Max then accumulate next rest else (sum, c :: rest)

def powerOfTen (k : Nat) : Binary64 := .ofRatio false (Nat.pow 10 k) 1

/-- Multiplies or divides by a power of ten; nothing if the product is beyond the doubles. -/
def scale? : Nat → Binary64 → Int → Option Binary64
  | 0, x, _ => some x
  | count + 1, x, exponent =>
    if 0 ≤ exponent then
      if exponent ≤ 308 then
        let product := x.product (powerOfTen exponent.toNat)
        if product.isFinite then some product else none
      else if x = .zero false then some x
      else none
    else if -308 ≤ exponent then some (x.quotient (powerOfTen (-exponent).toNat))
    else if x = .zero false then some x
    else scale? count (x.quotient (powerOfTen 308)) (exponent + 308)

def toFloat? (n : Spelling) : Option Binary64 :=
  let (significand, left) := accumulate 0 n.whole
  let (significand, dropped) := accumulate significand n.fraction
  let places : Int := (n.fraction.length : Int) - dropped.length
  let exponent := (left.length : Int) - places + n.exponent.getD 0
  (scale? 8 (.ofRatio false significand 1) exponent).map fun x => if n.negative then x.neg else x

/-- The value of a number: an integer if it is spelled like one, fits and is not `-0`. -/
def value? (n : Spelling) : Option Json :=
  let (magnitude, left) := accumulate 0 n.whole
  if n.fraction.isEmpty ∧ n.exponent.isNone ∧ left.isEmpty then
    if !n.negative then some (.integer magnitude)
    else if 0 < magnitude ∧ magnitude ≤ Text.int64Max + 1 then some (.integer (-(magnitude : Int)))
    else n.toFloat?.map .float
  else n.toFloat?.map .float

end Spelling

namespace Document

mutual

def value? : Document → Option Json
  | .null => some .null
  | .bool b => some (.bool b)
  | .number n => n.value?
  | .string s => s.map .string
  | .array items => (items? items).map .array
  | .object fields => (fields? fields).map fun pairs => .object (Json.sortFields pairs)
  | .tooDeep => none

def items? : List Document → Option (List Json)
  | [] => some []
  | item :: rest =>
    match value? item, items? rest with
    | some v, some vs => some (v :: vs)
    | _, _ => none

def fields? : List (Option String × Document) → Option (List (String × Json))
  | [] => some []
  | (key, item) :: rest =>
    match key, value? item, fields? rest with
    | some k, some v, some pairs => some ((k, v) :: pairs)
    | _, _, _ => none

end

end Document

end BoundQuery
