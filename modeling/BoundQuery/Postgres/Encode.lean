import BoundQuery.Calendar.Reader
import BoundQuery.Json.Reader
import BoundQuery.Postgres.Numeric
import BoundQuery.Postgres.SqlType
import BoundQuery.Uuid
import BoundQuery.Value

/-!
# Binding values to PostgreSQL parameters

Values are loosely typed; how one is sent depends on the type that the server has given to its
parameter. An integer may go to a column of text and a numeral to a column of integers, as long as
the number is the same. All numbers are sent most significant byte first.
-/

namespace BoundQuery.Postgres
set_option autoImplicit false

inductive ValueKind where
  | integer
  | float
  | text
  deriving DecidableEq, Repr

def ValueKind.name : ValueKind → String
  | .integer => "integer"
  | .float => "float"
  | .text => "text"

/-- Why a value cannot be sent. -/
inductive EncodeError where
  | mismatch (kind : ValueKind) (type : SqlType)
  | list
  | numeral (fault : Text.NumeralError)
  | floatText (fault : FloatTextError)
  | range
  | decimal
  | json
  | uuid
  | moment
  deriving DecidableEq, Repr

namespace EncodeError

def message : EncodeError → String
  | mismatch kind type =>
    "cannot bind " ++ kind.name ++ " value to parameter of type " ++ type.render
  | list => Value.listReason
  | numeral fault => fault.message
  | floatText fault => fault.message
  | range => "integer out of range"
  | decimal => "not a decimal number"
  | json => "not a JSON text"
  | uuid => "not an identifier"
  | moment => "not a date or time"

end EncodeError

def integerBytes (width : Nat) (n : Int) : Except EncodeError Bytes :=
  let bound : Int := (Nat.pow 256 width : Nat)
  if -bound ≤ 2 * n ∧ 2 * n < bound then .ok (Bytes.bigEndianInt width n) else .error .range

def doubleBytes (x : Binary64) : Bytes := Bytes.bigEndian 8 x.bits.toNat

def singleBytes (x : Binary32) : Bytes := Bytes.bigEndian 4 x.bits.toNat

def boolBytes (b : Bool) : Bytes := [if b then 1 else 0]

def decimalBytes (d : Decimal) : Bytes := (Numeric.ofDecimal d).encode

def textBytes (type : SqlType) (kind : ValueKind) (s : String) : Except EncodeError Bytes :=
  match type.textForm? with
  | some form => .ok (form.encode s)
  | none => .error (.mismatch kind type)

def encodeInt (type : SqlType) (n : Int64) : Except EncodeError Bytes :=
  match type with
  | .int8 => integerBytes 8 n.toInt
  | .int4 => integerBytes 4 n.toInt
  | .int2 => integerBytes 2 n.toInt
  | .float8 => .ok (doubleBytes (.ofInt n.toInt))
  | .float4 => .ok (singleBytes (.ofInt n.toInt))
  | .numeric => .ok (decimalBytes (.ofInt n.toInt))
  | .bool => .ok (boolBytes (n != 0))
  | _ => textBytes type .integer (Text.int64Text n)

/-- A truth value; a type that is not for them takes the integer 1 or 0. -/
def encodeBool (type : SqlType) (b : Bool) : Except EncodeError Bytes :=
  match type with
  | .bool => .ok (boolBytes b)
  | _ => encodeInt type (if b then 1 else 0)

def encodeWhole (type : SqlType) (x : Binary64) : Except EncodeError Bytes :=
  match x.toInt? with
  | some i => encodeInt type (Value.saturate i)
  | none => .error (.mismatch .float type)

def encodeFloat (type : SqlType) (x : Binary64) : Except EncodeError Bytes :=
  match type with
  | .float8 => .ok (doubleBytes x)
  | .float4 => .ok (singleBytes x.narrow)
  | .numeric =>
    match Decimal.ofBinary64? x with
    | some d => .ok (decimalBytes d)
    | none => .error .decimal
  | .int8 => encodeWhole type x
  | .int4 => encodeWhole type x
  | _ => textBytes type .float (Value.floatText x)

def trueWords : List String := ["t", "true", "1", "yes", "on"]

def falseWords : List String := ["f", "false", "0", "no", "off"]

/-- A value that was read, or the error that it was not. -/
def required {α : Type} (found : Option α) (e : EncodeError) : Except EncodeError α :=
  match found with
  | some value => .ok value
  | none => .error e

def encodeNumeral (type : SqlType) (s : String) : Except EncodeError Bytes :=
  match Text.readInt64 s with
  | .ok n => encodeInt type n
  | .error e => .error (.numeral e)

def encodeFloatText (type : SqlType) (s : String) : Except EncodeError Bytes :=
  match Binary64.ofText s with
  | .ok x => encodeFloat type x
  | .error e => .error (.floatText e)

def encodeWord (type : SqlType) (s : String) : Except EncodeError Bytes :=
  let word := Text.lower s
  if trueWords.contains word then .ok (boolBytes true)
  else if falseWords.contains word then .ok (boolBytes false)
  else .error (.mismatch .text type)

def jsonVersion : UInt8 := 1

def jsonBytes (s : String) : Except EncodeError Bytes :=
  (required (Json.ofText? s) .json).map fun value => Bytes.ofText value.render

def dateBytes (d : Date) : Bytes := Bytes.bigEndianInt 4 d.toDays

def clockBytes (c : Clock) : Bytes := Bytes.bigEndianInt 8 (c.toNanos / 1000 : Nat)

def timestampBytes (t : Timestamp) : Bytes := Bytes.bigEndianInt 8 t.toMicros

/-- Text as a type takes it. Blanks around it are ignored by all types but those of text and JSON.
-/
def encodeText (type : SqlType) (s : String) : Except EncodeError Bytes :=
  let trimmed := Text.trim s
  match type with
  | .int8 => encodeNumeral type trimmed
  | .int4 => encodeNumeral type trimmed
  | .int2 => encodeNumeral type trimmed
  | .float8 => encodeFloatText type trimmed
  | .float4 => encodeFloatText type trimmed
  | .numeric => (required (Decimal.ofText? trimmed) .decimal).map decimalBytes
  | .bool => encodeWord type trimmed
  | .json => jsonBytes s
  | .jsonb => (jsonBytes s).map (jsonVersion :: ·)
  | .uuid => (required (Uuid.ofText? trimmed) .uuid).map Uuid.bytes
  | .timestamptz => (required (Timestamp.ofZonedText? trimmed) .moment).map timestampBytes
  | .timestamp => (required (Timestamp.ofText? trimmed) .moment).map timestampBytes
  | .date => (required (Date.ofText? trimmed) .moment).map dateBytes
  | .time => (required (Clock.ofText? trimmed) .moment).map clockBytes
  | _ => textBytes type .text s

/-- A value as the parameter type takes it; `none` is NULL. -/
def encode (type : SqlType) : Value → Except EncodeError (Option Bytes)
  | .null => .ok none
  | .bool b => (encodeBool type b).map some
  | .int n => (encodeInt type n).map some
  | .float x => (encodeFloat type x).map some
  | .text s => (encodeText type s).map some
  | .list _ => .error .list

/-- Values for parameters; a parameter without a type takes text. -/
def encodeAll : List SqlType → List Value → Except EncodeError (List (Option Bytes))
  | _, [] => .ok []
  | types, value :: values => do
    let bytes ← encode (types.headD .text) value
    let rest ← encodeAll types.tail values
    return bytes :: rest

end BoundQuery.Postgres
