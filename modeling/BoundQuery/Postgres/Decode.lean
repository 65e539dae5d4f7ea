import BoundQuery.Calendar.Date
import BoundQuery.Json.Reader
import BoundQuery.Postgres.Numeric
import BoundQuery.Postgres.SqlType
import BoundQuery.QueryError
import BoundQuery.Uuid

/-!
# Reading PostgreSQL columns

A column is read by its type from the bytes that the server sent. A NULL is null, and so is a float
that JSON cannot express; nothing else is. `numeric` keeps its digits as text. A type that cannot be
read is an error even where the value is NULL.
-/

namespace BoundQuery.Postgres
set_option autoImplicit false

def integerJson? (width : Nat) (bytes : Bytes) : Option Json :=
  (Bytes.exactly? width bytes).map fun bytes => .integer (Bytes.toInteger bytes)

def bytesJson (bytes : Bytes) : Json := .array (bytes.map fun b => .integer b.toNat)

def jsonText? (bytes : Bytes) : Option Json := (Bytes.toText? bytes).bind Json.ofText?

/-- A JSON text in its binary form, behind its version. -/
def binaryJson? : Bytes → Option Json
  | version :: rest => if version = 1 then jsonText? rest else none
  | [] => none

def dateJson? (bytes : Bytes) : Option Json :=
  ((Bytes.exactly? 4 bytes).bind fun bytes => Date.ofDays? (Bytes.toInteger bytes)).map
    fun d => .string d.text

/-- The time of day with this number of microseconds, over whole days. -/
def clockJson? (bytes : Bytes) : Option Json :=
  (Bytes.exactly? 8 bytes).map fun bytes =>
    let dayMicros : Int := (Clock.daySeconds * 1000000 : Nat)
    .string (Clock.ofMicros (Bytes.toInteger bytes % dayMicros).toNat).text

def timestamp? (bytes : Bytes) : Option Timestamp :=
  (Bytes.exactly? 8 bytes).bind fun bytes => Timestamp.ofMicros? (Bytes.toInteger bytes)

def numericJson? (bytes : Bytes) : Option Json :=
  ((Numeric.decode? bytes).bind Numeric.toDecimal?).map fun d => .string d.text

/-- How the payload of a type is read; `none` if the type cannot be read at all. -/
def reader? : SqlType → Option (Bytes → Option Json)
  | .bool => some fun bytes => (Bytes.exactly? 1 bytes).map fun bytes => .bool (bytes != [0])
  | .int2 => some (integerJson? 2)
  | .int4 => some (integerJson? 4)
  | .int8 => some (integerJson? 8)
  | .oid => some fun bytes =>
    (Bytes.exactly? 4 bytes).map fun bytes => .integer (Bytes.toNatural bytes)
  | .float4 => some fun bytes =>
    (Bytes.exactly? 4 bytes).map fun bytes =>
      Json.ofFloat (Binary64.widen ⟨UInt32.ofNat (Bytes.toNatural bytes)⟩)
  | .float8 => some fun bytes =>
    (Bytes.exactly? 8 bytes).map fun bytes => Json.ofFloat ⟨UInt64.ofNat (Bytes.toNatural bytes)⟩
  | .numeric => some numericJson?
  | .json => some jsonText?
  | .jsonb => some binaryJson?
  | .timestamp => some fun bytes => (timestamp? bytes).map fun t => .string t.text
  | .timestamptz => some fun bytes => (timestamp? bytes).map fun t => .string t.universalText
  | .date => some dateJson?
  | .time => some clockJson?
  | .uuid => some fun bytes =>
    (Bytes.exactly? 16 bytes).map fun bytes => .string (Uuid.mk bytes).text
  | .bytea => some fun bytes => some (bytesJson bytes)
  | type => type.textForm?.map fun form bytes => (form.decode? bytes).map .string

def decodeColumn (type : SqlType) (payload : Option Bytes) : Except DecodeFault Json :=
  match reader? type, payload with
  | none, _ => .error (.stated ("unsupported column type " ++ type.render))
  | some _, none => .ok .null
  | some read, some bytes =>
    match read bytes with
    | some value => .ok value
    | none => .error .malformed

end BoundQuery.Postgres
