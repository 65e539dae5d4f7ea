import BoundQuery.Calendar.Date
import BoundQuery.Json.Reader
import BoundQuery.QueryError
import BoundQuery.Text.Blank

/-!
# Reading MySQL columns

A column is read by the name of its type from the bytes that the server sent, numbers with the least
significant byte first. A date without bytes is the date zero and reads as null. Types that nothing
special is done for, among them DECIMAL, are read as text.
-/

namespace BoundQuery.Mysql
set_option autoImplicit false

def natural (bytes : Bytes) : Nat := Bytes.toNatural bytes.reverse

def signed? (width : Nat) (bytes : Bytes) : Option Json :=
  (Bytes.exactly? width bytes).map fun bytes => .integer (Bytes.toInteger bytes.reverse)

def unsigned? (width : Nat) (bytes : Bytes) : Option Json :=
  (Bytes.exactly? width bytes).map fun bytes => .integer (natural bytes)

/-- A time of day; microseconds from a full second on are those of a leap second. -/
def clock? (hour minute second micros : Nat) : Option Clock :=
  if hour < 24 ∧ minute < 60 ∧ second < 60 ∧ micros < 2000000 ∧
      (micros < 1000000 ∨ second = 59) then
    some ⟨hour * 3600 + minute * 60 + second, micros * 1000⟩
  else none

def splitDate? : Bytes → Option (Date × Bytes)
  | low :: high :: month :: day :: rest =>
    (Date.ofParts? (natural [low, high]) month.toNat day.toNat).map fun date => (date, rest)
  | _ => none

/--
A date with a time of day, which is midnight if it is left out. All bytes behind the second are its
microseconds.
-/
def timestamp? (bytes : Bytes) : Option Timestamp :=
  match splitDate? bytes with
  | some (date, []) => some ⟨date, ⟨0, 0⟩⟩
  | some (date, hour :: minute :: second :: micros) =>
    (clock? hour.toNat minute.toNat second.toNat (natural micros)).map fun clock => ⟨date, clock⟩
  | _ => none

/--
A span of time below a day, read as a time of day. Its sign is of no account, but a span of nothing
must not be negative.
-/
def span? : Bytes → Option Clock
  | [] => some ⟨0, 0⟩
  | sign :: d0 :: d1 :: d2 :: d3 :: hour :: minute :: second :: rest =>
    if sign ≤ 1 ∧ (rest = [] ∨ rest.length = 4) ∧ natural rest < 1000000 then
      (clock? (24 * natural [d0, d1, d2, d3] + hour.toNat) minute.toNat second.toNat
        (natural rest)).filter fun clock => sign == 0 || clock != ⟨0, 0⟩
    else none
  | _ => none

def orNull (read : Bytes → Option Json) (bytes : Bytes) : Option Json :=
  if bytes = [] then some .null else read bytes

def text? (bytes : Bytes) : Option Json := (Bytes.toText? bytes).map .string

def reader (typeName : String) : Bytes → Option Json :=
  match Text.upper typeName with
  | "BOOLEAN" => fun bytes => (Bytes.exactly? 1 bytes).map fun bytes => .bool (bytes != [0])
  | "TINYINT" => signed? 1
  | "SMALLINT" => signed? 2
  | "MEDIUMINT" => signed? 4
  | "INT" => signed? 4
  | "BIGINT" => signed? 8
  | "TINYINT UNSIGNED" => unsigned? 1
  | "SMALLINT UNSIGNED" => unsigned? 2
  | "MEDIUMINT UNSIGNED" => unsigned? 4
  | "INT UNSIGNED" => unsigned? 4
  | "BIGINT UNSIGNED" => unsigned? 8
  | "FLOAT" => fun bytes =>
    (Bytes.exactly? 4 bytes).map fun bytes =>
      Json.ofFloat (Binary64.widen ⟨UInt32.ofNat (natural bytes)⟩)
  | "DOUBLE" => fun bytes =>
    (Bytes.exactly? 8 bytes).map fun bytes => Json.ofFloat ⟨UInt64.ofNat (natural bytes)⟩
  | "JSON" => fun bytes => (Bytes.toText? bytes).bind Json.ofText?
  | "DATE" => orNull fun bytes => (splitDate? bytes).map fun (date, _) => .string date.text
  | "TIME" => fun bytes => (span? bytes).map fun clock => .string clock.text
  | "DATETIME" => orNull fun bytes => (timestamp? bytes).map fun t => .string t.text
  | "TIMESTAMP" => orNull fun bytes => (timestamp? bytes).map fun t => .string t.universalText
  | "BINARY" | "VARBINARY" | "BLOB" | "TINYBLOB" | "MEDIUMBLOB" | "LONGBLOB" => fun bytes =>
    some (.array (bytes.map fun b => .integer b.toNat))
  | _ => text?

def decodeColumn (typeName : String) (payload : Option Bytes) : Except DecodeFault Json :=
  match payload with
  | none => .ok .null
  | some bytes =>
    match reader typeName bytes with
    | some value => .ok value
    | none => .error .malformed

end BoundQuery.Mysql
