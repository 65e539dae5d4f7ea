import BoundQuery.Bytes
import BoundQuery.QueryError
import BoundQuery.Value

/-!
# Binding values to MySQL parameters

A parameter has no type of its own: each value is sent with a type code, a mark for unsigned numbers
and its bytes, numbers with the least significant byte first. A list cannot be sent.
-/

namespace BoundQuery.Mysql
set_option autoImplicit false

/-- A value as it is sent; without payload it is NULL. -/
structure Argument where
  code : UInt8
  isUnsigned : Bool := false
  payload : Option Bytes := none
  deriving DecidableEq, Repr

namespace Argument

def byteCode : UInt8 := 1

def doubleCode : UInt8 := 5

def longCode : UInt8 := 8

/-- The code of text, which is also that of NULL. -/
def textCode : UInt8 := 253

def ofValue : Value → Except QueryError Argument
  | .null => .ok { code := textCode }
  | .bool b => .ok ⟨byteCode, true, some [if b then 1 else 0]⟩
  | .int n => .ok ⟨longCode, false, some (Bytes.littleEndianInt 8 n.toInt)⟩
  | .float x => .ok ⟨doubleCode, false, some (Bytes.littleEndian 8 x.bits.toNat)⟩
  | .text s => .ok ⟨textCode, false, some (Bytes.ofText s)⟩
  | .list _ => .error (.invalidValue "" Value.listReason)

end Argument

end BoundQuery.Mysql
