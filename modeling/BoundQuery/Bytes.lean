/-!
# Numbers as bytes

Naturals in a fixed number of bytes, most or least significant byte first; integers in two's
complement; and bytes as pairs of hexadecimal digits.
-/

namespace BoundQuery
set_option autoImplicit false

abbrev Bytes := List UInt8

namespace Bytes

def bigEndian : Nat → Nat → Bytes
  | 0, _ => []
  | width + 1, n => UInt8.ofNat (n / Nat.pow 256 width) :: bigEndian width n

def littleEndian : Nat → Nat → Bytes
  | 0, _ => []
  | width + 1, n => UInt8.ofNat n :: littleEndian width (n / 256)

/-- The natural that an integer is congruent to in `width` bytes. -/
def complement (width : Nat) (i : Int) : Nat := (i % (Nat.pow 256 width : Nat)).toNat

def bigEndianInt (width : Nat) (i : Int) : Bytes := bigEndian width (complement width i)

def littleEndianInt (width : Nat) (i : Int) : Bytes := littleEndian width (complement width i)

def toNatural (bytes : Bytes) : Nat := bytes.foldl (fun sum b => sum * 256 + b.toNat) 0

def toInteger (bytes : Bytes) : Int :=
  let n := toNatural bytes
  let bound := Nat.pow 256 bytes.length
  if 2 * n < bound then n else (n : Int) - bound

def hexDigit (n : Nat) : Char := (Nat.toDigits 16 (n % 16)).headD '0'

def hexValue? (c : Char) : Option Nat :=
  if '0' ≤ c ∧ c ≤ '9' then some (c.toNat - '0'.toNat)
  else if 'a' ≤ c ∧ c ≤ 'f' then some (c.toNat - 'a'.toNat + 10)
  else if 'A' ≤ c ∧ c ≤ 'F' then some (c.toNat - 'A'.toNat + 10)
  else none

def toHex (bytes : Bytes) : String :=
  .ofList (bytes.flatMap fun b => [hexDigit (b.toNat / 16), hexDigit b.toNat])

def ofHexChars? : List Char → Option Bytes
  | [] => some []
  | [_] => none
  | high :: low :: rest =>
    match hexValue? high, hexValue? low, ofHexChars? rest with
    | some h, some l, some bytes => some (UInt8.ofNat (h * 16 + l) :: bytes)
    | _, _, _ => none

def ofHex? (s : String) : Option Bytes := ofHexChars? s.toList

/-- The bytes, if there are so many of them. -/
def exactly? (width : Nat) (bytes : Bytes) : Option Bytes :=
  if bytes.length = width then some bytes else none

def ofText (s : String) : Bytes := s.toUTF8.data.toList

def toText? (bytes : Bytes) : Option String := String.fromUTF8? ⟨bytes.toArray⟩

end Bytes

end BoundQuery
