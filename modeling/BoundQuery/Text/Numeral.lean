/-!
# Decimal numerals

Integers are written in their shortest decimal form. Reading takes an optional sign and ASCII digits
from left to right and stops at the first fault: a character that is no digit, or a value that has
left the range. An empty text and a sign alone are faults of their own.
-/

namespace BoundQuery.Text
set_option autoImplicit false

inductive NumeralError where
  | empty
  | badDigit
  | tooLarge
  | tooSmall
  deriving DecidableEq, Repr

namespace NumeralError

def message : NumeralError → String
  | empty => "cannot parse integer from empty string"
  | badDigit => "invalid digit found in string"
  | tooLarge => "number too large to fit in target type"
  | tooSmall => "number too small to fit in target type"

end NumeralError

def naturalText (n : Nat) : String := n.repr

@[simp] theorem toList_naturalText (n : Nat) : (naturalText n).toList = Nat.toDigits 10 n := by
  simp [naturalText, Nat.toList_repr]

def integerText : Int → String
  | .ofNat n => naturalText n
  | .negSucc n => "-" ++ naturalText (n + 1)

def padded (width n : Nat) : String :=
  let digits := Nat.toDigits 10 n
  .ofList (List.replicate (width - digits.length) '0' ++ digits)

def digitValue (c : Char) : Nat := c.toNat - '0'.toNat

/--
Reads digits after the value `sum` of those already read. `excess` is the fault of a value beyond
`limit`; it wins over a bad character further right.
-/
def readDigits (limit : Nat) (excess : NumeralError) (sum : Nat) :
    List Char → Except NumeralError Nat
  | [] => .ok sum
  | c :: rest =>
    if c.isDigit then
      let next := sum * 10 + digitValue c
      if next ≤ limit then readDigits limit excess next rest else .error excess
    else .error .badDigit

def readUnsigned (limit : Nat) (excess : NumeralError) : List Char → Except NumeralError Nat
  | [] => .error .badDigit
  | cs => readDigits limit excess 0 cs

/-- A natural number up to `limit`, after an optional `+`. -/
def readNatural (limit : Nat) (s : String) : Except NumeralError Nat :=
  match s.toList with
  | [] => .error .empty
  | '+' :: rest => readUnsigned limit .tooLarge rest
  | cs => readUnsigned limit .tooLarge cs

/-- An integer from `-(limit + 1)` to `limit`, after an optional sign. -/
def readInteger (limit : Nat) (s : String) : Except NumeralError Int :=
  match s.toList with
  | [] => .error .empty
  | '+' :: rest => (readUnsigned limit .tooLarge rest).map Int.ofNat
  | '-' :: rest => (readUnsigned (limit + 1) .tooSmall rest).map fun n => -(Int.ofNat n)
  | cs => (readUnsigned limit .tooLarge cs).map Int.ofNat

def int64Max : Nat := 9223372036854775807

def uint64Max : Nat := 18446744073709551615

def IsInt64 (i : Int) : Prop := -(int64Max : Int) - 1 ≤ i ∧ i ≤ int64Max

instance (i : Int) : Decidable (IsInt64 i) := inferInstanceAs (Decidable (_ ∧ _))

def readInt64 (s : String) : Except NumeralError Int64 := (readInteger int64Max s).map Int64.ofInt

def readUInt64 (s : String) : Except NumeralError UInt64 :=
  (readNatural uint64Max s).map UInt64.ofNat

def int64Text (n : Int64) : String := integerText n.toInt

end BoundQuery.Text
