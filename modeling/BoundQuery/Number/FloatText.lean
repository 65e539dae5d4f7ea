import BoundQuery.Number.Shortest

/-!
# Floating-point numbers as text

A finite double is written with its shortest digits. A `FloatLayout` says how: which leading
exponents are written positionally, what follows a whole number, and which digit wins a tie. Reading
takes digits with an optional point and exponent, or the name of an infinity or of no number, and
rounds the exact decimal value once.
-/

namespace BoundQuery
set_option autoImplicit false

structure FloatLayout where
  tie : Tie
  /-- Whether a number with this leading exponent is written without an exponent. -/
  positional : Int → Bool
  /-- What follows the digits of a whole number. -/
  wholeSuffix : String

namespace Decimals

def zeros (count : Nat) : String := .ofList (List.replicate count '0')

def positional (d : Decimals) (wholeSuffix : String) : String :=
  let digits := Nat.toDigits 10 d.digits
  if 0 ≤ d.exponent then String.ofList digits ++ zeros d.exponent.toNat ++ wholeSuffix
  else
    let places := (-d.exponent).toNat
    if places < digits.length then
      let whole := digits.length - places
      String.ofList (digits.take whole) ++ "." ++ String.ofList (digits.drop whole)
    else "0." ++ zeros (places - digits.length) ++ String.ofList digits

def scientific (d : Decimals) : String :=
  let digits := Nat.toDigits 10 d.digits
  let mantissa :=
    match digits with
    | [] => ""
    | [c] => String.singleton c
    | c :: rest => String.singleton c ++ "." ++ String.ofList rest
  let sign := if d.lead < 0 then "-" else "+"
  mantissa ++ "e" ++ sign ++ d.lead.natAbs.repr

def render (layout : FloatLayout) (d : Decimals) : String :=
  if layout.positional d.lead then d.positional layout.wholeSuffix else d.scientific

end Decimals

namespace Binary64

def decimals (tie : Tie) (significand : Nat) (exponent : Int) : Decimals :=
  if significand = 0 then ⟨0, 0⟩ else doubleFormat.shortest tie significand exponent

/-- A finite double in a layout; the names of the others are given. -/
def render (layout : FloatLayout) (nan infinity : String) (x : Binary64) : String :=
  match x.unpack with
  | .nan => nan
  | .infinite negative => (if negative then "-" else "") ++ infinity
  | .finite negative significand exponent =>
    (if negative then "-" else "") ++ (decimals layout.tie significand exponent).render layout

/-- The double nearest to `± digits * 10 ^ exponent`; far beyond the range it needs no rounding. -/
def ofDecimals (negative : Bool) (d : Decimals) : Binary64 :=
  if d.digits = 0 then zero negative
  else if 400 < d.exponent then infinite negative
  else if d.exponent + Nat.log2 d.digits < -400 then zero negative
  else if 0 ≤ d.exponent then ofRatio negative (d.digits * Nat.pow 10 d.exponent.toNat) 1
  else ofRatio negative d.digits (Nat.pow 10 (-d.exponent).toNat)

end Binary64

inductive FloatTextError where
  | empty
  | malformed
  deriving DecidableEq, Repr

namespace FloatTextError

def message : FloatTextError → String
  | empty => "cannot parse float from empty string"
  | malformed => "invalid float literal"

end FloatTextError

def digitsValue (digits : List Char) : Nat := Nat.ofDigitChars 10 digits 0

def readExponent? (cs : List Char) : Option Int :=
  let unsigned (digits : List Char) : Option Nat :=
    if digits.isEmpty || !digits.all Char.isDigit then none else some (digitsValue digits)
  match cs with
  | '+' :: rest => (unsigned rest).map Int.ofNat
  | '-' :: rest => (unsigned rest).map fun n => -(Int.ofNat n)
  | _ => (unsigned cs).map Int.ofNat

def readDecimals? (cs : List Char) : Option Decimals :=
  let whole := cs.takeWhile Char.isDigit
  let afterWhole := cs.dropWhile Char.isDigit
  let (fraction, rest) :=
    match afterWhole with
    | '.' :: tail => (tail.takeWhile Char.isDigit, tail.dropWhile Char.isDigit)
    | _ => ([], afterWhole)
  if whole.isEmpty && fraction.isEmpty then none
  else
    let shifted (exponent : Int) : Decimals :=
      ⟨digitsValue (whole ++ fraction), exponent - fraction.length⟩
    match rest with
    | [] => some (shifted 0)
    | c :: tail => if c = 'e' ∨ c = 'E' then (readExponent? tail).map shifted else none

def Binary64.ofText (s : String) : Except FloatTextError Binary64 :=
  let unsigned (negative : Bool) (cs : List Char) : Except FloatTextError Binary64 :=
    match readDecimals? cs with
    | some d => .ok (Binary64.ofDecimals negative d)
    | none =>
      let name := cs.map Char.toLower
      if name = "inf".toList ∨ name = "infinity".toList then .ok (Binary64.infinite negative)
      else if name = "nan".toList then
        .ok (if negative then Binary64.nan.neg else Binary64.nan)
      else .error .malformed
  match s.toList with
  | [] => .error .empty
  | '-' :: rest => unsigned true rest
  | '+' :: rest => unsigned false rest
  | cs => unsigned false cs

end BoundQuery
