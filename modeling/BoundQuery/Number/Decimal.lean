import BoundQuery.Number.FloatText
import BoundQuery.Text.Numeral

/-!
# Decimal numbers of 96 bits

A decimal number is a sign, a mantissa below `2 ^ 96` and up to 28 decimal places. It is read from
digits with an optional point, where `_` may separate digits, or from such a base with a decimal
exponent; places beyond the mantissa or beyond 28 are rounded half up by the first character
dropped. A double becomes the decimal nearest to its value as far as 96 bits carry it, and is then
cut to the precision of a double as long as it has decimal places.
-/

namespace BoundQuery
set_option autoImplicit false

/-- The number `± mantissa / 10 ^ scale`. -/
structure Decimal where
  negative : Bool
  mantissa : Nat
  scale : Nat
  deriving DecidableEq, Repr

namespace Decimal

def mantissaBound : Nat := 79228162514264337593543950336

def maxScale : Nat := 28

def ofInt (i : Int) : Decimal := ⟨i < 0, i.natAbs, 0⟩

def dropPlace (mantissa : Nat) : Nat := mantissa / 10 + (if 5 ≤ mantissa % 10 then 1 else 0)

def dropPlaces (mantissa count : Nat) : Nat :=
  if count = 0 then mantissa else dropPlace (mantissa / Nat.pow 10 (count - 1))

def ofParts (negative : Bool) (mantissa places : Nat) : Decimal :=
  ⟨negative && mantissa != 0, mantissa, places⟩

def isFractionChar (c : Char) : Bool := c.isDigit || c == '_'

/--
Rounds half up by the first character dropped, where a separator counts as zero; a full mantissa
gives up one more place. The characters behind it have no say but must belong to a fraction.
-/
def roundBy? (negative : Bool) (mantissa places : Nat) (c : Char) (rest : List Char) :
    Option Decimal :=
  if (c :: rest).all isFractionChar then
    if c = '_' ∨ Text.digitValue c < 5 then some (ofParts negative mantissa places)
    else if mantissa + 1 < mantissaBound then some (ofParts negative (mantissa + 1) places)
    else if places = 0 then none
    else some (ofParts negative ((mantissa + 5) / 10) (places - 1))
  else none

/--
Reads on behind the digits that gave a long mantissa. `point` says that the point has been read.
The digit that the mantissa cannot hold, or that comes behind the 28th place, decides the rounding;
separators in front of it are passed.
-/
def readLong? (negative : Bool) :
    (mantissa places : Nat) → (point : Bool) → List Char → Option Decimal
  | mantissa, places, _, [] => some (ofParts negative mantissa places)
  | mantissa, places, point, c :: rest =>
    if c.isDigit then
      let next := mantissa * 10 + Text.digitValue c
      if point then
        if mantissaBound ≤ next ∨ maxScale ≤ places then roundBy? negative mantissa places c rest
        else readLong? negative next (places + 1) point rest
      else if next < mantissaBound then readLong? negative next places point rest
      else none
    else if c = '.' ∧ !point then readLong? negative mantissa places true rest
    else if c = '_' then readLong? negative mantissa places point rest
    else none

/-- The bound from which on a mantissa is long: no digit is added to it in 64 bits. -/
def longBound : Nat := 1844674407370954906

/--
Reads digits, separators and one point behind those that gave a mantissa. `point` says that the
point has been read and `seen` that a digit has. The character behind the 28th place decides the
rounding.
-/
def readDigits? (negative : Bool) :
    (mantissa places : Nat) → (point seen : Bool) → List Char → Option Decimal
  | mantissa, places, _, seen, [] =>
    if seen then some (ofParts negative mantissa places) else none
  | mantissa, places, point, seen, c :: rest =>
    if c.isDigit then
      let next := mantissa * 10 + Text.digitValue c
      let nextPlaces := if point then places + 1 else places
      match rest with
      | [] => some (ofParts negative next nextPlaces)
      | d :: more =>
        if point ∧ maxScale ≤ nextPlaces then roundBy? negative next nextPlaces d more
        else if longBound ≤ next then readLong? negative next nextPlaces point rest
        else readDigits? negative next nextPlaces point true rest
    else if c = '.' ∧ !point then readDigits? negative mantissa places true seen rest
    else if c = '_' ∧ seen then readDigits? negative mantissa places point seen rest
    else none

def readPlain? : List Char → Option Decimal
  | [] => none
  | '-' :: rest => readDigits? true 0 0 false false rest
  | '+' :: rest => readDigits? false 0 0 false false rest
  | cs => readDigits? false 0 0 false false cs

/--
Moves the point by a decimal exponent of either sign. Places beyond the 28th are rounded away; zeros
in front of the point are taken only as far as the mantissa holds them.
-/
def shift? (d : Decimal) (negative : Bool) (exponent : Nat) : Option Decimal :=
  if negative then
    if maxScale < exponent then none
    else
      let surplus := d.scale + exponent - maxScale
      some { d with
        mantissa := dropPlaces d.mantissa surplus, scale := d.scale + exponent - surplus }
  else if exponent ≤ d.scale then some { d with scale := d.scale - exponent }
  else if maxScale < exponent then none
  else
    let mantissa := d.mantissa * Nat.pow 10 (exponent - d.scale)
    if mantissa < mantissaBound then some { d with mantissa := mantissa, scale := 0 } else none

def readExponent? (cs : List Char) : Option Nat :=
  let digits :=
    match cs with
    | '+' :: rest => rest
    | _ => cs
  if digits.isEmpty || !digits.all Char.isDigit then none
  else
    let n := digitsValue digits
    if n ≤ 4294967295 then some n else none

def readScientific? (cs : List Char) : Option Decimal :=
  let isMark (c : Char) : Bool := c == 'e' || c == 'E'
  match cs.dropWhile (!isMark ·), readPlain? (cs.takeWhile (!isMark ·)) with
  | _ :: '-' :: digits, some base => (readExponent? digits).bind fun n => base.shift? true n
  | _ :: digits, some base => (readExponent? digits).bind fun n => base.shift? false n
  | _, _ => none

def ofText? (s : String) : Option Decimal := readPlain? s.toList <|> readScientific? s.toList

def text (d : Decimal) : String :=
  let digits := Nat.toDigits 10 d.mantissa
  let padded := List.replicate (d.scale + 1 - digits.length) '0' ++ digits
  let whole := padded.length - d.scale
  let body :=
    if d.scale = 0 then String.ofList padded
    else String.ofList (padded.take whole) ++ "." ++ String.ofList (padded.drop whole)
  (if d.negative then "-" else "") ++ body

/-- Halves `mantissa * 5 ^ k` steps: an even mantissa is halved, an odd one takes a factor five. -/
def growFives : Nat → Nat × Int → Nat × Int
  | 0, r => r
  | count + 1, (mantissa, exponent) =>
    if mantissa % 2 = 0 then growFives count (mantissa / 2, exponent + 1)
    else if mantissa * 5 < mantissaBound then growFives count (mantissa * 5, exponent)
    else growFives count (mantissa / 2, exponent + 1)

/-- Drops places until at most 28 are left; a mantissa that vanishes has none. -/
def fitPlaces : Nat → Nat × Nat → Nat × Nat
  | 0, r => r
  | count + 1, (mantissa, places) =>
    if places ≤ maxScale then (mantissa, places)
    else if mantissa / 10 = 0 then (0, 0)
    else fitPlaces count (dropPlace mantissa, places - 1)

def doubleBound : Nat := 4503599627370496

/-- Drops places while the mantissa has more than 52 bits. -/
def fitDouble : Nat → Nat → Nat × Nat
  | 0, mantissa => (mantissa, 0)
  | places + 1, mantissa =>
    if mantissa < doubleBound then (mantissa, places + 1) else fitDouble places (dropPlace mantissa)

def stripPlaces : Nat → Nat → Nat × Nat
  | 0, mantissa => (mantissa, 0)
  | places + 1, mantissa =>
    if mantissa % 10 = 0 then stripPlaces places (mantissa / 10) else (mantissa, places + 1)

def ofBinary64? (x : Binary64) : Option Decimal :=
  match x.unpack with
  | .finite negative significand exponent =>
    if significand = 0 then some ⟨negative, 0, 0⟩
    else if 0 ≤ exponent then
      let whole := significand * Nat.pow 2 exponent.toNat
      if whole < mantissaBound then some ⟨negative, whole, 0⟩ else none
    else
      let (mantissa, tens) := growFives (-exponent).toNat (significand, exponent)
      let places := (-tens).toNat
      let (mantissa, places) := fitPlaces places (mantissa, places)
      let (mantissa, places) := fitDouble places mantissa
      let (mantissa, places) := stripPlaces places mantissa
      some ⟨negative, mantissa, places⟩
  | _ => none

end Decimal

end BoundQuery
