import BoundQuery.Bytes
import BoundQuery.Number.Decimal

/-!
# The wire form of `numeric`

A number is sent as groups of four decimal digits, most significant first. The weight is the power
of ten thousand of the first group, and the scale the number of decimal places to show. What is
received may have more digits than a `Decimal` holds: places behind the 28th are rounded away, and
then the number is brought to its scale.
-/

namespace BoundQuery.Postgres
set_option autoImplicit false

/-- A number in groups of four digits. -/
structure Numeric where
  negative : Bool
  weight : Int
  scale : Nat
  groups : List Nat
  deriving DecidableEq, Repr

namespace Numeric

def base : Nat := 10000

def groupDigits : Nat := 4

def negativeMark : Nat := 0x4000

/-- From this mark on, what is sent is an infinity or no number. -/
def specialMark : Nat := 0xC000

/-- The groups of a natural number in front of others. -/
def groupsOf (n : Nat) (rest : List Nat) : List Nat :=
  if n = 0 then rest else groupsOf (n / base) (n % base :: rest)
termination_by n
decreasing_by exact Nat.div_lt_self (by omega) (by decide)

def trimZeros (groups : List Nat) : List Nat := (groups.reverse.dropWhile (· == 0)).reverse

/-- A decimal number in groups. Zeros at its end are left out only if it has a whole part. -/
def ofDecimal (d : Decimal) : Numeric :=
  if d.mantissa = 0 then ⟨false, 0, 0, []⟩
  else
    let fractionGroups := (d.scale + groupDigits - 1) / groupDigits
    let groups := groupsOf (d.mantissa * Nat.pow 10 (fractionGroups * groupDigits - d.scale)) []
    let weight : Int := (groups.length : Int) - fractionGroups - 1
    if 0 ≤ weight then
      let whole := (weight + 1).toNat
      ⟨d.negative, weight, d.scale, groups.take whole ++ trimZeros (groups.drop whole)⟩
    else ⟨d.negative, weight, d.scale, groups⟩

def encode (n : Numeric) : Bytes :=
  Bytes.bigEndian 2 n.groups.length ++ Bytes.bigEndianInt 2 n.weight
    ++ Bytes.bigEndian 2 (if n.negative then negativeMark else 0) ++ Bytes.bigEndian 2 n.scale
    ++ n.groups.flatMap (Bytes.bigEndian 2)

def readGroups? : Nat → Bytes → Option (List Nat)
  | 0, _ => some []
  | count + 1, high :: low :: rest =>
    (readGroups? count rest).map (Bytes.toNatural [high, low] :: ·)
  | _ + 1, _ => none

def decode? (bytes : Bytes) : Option Numeric :=
  let mark := Bytes.toNatural ((bytes.drop 4).take 2)
  if bytes.length < 8 ∨ specialMark ≤ mark then none
  else
    (readGroups? (Bytes.toNatural (bytes.take 2)) (bytes.drop 8)).map fun groups =>
      ⟨mark = negativeMark, Bytes.toInteger ((bytes.drop 2).take 2),
        Bytes.toNatural ((bytes.drop 6).take 2), groups⟩

/-- A mantissa and its places, with as many of the places as fit; ties go to the even digit. -/
def fit? (mantissa scale : Nat) : Option (Nat × Nat) :=
  (List.range (scale + 1)).findSome? fun dropped =>
    let shorter := nearestEven mantissa (Nat.pow 10 dropped)
    if shorter < Decimal.mantissaBound then some (shorter, scale - dropped) else none

/-- The sum of a number and `units / 10 ^ places`, if its whole part fits. -/
def addPlaces? (mantissa scale units places : Nat) : Option (Nat × Nat) :=
  let common := max scale places
  fit? (mantissa * Nat.pow 10 (common - scale) + units * Nat.pow 10 (common - places)) common

/--
Adds the groups of a fraction, the first of which has so many places. The group behind the 28th
place only rounds it.
-/
def addFraction? (places : Nat) : List Nat → Nat × Nat → Option (Nat × Nat)
  | [], sum => some sum
  | group :: rest, (mantissa, scale) =>
    let sum :=
      if places ≤ Decimal.maxScale then addPlaces? mantissa scale group places
      else if places = Decimal.maxScale + groupDigits ∧ base / 2 ≤ group then
        addPlaces? mantissa scale 1 Decimal.maxScale
      else some (mantissa, scale)
    sum.bind (addFraction? (places + groupDigits) rest)

/--
The whole number of groups, of which so many are missing at the end, if it fits. What the missing
groups multiply by has to fit even if the product is zero.
-/
def wholePart? (groups : List Nat) (missing : Nat) : Option Nat :=
  if Decimal.maxScale < groupDigits * missing then none
  else
    let n := groups.foldl (fun sum group => sum * base + group) 0 * Nat.pow base missing
    if n < Decimal.mantissaBound then some n else none

def addZeros (mantissa scale : Nat) : Nat → Nat × Nat
  | 0 => (mantissa, scale)
  | count + 1 =>
    if mantissa * 10 < Decimal.mantissaBound then addZeros (mantissa * 10) (scale + 1) count
    else (mantissa, scale)

def rescale (negative : Bool) (mantissa scale wanted : Nat) : Decimal :=
  if mantissa = 0 then ⟨negative, 0, wanted⟩
  else if wanted ≤ scale then ⟨negative, Decimal.dropPlaces mantissa (scale - wanted), wanted⟩
  else
    let (mantissa, scale) := addZeros mantissa scale (wanted - scale)
    ⟨negative, mantissa, scale⟩

def toDecimal? (n : Numeric) : Option Decimal := do
  let whole := (n.weight + 1).toNat
  let skipped := (-n.weight - 1).toNat
  let integer ← wholePart? (n.groups.take whole) (whole - n.groups.length)
  let (mantissa, scale) ←
    addFraction? (groupDigits * (skipped + 1)) (n.groups.drop whole) (integer, 0)
  return rescale n.negative mantissa scale (min n.scale Decimal.maxScale)

end Numeric

end BoundQuery.Postgres
