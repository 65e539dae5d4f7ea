/-!
# Binary floating-point numbers

A number of a binary interchange format is its bit pattern; the value of a finite one is `±
significand * 2 ^ exponent` with natural significand, and every operation here works on that exact
value. `Format.round` is the one rounding: to the nearest number of the format, ties to the even
significand, and to infinity beyond the largest.
-/

namespace BoundQuery
set_option autoImplicit false

/-- A binary format: significand bits with the leading one, and bits of the exponent field. -/
structure Format where
  precision : Nat
  exponentWidth : Nat

inductive Unpacked where
  | nan
  | infinite (negative : Bool)
  /-- The number `± significand * 2 ^ exponent`. -/
  | finite (negative : Bool) (significand : Nat) (exponent : Int)
  deriving DecidableEq, Repr

/-- The integer nearest to `num / den`, of two the even one. -/
def nearestEven (num den : Nat) : Nat :=
  let floor := num / den
  let rest := num % den
  if 2 * rest < den then floor
  else if den < 2 * rest then floor + 1
  else floor + floor % 2

/-- The exponent of the largest power of two that is at most `num / den`. -/
def floorLog2 (num den : Nat) : Int :=
  let guess : Int := (Nat.log2 num : Int) - Nat.log2 den
  let reached :=
    if 0 ≤ guess then den * Nat.pow 2 guess.toNat ≤ num
    else den ≤ num * Nat.pow 2 (-guess).toNat
  if reached then guess else guess - 1

namespace Format

/-- The exponent of the unit in which the smallest numbers are counted. -/
def leastExponent (f : Format) : Int := 3 - (Nat.pow 2 (f.exponentWidth - 1) : Int) - f.precision

/-- The weight of the lowest bit of the exponent field. -/
def hiddenBit (f : Format) : Nat := Nat.pow 2 (f.precision - 1)

def fieldBound (f : Format) : Nat := Nat.pow 2 f.exponentWidth

def infinity (f : Format) : Nat := (f.fieldBound - 1) * f.hiddenBit

def sign (f : Format) (negative : Bool) : Nat :=
  if negative then f.fieldBound * f.hiddenBit else 0

def unpack (f : Format) (bits : Nat) : Unpacked :=
  let fraction := bits % f.hiddenBit
  let field := bits / f.hiddenBit % f.fieldBound
  let negative := bits / f.hiddenBit / f.fieldBound % 2 == 1
  if field = f.fieldBound - 1 then
    if fraction = 0 then .infinite negative else .nan
  else if field = 0 then .finite negative fraction f.leastExponent
  else .finite negative (f.hiddenBit + fraction) (f.leastExponent + field - 1)

def round (f : Format) (negative : Bool) (num den : Nat) : Nat :=
  let exponent := max f.leastExponent (floorLog2 num den - (f.precision - 1 : Nat))
  let count :=
    if 0 ≤ exponent then nearestEven num (den * Nat.pow 2 exponent.toNat)
    else nearestEven (num * Nat.pow 2 (-exponent).toNat) den
  let magnitude :=
    if count < f.hiddenBit then count
    else (exponent - f.leastExponent + 1).toNat * f.hiddenBit + (count - f.hiddenBit)
  f.sign negative + min magnitude f.infinity

end Format

def doubleFormat : Format := ⟨53, 11⟩

def singleFormat : Format := ⟨24, 8⟩

example : doubleFormat.leastExponent = -1074 ∧ singleFormat.leastExponent = -149 := by decide

structure Binary64 where
  bits : UInt64
  deriving DecidableEq, Repr

structure Binary32 where
  bits : UInt32
  deriving DecidableEq, Repr

namespace Unpacked

/-- The magnitude of a finite number as a quotient of naturals. -/
def ratio (significand : Nat) (exponent : Int) : Nat × Nat :=
  if 0 ≤ exponent then (significand * Nat.pow 2 exponent.toNat, 1)
  else (significand, Nat.pow 2 (-exponent).toNat)

def toInt? : Unpacked → Option Int
  | .finite negative significand exponent =>
    let (num, den) := ratio significand exponent
    if num % den = 0 then
      some (if negative then -((num / den : Nat) : Int) else ((num / den : Nat) : Int))
    else none
  | _ => none

end Unpacked

namespace Binary32

def unpack (x : Binary32) : Unpacked := singleFormat.unpack x.bits.toNat

end Binary32

namespace Binary64

def unpack (x : Binary64) : Unpacked := doubleFormat.unpack x.bits.toNat

def ofRatio (negative : Bool) (num den : Nat) : Binary64 :=
  ⟨UInt64.ofNat (doubleFormat.round negative num den)⟩

def ofInt (i : Int) : Binary64 := ofRatio (i < 0) i.natAbs 1

def nan : Binary64 := ⟨0x7ff8000000000000⟩

def infinite (negative : Bool) : Binary64 :=
  ⟨UInt64.ofNat (doubleFormat.sign negative + doubleFormat.infinity)⟩

def zero (negative : Bool) : Binary64 := ⟨UInt64.ofNat (doubleFormat.sign negative)⟩

def neg (x : Binary64) : Binary64 := ⟨x.bits ^^^ 0x8000000000000000⟩

def isFinite (x : Binary64) : Bool :=
  match x.unpack with
  | .finite .. => true
  | _ => false

def magnitude (x : Binary64) : Nat × Nat :=
  match x.unpack with
  | .finite _ significand exponent => Unpacked.ratio significand exponent
  | _ => (0, 1)

def product (x y : Binary64) : Binary64 :=
  ofRatio false (x.magnitude.1 * y.magnitude.1) (x.magnitude.2 * y.magnitude.2)

def quotient (x y : Binary64) : Binary64 :=
  ofRatio false (x.magnitude.1 * y.magnitude.2) (x.magnitude.2 * y.magnitude.1)

def toInt? (x : Binary64) : Option Int := x.unpack.toInt?

/-- Single precision, to the nearest; a number that is none keeps its sign and the high bits. -/
def narrow (x : Binary64) : Binary32 :=
  match x.unpack with
  | .nan =>
    let sign := (x.bits >>> 32).toUInt32 &&& (0x80000000 : UInt32)
    let payload := (x.bits >>> 29).toUInt32 &&& (0x003fffff : UInt32)
    ⟨sign ||| payload ||| (0x7fc00000 : UInt32)⟩
  | .infinite negative => ⟨UInt32.ofNat (singleFormat.sign negative + singleFormat.infinity)⟩
  | .finite negative significand exponent =>
    let (num, den) := Unpacked.ratio significand exponent
    ⟨UInt32.ofNat (singleFormat.round negative num den)⟩

def widen (x : Binary32) : Binary64 :=
  match x.unpack with
  | .nan =>
    let sign := (x.bits.toUInt64 <<< 32) &&& (0x8000000000000000 : UInt64)
    let payload := (x.bits.toUInt64 &&& (0x003fffff : UInt64)) <<< 29
    ⟨sign ||| payload ||| (0x7ff8000000000000 : UInt64)⟩
  | .infinite negative => infinite negative
  | .finite negative significand exponent =>
    let (num, den) := Unpacked.ratio significand exponent
    ofRatio negative num den

end Binary64

def Binary32.ofInt (i : Int) : Binary32 := ⟨UInt32.ofNat (singleFormat.round (i < 0) i.natAbs 1)⟩

end BoundQuery
