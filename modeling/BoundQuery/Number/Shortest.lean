import BoundQuery.Number.Binary

/-!
# Shortest decimal digits

Every real between two halfway points rounds to the same binary number, the halfway points too if
its significand is even. `Binary64.shortest` finds in that interval the decimal number with the
fewest digits, and of those the one nearest to the binary number. For one digit, two digits and so
on it looks at the two neighbours of the number on the grid of that many digits; if the grid has a
point in the interval, one of these two is.
-/

namespace BoundQuery
set_option autoImplicit false

/-- Which of two equally near digits is taken: the greater one or the even one. -/
inductive Tie where
  | up
  | even
  deriving DecidableEq, Repr

structure Decimals where
  digits : Nat
  exponent : Int
  deriving DecidableEq, Repr

namespace Decimals

def strip : Nat → Decimals → Decimals
  | 0, d => d
  | count + 1, d => if d.digits % 10 = 0 then strip count ⟨d.digits / 10, d.exponent + 1⟩ else d

def lead (d : Decimals) : Int := ((Nat.toDigits 10 d.digits).length : Int) - 1 + d.exponent

end Decimals

def floorLog10 (num den : Nat) : Int :=
  let guess := floorLog2 num den * 30103 / 100000
  let reached (k : Int) : Bool :=
    if 0 ≤ k then den * Nat.pow 10 k.toNat ≤ num else den ≤ num * Nat.pow 10 (-k).toNat
  if reached (guess + 1) then guess + 1 else if reached guess then guess else guess - 1

/--
The numbers that round to one binary number, in quarters of its unit: `low` and `high` are the ends,
`centre` the number itself, `closed` says whether the ends belong to it, and a quarter is `num /
den`.
-/
structure RoundingInterval where
  low : Nat
  centre : Nat
  high : Nat
  closed : Bool
  num : Nat
  den : Nat

namespace RoundingInterval

/-- The interval of `significand * 2 ^ exponent`. Below a power of two the unit is half as large. -/
def around (f : Format) (significand : Nat) (exponent : Int) : RoundingInterval where
  low :=
    if significand = f.hiddenBit ∧ f.leastExponent < exponent then 4 * significand - 1
    else 4 * significand - 2
  centre := 4 * significand
  high := 4 * significand + 2
  closed := significand % 2 == 0
  num := if 2 ≤ exponent then Nat.pow 2 (exponent - 2).toNat else 1
  den := if 2 ≤ exponent then 1 else Nat.pow 2 (2 - exponent).toNat

/-- The neighbour on the grid of multiples of `10 ^ grid` that is nearest within the interval. -/
def onGrid? (i : RoundingInterval) (tie : Tie) (grid : Int) : Option Nat :=
  let quarter := if 0 ≤ grid then i.num else i.num * Nat.pow 10 (-grid).toNat
  let step := if 0 ≤ grid then i.den * Nat.pow 10 grid.toNat else i.den
  let below := i.centre * quarter / step
  let inside (n : Nat) : Bool :=
    if i.closed then i.low * quarter ≤ n * step && n * step ≤ i.high * quarter
    else i.low * quarter < n * step && n * step < i.high * quarter
  let rest := i.centre * quarter - below * step
  let takeAbove : Bool :=
    if 2 * rest < step then false
    else if step < 2 * rest then true
    else match tie with
      | .up => true
      | .even => below % 2 == 1
  if inside below && inside (below + 1) then some (if takeAbove then below + 1 else below)
  else if inside below then some below
  else if inside (below + 1) then some (below + 1)
  else none

/-- The first grid with a point in the interval, from `grid` on over at most `count` finer ones. -/
def search (i : RoundingInterval) (tie : Tie) : Nat → Int → Decimals
  | 0, grid => ⟨i.centre * i.num / i.den, min 0 grid - grid⟩
  | count + 1, grid =>
    match i.onGrid? tie grid with
    | some n => ⟨n, grid⟩
    | none => i.search tie count (grid - 1)

end RoundingInterval

def Format.shortest (f : Format) (tie : Tie) (significand : Nat) (exponent : Int) : Decimals :=
  let i := RoundingInterval.around f significand exponent
  let lead := floorLog10 (i.centre * i.num) i.den
  (i.search tie 18 lead).strip 2

end BoundQuery
