import BoundQuery.Bytes
import BoundQuery.Calendar.Date
import BoundQuery.Number.FloatText
import BoundQuery.Toml.Table

/-!
# TOML values without quotes

Booleans, integers in 64 bits with sign, floats, and dates and times. Digits may be separated by
single underscores; a decimal number has no leading zeros. A float beyond the range is refused.
-/

namespace BoundQuery.Toml
set_option autoImplicit false

/-- The digits of a number without the underscores, each of which stands between two digits. -/
def plainDigits? (isDigit : Char → Bool) : List Char → Option (List Char)
  | [] => none
  | [c] => if isDigit c then some [c] else none
  | c :: '_' :: rest => if isDigit c then (plainDigits? isDigit rest).map (c :: ·) else none
  | c :: rest => if isDigit c then (plainDigits? isDigit rest).map (c :: ·) else none

/-- Decimal digits, of which the first is zero only if it is the only one. -/
def wholeDigits? (cs : List Char) : Option (List Char) :=
  match plainDigits? Char.isDigit cs with
  | some ('0' :: _ :: _) => none
  | found => found

def integer? (n : Int) : Option Toml :=
  if Text.IsInt64 n then some (.integer n) else none

def splitSign : List Char → Bool × List Char
  | '-' :: rest => (true, rest)
  | '+' :: rest => (false, rest)
  | cs => (false, cs)

def readDecimal? (cs : List Char) : Option Toml := do
  let (negative, cs) := splitSign cs
  let digits ← wholeDigits? cs
  let n : Int := digitsValue digits
  integer? (if negative then -n else n)

def baseValue (base : Nat) (digits : List Char) : Nat :=
  digits.foldl (fun sum c => sum * base + (Bytes.hexValue? c).getD 0) 0

def readBased? (base : Nat) (cs : List Char) : Option Toml := do
  let digits ← plainDigits? (fun c => (Bytes.hexValue? c).any fun value => value < base) cs
  integer? (baseValue base digits)

def readInteger? : List Char → Option Toml
  | '0' :: 'x' :: rest => readBased? 16 rest
  | '0' :: 'o' :: rest => readBased? 8 rest
  | '0' :: 'b' :: rest => readBased? 2 rest
  | cs => readDecimal? cs

def readExponent? (cs : List Char) : Option Int := do
  let (negative, cs) := splitSign cs
  let digits ← plainDigits? Char.isDigit cs
  let n : Int := digitsValue digits
  return if negative then -n else n

def isExponentMark (c : Char) : Bool := c == 'e' || c == 'E'

/-- The digits of a float without sign: a whole part, and a fraction, an exponent or both. -/
def readDecimals? (cs : List Char) : Option Decimals := do
  let mantissa := cs.takeWhile (!isExponentMark ·)
  let exponent ←
    match cs.dropWhile (!isExponentMark ·) with
    | [] => some 0
    | _ :: rest => readExponent? rest
  let whole ← wholeDigits? (mantissa.takeWhile (· != '.'))
  match mantissa.dropWhile (· != '.') with
  | [] => if cs.length = mantissa.length then none else some ⟨digitsValue whole, exponent⟩
  | _ :: rest =>
    let fraction ← plainDigits? Char.isDigit rest
    return ⟨digitsValue (whole ++ fraction), exponent - fraction.length⟩

def readFloat? (cs : List Char) : Option Toml :=
  let (negative, cs) := splitSign cs
  if cs = "inf".toList then some (.float (Binary64.infinite negative))
  else if cs = "nan".toList then some (.float (if negative then Binary64.nan.neg else Binary64.nan))
  else
    (readDecimals? cs).bind fun d =>
      let x := Binary64.ofDecimals negative d
      if x.isFinite then some (.float x) else none

def exactly? (count : Nat) (cs : List Char) : Option (Nat × List Char) :=
  let found := cs.take count
  if found.length = count ∧ found.all Char.isDigit then some (digitsValue found, cs.drop count)
  else none

def skip? (c : Char) : List Char → Option (List Char)
  | d :: rest => if d = c then some rest else none
  | [] => none

def skipDate? (cs : List Char) : Option (List Char) := do
  let (year, cs) ← exactly? 4 cs
  let cs ← skip? '-' cs
  let (month, cs) ← exactly? 2 cs
  let cs ← skip? '-' cs
  let (day, cs) ← exactly? 2 cs
  if (Date.ofParts? year month day).isSome then return cs else none

def skipFraction? : List Char → Option (List Char)
  | '.' :: c :: rest => if c.isDigit then some (rest.dropWhile Char.isDigit) else none
  | '.' :: [] => none
  | cs => some cs

/-- Skips the second of a time and its fraction, if they are there; the second may be a leap second.
-/
def skipSecond? : List Char → Option (List Char)
  | ':' :: rest => do
    let (second, cs) ← exactly? 2 rest
    if second ≤ 60 then skipFraction? cs else none
  | cs => some cs

def skipMinute? (cs : List Char) : Option (List Char) := do
  let (hour, cs) ← exactly? 2 cs
  let cs ← skip? ':' cs
  let (minute, cs) ← exactly? 2 cs
  if hour < 24 ∧ minute < 60 then return cs else none

def skipClock? (cs : List Char) : Option (List Char) := (skipMinute? cs).bind skipSecond?

def skipZone? : List Char → Option (List Char)
  | 'Z' :: rest => some rest
  | 'z' :: rest => some rest
  | '+' :: rest => skipMinute? rest
  | '-' :: rest => skipMinute? rest
  | cs => some cs

/-- Whether a text is a date, a time, or a date and a time with or without an offset. -/
def isMoment (cs : List Char) : Bool :=
  match skipDate? cs with
  | some [] => true
  | some (c :: rest) =>
    (c == 'T' || c == 't' || c == ' ') &&
      ((skipClock? rest).bind skipZone?).map List.isEmpty == some true
  | none => (skipClock? cs).map List.isEmpty == some true

def readScalar? (cs : List Char) : Option Toml :=
  if cs = "true".toList then some (.boolean true)
  else if cs = "false".toList then some (.boolean false)
  else if isMoment cs then some (.moment (.ofList cs))
  else readInteger? cs <|> readFloat? cs

end BoundQuery.Toml
