import BoundQuery.Calendar.Date
import BoundQuery.Number.FloatText
import BoundQuery.Text.Blank

/-!
# Reading dates and times

The numbers of a date or a time need no leading zeros and may stand after blanks. A year without
sign has at most four digits, one with a sign any number of them. Digits of a fraction behind the
ninth are dropped. Date and time of a timestamp are parted by `T` or by blanks; a timestamp in
universal time also names the offset of its clock from universal time.
-/

namespace BoundQuery.Calendar
set_option autoImplicit false

def digits? (most : Nat) (cs : List Char) : Option (Nat × List Char) :=
  let found := (cs.take most).takeWhile Char.isDigit
  if found.isEmpty then none else some (digitsValue found, cs.drop found.length)

def number? (most : Nat) (cs : List Char) : Option (Nat × List Char) :=
  digits? most (Text.trimLeft cs)

def year? (cs : List Char) : Option (Int × List Char) :=
  match Text.trimLeft cs with
  | '-' :: rest => (digits? rest.length rest).map fun (n, rest) => (-(n : Int), rest)
  | '+' :: rest => (digits? rest.length rest).map fun (n, rest) => ((n : Int), rest)
  | cs => (digits? 4 cs).map fun (n, rest) => ((n : Int), rest)

/-- Whether blanks may stand before a separator. -/
inductive Spacing where
  | loose
  | tight
  deriving DecidableEq, Repr

def separator? (spacing : Spacing) (c : Char) (cs : List Char) : Option (List Char) :=
  let cs := if spacing = .loose then Text.trimLeft cs else cs
  match cs with
  | d :: rest => if d = c then some rest else none
  | [] => none

/-- A date at the front, not yet looked up in the calendar. -/
def readDate? (spacing : Spacing) (cs : List Char) : Option ((Int × Nat × Nat) × List Char) := do
  let (year, cs) ← year? cs
  let cs ← separator? spacing '-' cs
  let (month, cs) ← number? 2 cs
  let cs ← separator? spacing '-' cs
  let (day, cs) ← number? 2 cs
  return ((year, month, day), cs)

def readMinute? (spacing : Spacing) (cs : List Char) : Option ((Nat × Nat) × List Char) := do
  let (hour, cs) ← number? 2 cs
  let cs ← separator? spacing ':' cs
  let (minute, cs) ← number? 2 cs
  return ((hour, minute), cs)

def readFraction? : List Char → Option (Nat × List Char)
  | '.' :: rest =>
    (digits? 9 rest).map fun (n, left) =>
      (n * Nat.pow 10 (9 - (rest.length - left.length)), left.dropWhile Char.isDigit)
  | cs => some (0, cs)

def readSecond? (spacing : Spacing) (cs : List Char) : Option ((Nat × Nat) × List Char) := do
  let cs ← separator? spacing ':' cs
  let (second, cs) ← number? 2 cs
  let (nanos, cs) ← readFraction? cs
  return ((second, nanos), cs)

def readClock? (spacing : Spacing) (cs : List Char) : Option (Clock × List Char) := do
  let ((hour, minute), cs) ← readMinute? spacing cs
  let ((second, nanos), cs) ← readSecond? spacing cs
  let clock ← Clock.ofParts? hour minute second nanos
  return (clock, cs)

/-- What was read, if only blanks are left. -/
def finished? {α : Type} (value : α) (cs : List Char) : Option α :=
  if cs.all Text.isBlank then some value else none

def pair? : List Char → Option (Nat × List Char)
  | a :: b :: rest => if a.isDigit && b.isDigit then some (digitsValue [a, b], rest) else none
  | _ => none

def readOffset? (negative : Bool) (cs : List Char) : Option (Int × List Char) := do
  let (hours, cs) ← pair? cs
  let (minutes, cs) ← pair? (cs.dropWhile fun c => c == ':' || Text.isBlank c)
  let seconds : Int := (hours * 3600 + minutes * 60 : Nat)
  if minutes < 60 ∧ hours < 24 then return (if negative then -seconds else seconds, cs) else none

/-- An offset from universal time in seconds: `UTC`, `Z` or hours and minutes after a sign. -/
def readZone? (cs : List Char) : Option (Int × List Char) :=
  if (cs.take 3).map Char.toLower = "utc".toList then some (0, cs.drop 3)
  else match cs with
    | 'Z' :: rest => some (0, rest)
    | 'z' :: rest => some (0, rest)
    | '+' :: rest => readOffset? false rest
    | '-' :: rest => readOffset? true rest
    | '\u2212' :: rest => readOffset? true rest
    | _ => none

end BoundQuery.Calendar

namespace BoundQuery
set_option autoImplicit false

open Calendar

def Date.ofText? (s : String) : Option Date := do
  let ((year, month, day), rest) ← readDate? .loose s.toList
  finished? () rest
  Date.ofParts? year month day

def Clock.ofText? (s : String) : Option Clock := do
  let ((hour, minute), rest) ← readMinute? .loose s.toList
  match readSecond? .loose rest with
  | some ((second, nanos), rest) =>
    finished? () rest
    Clock.ofParts? hour minute second nanos
  | none =>
    finished? () rest
    Clock.ofParts? hour minute 0 0

namespace Timestamp

def ofMarkedText? (s : String) : Option Timestamp := do
  let ((year, month, day), rest) ← readDate? .loose s.toList
  let rest ← separator? .loose 'T' rest
  let (clock, rest) ← readClock? .loose rest
  finished? () rest
  let date ← Date.ofParts? year month day
  return ⟨date, clock⟩

def ofSpacedText? (s : String) : Option Timestamp := do
  let ((year, month, day), rest) ← readDate? .tight s.toList
  let (clock, rest) ← readClock? .tight rest
  if rest.isEmpty then
    let date ← Date.ofParts? year month day
    return ⟨date, clock⟩
  else none

def ofText? (s : String) : Option Timestamp := ofMarkedText? s <|> ofSpacedText? s

def ofZonedText? (s : String) : Option Timestamp := do
  let ((year, month, day), rest) ← readDate? .loose s.toList
  match rest with
  | [] => none
  | c :: rest =>
    if c = 't' ∨ c = 'T' ∨ c = ' ' then
      let (clock, rest) ← readClock? .loose rest
      let (offset, rest) ← readZone? (Text.trimLeft rest)
      finished? () rest
      let date ← Date.ofParts? year month day
      earlier? ⟨date, clock⟩ offset
    else none

end Timestamp

end BoundQuery
