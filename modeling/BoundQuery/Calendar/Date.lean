import BoundQuery.Text.Numeral

/-!
# Dates, times of day and timestamps

The calendar is the Gregorian one, extended to all years in both directions; the year before year
one is year zero. Days and microseconds are counted from the beginning of the year 2000. A time of
day may lie in a leap second, whose nanoseconds go on counting behind those of the second before it.
-/

namespace BoundQuery
set_option autoImplicit false

namespace Calendar

def isLeap (year : Int) : Bool := year % 4 == 0 && (year % 100 != 0 || year % 400 == 0)

def monthLengths (year : Int) : List Nat :=
  [31, if isLeap year then 29 else 28, 31, 30, 31, 30, 31, 31, 30, 31, 30, 31]

def monthLength (year : Int) (month : Nat) : Nat :=
  if month = 0 then 0 else ((monthLengths year)[month - 1]?).getD 0

def daysOfMonths : Nat → List Nat → Nat
  | 0, _ => 0
  | _, [] => 0
  | count + 1, length :: rest => length + daysOfMonths count rest

/-- The days from the beginning of year one to the beginning of a year. -/
def daysBefore (year : Int) : Int :=
  365 * (year - 1) + (year - 1) / 4 - (year - 1) / 100 + (year - 1) / 400

/-- The year in which the day with a number lies, counted from the beginning of year one. -/
def yearOf (days : Int) : Int :=
  let guess := days * 400 / 146097 + 1
  if days < daysBefore guess then guess - 1
  else if daysBefore (guess + 1) ≤ days then guess + 1
  else guess

/-- The month, counted from `month`, and the day of it, after a number of days. -/
def monthOf (month : Nat) : List Nat → Nat → Nat × Nat
  | [], days => (month, days + 1)
  | length :: rest, days =>
    if days < length then (month, days + 1) else monthOf (month + 1) rest (days - length)

def epochYear : Int := 2000

def firstYear : Int := -262143

def lastYear : Int := 262142

end Calendar

structure Date where
  year : Int
  month : Nat
  day : Nat
  deriving DecidableEq, Repr

namespace Date

def ofParts? (year : Int) (month day : Nat) : Option Date :=
  if Calendar.firstYear ≤ year ∧ year ≤ Calendar.lastYear ∧
      1 ≤ day ∧ day ≤ Calendar.monthLength year month
  then some ⟨year, month, day⟩ else none

def toDays (d : Date) : Int :=
  Calendar.daysBefore d.year + Calendar.daysOfMonths (d.month - 1) (Calendar.monthLengths d.year) +
    d.day - 1
    - Calendar.daysBefore Calendar.epochYear

def ofDays? (days : Int) : Option Date :=
  let days := days + Calendar.daysBefore Calendar.epochYear
  let year := Calendar.yearOf days
  let (month, day) :=
    Calendar.monthOf 1 (Calendar.monthLengths year) (days - Calendar.daysBefore year).toNat
  ofParts? year month day

/-- A year in four digits, with its sign if it needs more or lies before year zero. -/
def yearText (year : Int) : String :=
  let digits := Text.padded 4 year.natAbs
  if year < 0 then "-" ++ digits else if year ≤ 9999 then digits else "+" ++ digits

def text (d : Date) : String :=
  yearText d.year ++ "-" ++ Text.padded 2 d.month ++ "-" ++ Text.padded 2 d.day

end Date

/-- A time of day: whole seconds since midnight, and nanoseconds, from a full second on in a leap
second. -/
structure Clock where
  seconds : Nat
  nanos : Nat
  deriving DecidableEq, Repr

namespace Clock

def daySeconds : Nat := 86400

def secondNanos : Nat := 1000000000

/-- The time with these numbers, if there is one. The second with the number 60 is a leap second. -/
def ofParts? (hour minute second nanos : Nat) : Option Clock :=
  if hour < 24 ∧ minute < 60 then
    if second < 60 then some ⟨hour * 3600 + minute * 60 + second, nanos⟩
    else if second = 60 then some ⟨hour * 3600 + minute * 60 + 59, nanos + secondNanos⟩
    else none
  else none

def toNanos (c : Clock) : Nat := c.seconds * secondNanos + c.nanos

def ofMicros (micros : Nat) : Clock := ⟨micros / 1000000, micros % 1000000 * 1000⟩

/-- The nanoseconds after a point: none, or three, six or nine digits. -/
def fractionText (nanos : Nat) : String :=
  if nanos = 0 then ""
  else if nanos % 1000000 = 0 then "." ++ Text.padded 3 (nanos / 1000000)
  else if nanos % 1000 = 0 then "." ++ Text.padded 6 (nanos / 1000)
  else "." ++ Text.padded 9 nanos

def text (c : Clock) : String :=
  let leap := secondNanos ≤ c.nanos
  let second := c.seconds % 60 + (if leap then 1 else 0)
  let nanos := if leap then c.nanos - secondNanos else c.nanos
  Text.padded 2 (c.seconds / 3600) ++ ":" ++ Text.padded 2 (c.seconds / 60 % 60) ++ ":"
    ++ Text.padded 2 second ++ fractionText nanos

end Clock

structure Timestamp where
  date : Date
  clock : Clock
  deriving DecidableEq, Repr

namespace Timestamp

/-- The microseconds since the epoch; what is left of a microsecond is dropped towards zero. -/
def toMicros (t : Timestamp) : Int :=
  (t.date.toDays * (Clock.daySeconds * Clock.secondNanos : Nat) + t.clock.toNanos).tdiv 1000

def ofMicros? (micros : Int) : Option Timestamp :=
  let dayMicros : Int := (Clock.daySeconds * 1000000 : Nat)
  (Date.ofDays? (micros / dayMicros)).map fun date => ⟨date, .ofMicros (micros % dayMicros).toNat⟩

def earlier? (t : Timestamp) (seconds : Int) : Option Timestamp :=
  let moved : Int := t.clock.seconds - seconds
  (Date.ofDays? (t.date.toDays + moved / (Clock.daySeconds : Int))).map fun date =>
    ⟨date, ⟨(moved % (Clock.daySeconds : Int)).toNat, t.clock.nanos⟩⟩

def text (t : Timestamp) : String := t.date.text ++ "T" ++ t.clock.text

def universalText (t : Timestamp) : String := t.text ++ "+00:00"

end Timestamp

end BoundQuery
