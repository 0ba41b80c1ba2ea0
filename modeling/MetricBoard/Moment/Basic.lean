/-!
# Moments

A moment in universal time: a day counted from 1 January 1970, a second of that day and a
nanosecond. A leap second is the nanosecond range above one thousand million of the 59th second
of its minute, as it has no second of its own in the day. Dates are those of the Gregorian
calendar, also before it was introduced.
-/

namespace MetricBoard

/-- A moment in universal time. -/
structure Moment where
  /-- Days since 1 January 1970. -/
  day : Int
  /-- The second of the day. -/
  second : Fin 86400
  /-- The nanosecond, from one thousand million on in a leap second. -/
  nano : Fin 2000000000
  deriving DecidableEq, Repr

namespace Moment

/-- A date of the Gregorian calendar. -/
structure Date where
  year : Int
  month : Nat
  day : Nat
  deriving DecidableEq, Repr

/-- Whether a year has a 29 February. -/
def isLeapYear (year : Int) : Bool := year % 4 = 0 && (year % 100 != 0 || year % 400 = 0)

/-- The number of days of a month. -/
def daysInMonth (year : Int) (month : Nat) : Nat :=
  match month with
  | 2 => if isLeapYear year then 29 else 28
  | 4 | 6 | 9 | 11 => 30
  | _ => 31

/-- The years whose moments can be told. -/
def firstYear : Int := -262143

/-- The last year whose moments can be told. -/
def lastYear : Int := 262142

/-- Whether a date exists and lies in the range of moments. -/
def Date.isValid (d : Date) : Bool :=
  firstYear ≤ d.year && d.year ≤ lastYear && 1 ≤ d.month && d.month ≤ 12 && 1 ≤ d.day &&
    d.day ≤ daysInMonth d.year d.month

/-- The days from 1 January 1970 to a date. Years are counted from March, so that the leap day
comes last. -/
def Date.toDay (d : Date) : Int :=
  let year := if d.month ≤ 2 then d.year - 1 else d.year
  let month := if d.month ≤ 2 then d.month + 9 else d.month - 3
  365 * year + year / 4 - year / 100 + year / 400 + ((153 * month + 2) / 5 + d.day : Nat) - 719469

/-- The date of a day. -/
def Date.ofDay (day : Int) : Date :=
  let z := day + 719468
  let era := z / 146097
  let dayOfEra := z % 146097
  let yearOfEra := (dayOfEra - dayOfEra / 1460 + dayOfEra / 36524 - dayOfEra / 146096) / 365
  let dayOfYear := (dayOfEra - (365 * yearOfEra + yearOfEra / 4 - yearOfEra / 100)).toNat
  let month := (5 * dayOfYear + 2) / 153
  let dayOfMonth := dayOfYear - (153 * month + 2) / 5 + 1
  let year := yearOfEra + 400 * era
  if month < 10 then ⟨year, month + 3, dayOfMonth⟩ else ⟨year + 1, month - 9, dayOfMonth⟩

/-- The date of a moment. -/
def date (m : Moment) : Date := Date.ofDay m.day

/-- The first day of the range of moments. -/
def firstDay : Int := Date.toDay ⟨firstYear, 1, 1⟩

/-- The last day of the range of moments. -/
def lastDay : Int := Date.toDay ⟨lastYear, 12, 31⟩

/-- The start of 1970. -/
def epoch : Moment := ⟨0, 0, 0⟩

instance : Inhabited Moment := ⟨epoch⟩

/-- The moment at a second counted from the start of 1970, with a nanosecond. -/
def ofSeconds (seconds : Int) (nano : Fin 2000000000) : Moment :=
  ⟨seconds / 86400, ⟨(seconds % 86400).toNat, by omega⟩, nano⟩

/-- The seconds from the start of 1970. -/
def toSeconds (m : Moment) : Int := m.day * 86400 + m.second.val

/-- The moment a number of days earlier, if it is in range. -/
def minusDays? (m : Moment) (days : Nat) : Option Moment :=
  if firstDay ≤ m.day - days then some { m with day := m.day - days } else none

/-- The moment with its microsecond's fraction cut off. -/
def toMicros (m : Moment) : Moment :=
  { m with nano := ⟨m.nano.val / 1000 * 1000, by have := m.nano.isLt; omega⟩ }

end Moment

end MetricBoard
