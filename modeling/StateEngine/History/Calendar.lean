/-!
# The calendar

Days are counted from 1 January 1970, in the Gregorian calendar extended both ways. To count them,
years start in March: then the leap day is the last of its year, and 400 years have 146097 days.

* `Date.ofDay`: the date of a day.
* `Date.day`: the day of a date.
-/

namespace StateEngine

structure Date where
  year : Int
  month : Nat
  day : Nat
  deriving DecidableEq, Repr, Inhabited

namespace Date

/-- The days of 400 years. -/
def eraDays : Nat := 146097

/-- The days from 1 March of the year zero to 1 January 1970. -/
def epochShift : Int := 719468

/-- The year of an era that a day of the era lies in. -/
def yearOfEra (day : Nat) : Nat := (day - day / 1460 + day / 36524 - day / 146096) / 365

/-- The days of an era before one of its years. -/
def daysBeforeYear (year : Nat) : Nat := 365 * year + year / 4 - year / 100

/-- The month, counted from March, that a day of a year lies in. -/
def monthOfYear (day : Nat) : Nat := (5 * day + 2) / 153

/-- The days of a year before one of its months, counted from March. -/
def daysBeforeMonth (month : Nat) : Nat := (153 * month + 2) / 5

/-- **The date of a day.** -/
def ofDay (day : Int) : Date :=
  let shifted := day + epochShift
  let dayOfEra := (shifted % eraDays).toNat
  let year := yearOfEra dayOfEra
  let dayOfYear := dayOfEra - daysBeforeYear year
  let month := monthOfYear dayOfYear
  let civilMonth := if month < 10 then month + 3 else month - 9
  ⟨shifted / eraDays * 400 + year + (if civilMonth ≤ 2 then 1 else 0), civilMonth,
    dayOfYear - daysBeforeMonth month + 1⟩

/-- **The day of a date.** -/
def toDay (date : Date) : Int :=
  let year := if date.month ≤ 2 then date.year - 1 else date.year
  let month := if 2 < date.month then date.month - 3 else date.month + 9
  let dayOfYear := daysBeforeMonth month + date.day - 1
  year / 400 * eraDays + (daysBeforeYear (year % 400).toNat + dayOfYear : Nat) - epochShift

end Date

end StateEngine
