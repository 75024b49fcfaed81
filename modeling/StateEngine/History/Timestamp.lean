import StateEngine.History.Calendar

/-!
# Timestamps

A timestamp is an instant in UTC: seconds since the start of 1970, and nanoseconds. In the last
second of a minute the nanoseconds may reach past a second, which is a leap second.

* `Timestamp.text`: `2020-01-01T00:00:00.5Z` and the like, with no, three, six or nine digits of a
  second, the fewest that are exact.
* `Timestamp.ofText?`: the timestamp that such a text stands for.
* `Timestamp.since?`: the time from one instant to another, unless that is negative.
-/

namespace StateEngine

structure Timestamp where
  seconds : Int
  nanos : Nat
  deriving DecidableEq, Repr, Inhabited

/-- A length of time. -/
structure Duration where
  seconds : Nat
  nanos : Nat
  deriving DecidableEq, Repr, Inhabited

namespace Timestamp

/-- The nanoseconds of a second. -/
def second : Nat := 1000000000

/-- The seconds of a day. -/
def daySeconds : Nat := 86400

/-- The first and the last year that a timestamp may lie in. -/
def firstYear : Int := -262143
def lastYear : Int := 262142

/-- The day of a timestamp. -/
def day (t : Timestamp) : Int := t.seconds / daySeconds

/-- The second of its day. -/
def timeOfDay (t : Timestamp) : Nat := (t.seconds % daySeconds).toNat

def date (t : Timestamp) : Date := Date.ofDay t.day

/-- The timestamp of some seconds and nanoseconds, if there is one. -/
def of? (seconds : Int) (nanos : Nat) : Option Timestamp :=
  let t : Timestamp := ⟨seconds, nanos⟩
  if t.date.year < firstYear ∨ lastYear < t.date.year then none
  else if nanos < second ∨ (nanos < 2 * second ∧ t.timeOfDay % 60 = 59) then some t
  else none

/-- **The time from one instant to another**, unless it is negative. A leap second between two times
of day counts. -/
def since? (t start : Timestamp) : Option Duration :=
  let leap : Int :=
    if start.timeOfDay < t.timeOfDay ∧ second ≤ start.nanos then 1
    else if t.timeOfDay < start.timeOfDay ∧ second ≤ t.nanos then -1
    else 0
  let total := (t.seconds - start.seconds + leap) * second + (t.nanos - start.nanos)
  if total < 0 then none else some ⟨(total / second).toNat, (total % second).toNat⟩

/-- The last `width` decimal digits of a number. -/
def lastDigits : (width n : Nat) → List Char
  | 0, _ => []
  | width + 1, n => lastDigits width (n / 10) ++ [Char.ofNat (48 + n % 10)]

/-- A year: four digits, and outside of 0 to 9999 a sign and at least four. -/
def yearChars (year : Int) : List Char :=
  if 0 ≤ year ∧ year ≤ 9999 then lastDigits 4 year.toNat
  else
    let digits := Nat.toDigits 10 year.natAbs
    (if year < 0 then '-' else '+') :: List.replicate (4 - digits.length) '0' ++ digits

/-- The fraction of a second: no, three, six or nine digits. -/
def fractionChars (nanos : Nat) : List Char :=
  if nanos = 0 then []
  else if nanos % 1000000 = 0 then '.' :: lastDigits 3 (nanos / 1000000)
  else if nanos % 1000 = 0 then '.' :: lastDigits 6 (nanos / 1000)
  else '.' :: lastDigits 9 nanos

def dateChars (date : Date) : List Char :=
  yearChars date.year ++ '-' :: lastDigits 2 date.month ++ '-' :: lastDigits 2 date.day

/-- The time of day; the sixtieth second of a minute is a leap second. -/
def timeChars (t : Timestamp) : List Char :=
  let leap := if second ≤ t.nanos then 1 else 0
  lastDigits 2 (t.timeOfDay / 3600) ++ ':' :: lastDigits 2 (t.timeOfDay / 60 % 60) ++
    ':' :: lastDigits 2 (t.timeOfDay % 60 + leap) ++ fractionChars (t.nanos - leap * second)

def chars (t : Timestamp) : List Char := dateChars t.date ++ 'T' :: timeChars t ++ ['Z']

/-- **The text of a timestamp.** -/
def text (t : Timestamp) : String := String.ofList t.chars

/-- The number that some digits write. -/
def ofDigits (digits : List Char) : Nat :=
  digits.foldl (fun n c => n * 10 + (c.toNat - 48)) 0

/-- Exactly `width` digits at the front of a text, as a number, and what follows them. -/
def digits? (width : Nat) (s : List Char) : Option (Nat × List Char) :=
  let front := s.take width
  if front.length = width ∧ front.all Char.isDigit then some (ofDigits front, s.drop width) else none

/-- One given character at the front of a text. -/
def skip? (c : Char) : List Char → Option (List Char)
  | [] => none
  | d :: rest => if d = c then some rest else none

/-- A sign and digits, or four digits. -/
def year? (s : List Char) : Option (Int × List Char) :=
  let signed (sign : Int) (rest : List Char) :=
    let front := rest.takeWhile Char.isDigit
    if front.isEmpty then none
    else some (sign * (ofDigits front : Int), rest.dropWhile Char.isDigit)
  match s with
  | '-' :: rest => signed (-1) rest
  | '+' :: rest => signed 1 rest
  | _ => (digits? 4 s).map fun (n, rest) => (n, rest)

/-- The nanoseconds of a fraction of at most nine digits, if there is one. -/
def fraction? : List Char → Option (Nat × List Char)
  | '.' :: rest =>
    let front := rest.takeWhile Char.isDigit
    if front.isEmpty ∨ 9 < front.length then none
    else some (ofDigits front * Nat.pow 10 (9 - front.length), rest.dropWhile Char.isDigit)
  | s => some (0, s)

/-- Whether a date is in the calendar. -/
def isDate (date : Date) : Bool := Date.ofDay date.toDay = date

/-- The timestamp that the characters of a text stand for. -/
def ofChars? (s : List Char) : Option Timestamp := do
  let (year, s) ← year? s
  let (month, s) ← digits? 2 (← skip? '-' s)
  let (day, s) ← digits? 2 (← skip? '-' s)
  let (hour, s) ← digits? 2 (← skip? 'T' s)
  let (minute, s) ← digits? 2 (← skip? ':' s)
  let (sec, s) ← digits? 2 (← skip? ':' s)
  let (nanos, s) ← fraction? s
  let date : Date := ⟨year, month, day⟩
  if s = ['Z'] ∧ isDate date ∧ hour < 24 ∧ minute < 60 ∧ sec ≤ 60 then
    let leap := if sec = 60 then 1 else 0
    of? (date.toDay * daySeconds + (hour * 3600 + minute * 60 + (sec - leap) : Nat))
      (nanos + leap * second)
  else none

/-- **The timestamp that a text stands for.** -/
def ofText? (s : String) : Option Timestamp := ofChars? s.toList

end Timestamp

end StateEngine
