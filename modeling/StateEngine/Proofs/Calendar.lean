import Mathlib.Tactic.IntervalCases
import StateEngine.History.Calendar

/-!
# Days and dates

A day is at a place in its era of 400 years: a year and a month, both counted from March, and a rest of days. Dates
are found by way of the place and lead back to it, so that days and the dates of the Gregorian calendar belong
together one by one.

* `Date.Valid`: the dates of the calendar, whose months have their lengths.
* `Date.Place`: the place of a day in its era.
* `Date.ofDay_valid`: **each day has a date of the calendar**.
* `Date.toDay_ofDay`, `Date.Valid.ofDay_toDay`: **days and dates belong together**.
-/

namespace StateEngine

namespace Date

/-! ## The calendar -/

/-- Whether a year has a leap day. -/
def IsLeap (year : Int) : Prop := year % 4 = 0 ∧ (year % 100 ≠ 0 ∨ year % 400 = 0)

instance (year : Int) : Decidable (IsLeap year) := inferInstanceAs (Decidable (_ ∧ _))

/-- The days of a month. -/
def monthDays (year : Int) : Nat → Nat
  | 2 => if IsLeap year then 29 else 28
  | 4 => 30
  | 6 => 30
  | 9 => 30
  | 11 => 30
  | _ => 31

theorem monthDays_le (year : Int) (month : Nat) : monthDays year month ≤ 31 := by
  unfold monthDays
  split
  · split <;> decide
  all_goals decide

/-- **Whether a date is in the calendar.** -/
structure Valid (date : Date) : Prop where
  month_pos : 1 ≤ date.month
  month_le : date.month ≤ 12
  day_pos : 1 ≤ date.day
  day_le : date.day ≤ monthDays date.year date.month

/-- Eras do not change which of their years have leap days. -/
theorem isLeap_era (era year : Int) : IsLeap (era * 400 + year) ↔ IsLeap year := by
  have h4 : (era * 400 + year) % 4 = year % 4 := by omega
  have h100 : (era * 400 + year) % 100 = year % 100 := by omega
  have h400 : (era * 400 + year) % 400 = year % 400 := by omega
  rw [IsLeap, IsLeap, h4, h100, h400]

/-! ## Years and months of an era -/

/-- Whether a day is one of a year of an era. Years start in March, so that a leap day is the last one, and belongs
to the next year. -/
def InYear (year day : Nat) : Prop := day < 365 ∨ day = 365 ∧ year % 4 = 3 ∧ (year % 100 ≠ 99 ∨ year = 399)

/-- **The year that a day of an era lies in**: it has begun by then, and the day is one of its days. -/
theorem yearOfEra_spec {day : Nat} (h : day < eraDays) :
    yearOfEra day < 400 ∧ daysBeforeYear (yearOfEra day) ≤ day ∧
      InYear (yearOfEra day) (day - daysBeforeYear (yearOfEra day)) := by
  unfold eraDays at h
  generalize hyear : yearOfEra day = year
  unfold daysBeforeYear InYear
  rcases Nat.lt_or_ge day 146096 with hday | hday
  · have hcentury : day / 36524 = 0 ∨ day / 36524 = 1 ∨ day / 36524 = 2 ∨ day / 36524 = 3 := by omega
    have hcounted : 365 * year ≤ day - day / 1460 + day / 36524 ∧
        day - day / 1460 + day / 36524 < 365 * year + 365 := by
      unfold yearOfEra at hyear
      omega
    have hyearCentury : year / 100 = day / 36524 := by omega
    have hfours : day / 1460 = year / 4 ∨ day / 1460 = year / 4 + 1 := by omega
    omega
  · obtain rfl : day = 146096 := by omega
    subst hyear
    decide

theorem daysBeforeYear_mono {year later : Nat} (h : year ≤ later) : daysBeforeYear year ≤ daysBeforeYear later := by
  unfold daysBeforeYear
  rcases Nat.eq_or_lt_of_le h with rfl | hlt
  · exact Nat.le_refl _
  · omega

/-- The days of a year come before the next one. -/
theorem InYear.lt {year day : Nat} (hyear : year < 399) (h : InYear year day) :
    daysBeforeYear year + day < daysBeforeYear (year + 1) := by
  unfold InYear at h
  unfold daysBeforeYear
  omega

theorem InYear.lt_eraDays {year day : Nat} (hyear : year < 400) (h : InYear year day) :
    daysBeforeYear year + day < eraDays := by
  unfold InYear at h
  unfold daysBeforeYear eraDays
  omega

/-- A year of an era is the one that its days lie in. -/
theorem InYear.yearOfEra_eq {year day : Nat} (hyear : year < 400) (h : InYear year day) :
    yearOfEra (daysBeforeYear year + day) = year := by
  obtain ⟨hlt, hle, hdays⟩ := yearOfEra_spec (h.lt_eraDays hyear)
  generalize yearOfEra (daysBeforeYear year + day) = found at *
  rcases Nat.lt_trichotomy found year with hfound | hfound | hfound
  · have hnext := hdays.lt (by omega)
    have hmono := daysBeforeYear_mono (show found + 1 ≤ year by omega)
    omega
  · exact hfound
  · have hnext := h.lt (by omega)
    have hmono := daysBeforeYear_mono (show year + 1 ≤ found by omega)
    omega

/-- The month, counted from March, that a day of a year lies in: it has begun by then, and the next one has not. -/
theorem monthOfYear_spec (day : Nat) :
    daysBeforeMonth (monthOfYear day) ≤ day ∧ day < daysBeforeMonth (monthOfYear day + 1) := by
  unfold monthOfYear daysBeforeMonth
  omega

theorem InYear.monthOfYear_lt {year day : Nat} (h : InYear year day) : monthOfYear day < 12 := by
  unfold InYear at h
  unfold monthOfYear
  omega

/-- A month, counted from March, is the one that its days lie in. -/
theorem monthOfYear_eq {month rest : Nat} (h : daysBeforeMonth month + rest < daysBeforeMonth (month + 1)) :
    monthOfYear (daysBeforeMonth month + rest) = month := by
  unfold daysBeforeMonth at *
  unfold monthOfYear
  omega

/-- The month of the calendar for one that is counted from March. -/
def civilMonth (month : Nat) : Nat := if month < 10 then month + 3 else month - 9

/-- The days of the months before February, which comes last. -/
theorem le_monthDays_iff {month rest : Nat} (hmonth : month < 11) (year : Int) :
    rest + 1 ≤ monthDays year (civilMonth month) ↔
      daysBeforeMonth month + rest < daysBeforeMonth (month + 1) := by
  unfold daysBeforeMonth
  interval_cases month <;> simp [monthDays, civilMonth] <;> omega

theorem inYear_of_month {month rest : Nat} (hmonth : month < 11)
    (h : daysBeforeMonth month + rest < daysBeforeMonth (month + 1)) (year : Nat) :
    InYear year (daysBeforeMonth month + rest) := by
  unfold daysBeforeMonth at *
  exact .inl (by omega)

/-- The last day of a year from March is a leap day of the next one. -/
theorem inYear_last (era : Int) {year : Nat} (hyear : year < 400) :
    InYear year 365 ↔ IsLeap (era * 400 + year + 1) := by
  rw [Int.add_assoc, isLeap_era]
  have h4 : (year + 1 : Int) % 4 = 0 ↔ year % 4 = 3 := by omega
  have h100 : (year + 1 : Int) % 100 = 0 ↔ year % 100 = 99 := by omega
  have h400 : (year + 1 : Int) % 400 = 0 ↔ year = 399 := by omega
  simp [IsLeap, InYear, h4, h100, h400]

/-- The days of February, which belongs to the next year. -/
theorem le_february_iff {era : Int} {year rest : Nat} (hyear : year < 400) :
    rest + 1 ≤ monthDays (era * 400 + year + 1) 2 ↔
      daysBeforeMonth 11 + rest < daysBeforeMonth 12 ∧ InYear year (daysBeforeMonth 11 + rest) := by
  change rest + 1 ≤ (if IsLeap (era * 400 + year + 1) then 29 else 28) ↔ _
  rw [show daysBeforeMonth 11 = 337 from rfl, show daysBeforeMonth 12 = 367 from rfl]
  by_cases hlast : rest = 28
  · subst hlast
    rw [inYear_last era hyear]
    by_cases hleap : IsLeap (era * 400 + year + 1) <;> simp [hleap]
  · unfold InYear
    split <;> omega

/-! ## Places -/

/-- A day by its place in an era. Years and months are counted from March. -/
structure Place where
  era : Int
  year : Nat
  month : Nat
  rest : Nat
  year_lt : year < 400
  month_lt : month < 12
  in_month : daysBeforeMonth month + rest < daysBeforeMonth (month + 1)
  in_year : InYear year (daysBeforeMonth month + rest)

namespace Place

variable (place : Place)

/-- The day at a place. -/
def day : Int :=
  place.era * eraDays + (daysBeforeYear place.year + (daysBeforeMonth place.month + place.rest) : Nat) - epochShift

/-- The date at a place. -/
def date : Date :=
  ⟨place.era * 400 + place.year + (if civilMonth place.month ≤ 2 then 1 else 0), civilMonth place.month,
    place.rest + 1⟩

/-- **The date of the day at a place.** -/
theorem ofDay_day : ofDay place.day = place.date := by
  obtain ⟨era, year, month, rest, hyear, hmonth, hin, hinYear⟩ := place
  have hera := hinYear.lt_eraDays hyear
  have hmod : ((era * eraDays + (daysBeforeYear year + (daysBeforeMonth month + rest) : Nat) : Int) % eraDays).toNat =
      daysBeforeYear year + (daysBeforeMonth month + rest) := by
    unfold eraDays at *
    omega
  have hdiv : (era * eraDays + (daysBeforeYear year + (daysBeforeMonth month + rest) : Nat) : Int) / eraDays = era := by
    unfold eraDays at *
    omega
  unfold ofDay day date civilMonth
  simp only [Int.sub_add_cancel, hmod, hdiv, hinYear.yearOfEra_eq hyear, Nat.add_sub_cancel_left, monthOfYear_eq hin]

/-- **The day of the date at a place.** -/
theorem toDay_date : place.date.toDay = place.day := by
  obtain ⟨era, year, month, rest, hyear, hmonth, hin, hinYear⟩ := place
  have hback : (if 2 < civilMonth month then civilMonth month - 3 else civilMonth month + 9) = month := by
    unfold civilMonth
    split <;> split <;> omega
  have hyearBack : ∀ civilYear : Int, civilYear = era * 400 + year + (if civilMonth month ≤ 2 then 1 else 0) →
      (if civilMonth month ≤ 2 then civilYear - 1 else civilYear) = era * 400 + year := by
    intro civilYear hcivil
    split at hcivil <;> omega
  have hdiv : (era * 400 + year : Int) / 400 = era := by omega
  have hmod : ((era * 400 + year : Int) % 400).toNat = year := by omega
  unfold toDay day date
  dsimp only
  rw [hback, hyearBack _ rfl, hdiv, hmod]
  omega

/-- **The date at a place is in the calendar.** -/
theorem valid : place.date.Valid := by
  obtain ⟨era, year, month, rest, hyear, hmonth, hin, hinYear⟩ := place
  refine ⟨?_, ?_, Nat.succ_pos rest, ?_⟩
  · simp only [date, civilMonth]
    split <;> omega
  · simp only [date, civilMonth]
    split <;> omega
  · by_cases hlast : month = 11
    · subst hlast
      exact (le_february_iff hyear).2 ⟨hin, hinYear⟩
    · have hearly : month < 11 := by omega
      exact (le_monthDays_iff hearly _).2 hin

end Place

/-- Each day is at a place. -/
theorem exists_place_day (day : Int) : ∃ place : Place, place.day = day := by
  obtain ⟨dayOfEra, hera, hday⟩ : ∃ dayOfEra < eraDays,
      (day + epochShift) / eraDays * eraDays + (dayOfEra : Int) - epochShift = day := by
    refine ⟨((day + epochShift) % eraDays).toNat, ?_, ?_⟩ <;> unfold eraDays <;> omega
  obtain ⟨hyear, hbegun, hinYear⟩ := yearOfEra_spec hera
  generalize hdayOfYear : dayOfEra - daysBeforeYear (yearOfEra dayOfEra) = dayOfYear at hinYear
  obtain ⟨hbefore, hin⟩ := monthOfYear_spec dayOfYear
  have hmonth := hinYear.monthOfYear_lt
  generalize monthOfYear dayOfYear = month at hbefore hin hmonth
  obtain ⟨rest, rfl⟩ := Nat.exists_eq_add_of_le hbefore
  refine ⟨⟨(day + epochShift) / eraDays, yearOfEra dayOfEra, month, rest, hyear, hmonth, hin, hinYear⟩, ?_⟩
  dsimp only [Place.day]
  omega

/-- Each date of the calendar is at a place. -/
theorem Valid.exists_place {date : Date} (h : date.Valid) : ∃ place : Place, place.date = date := by
  obtain ⟨civilYear, civil, day⟩ := date
  obtain ⟨hpos, hle, hdayPos, hday⟩ := h
  dsimp only at hpos hle hdayPos hday
  obtain ⟨rest, rfl⟩ := Nat.exists_eq_add_of_le' hdayPos
  obtain ⟨month, hmonth, rfl⟩ : ∃ month < 12, civilMonth month = civil := by
    refine ⟨(civil + 9) % 12, Nat.mod_lt _ (by decide), ?_⟩
    unfold civilMonth
    split <;> omega
  -- a year that starts in March is one behind in January and February
  obtain ⟨era, year, hyear, rfl⟩ : ∃ (era : Int) (year : Nat), year < 400 ∧
      era * 400 + year + (if civilMonth month ≤ 2 then 1 else 0) = civilYear := by
    generalize (if civilMonth month ≤ 2 then 1 else 0 : Int) = behind
    exact ⟨(civilYear - behind) / 400, ((civilYear - behind) % 400).toNat, by omega, by omega⟩
  have hplace : daysBeforeMonth month + rest < daysBeforeMonth (month + 1) ∧
      InYear year (daysBeforeMonth month + rest) := by
    by_cases hlast : month = 11
    · subst hlast
      exact (le_february_iff hyear).1 hday
    · have hearly : month < 11 := by omega
      have hin := (le_monthDays_iff hearly _).1 hday
      exact ⟨hin, inYear_of_month hearly hin year⟩
  exact ⟨⟨era, year, month, rest, hyear, hmonth, hplace.1, hplace.2⟩, rfl⟩

/-! ## Days and dates -/

/-- **Each day has a date of the calendar.** -/
theorem ofDay_valid (day : Int) : (ofDay day).Valid := by
  obtain ⟨place, rfl⟩ := exists_place_day day
  rw [place.ofDay_day]
  exact place.valid

/-- **The day of the date of a day.** -/
theorem toDay_ofDay (day : Int) : (ofDay day).toDay = day := by
  obtain ⟨place, rfl⟩ := exists_place_day day
  rw [place.ofDay_day, place.toDay_date]

/-- **The date of the day of a date**, if it is one of the calendar. -/
theorem Valid.ofDay_toDay {date : Date} (h : date.Valid) : ofDay date.toDay = date := by
  obtain ⟨place, rfl⟩ := h.exists_place
  rw [place.toDay_date, place.ofDay_day]

end Date

end StateEngine
