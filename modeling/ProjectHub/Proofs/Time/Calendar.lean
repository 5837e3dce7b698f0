import ProjectHub.Time.Instant
import Mathlib.Tactic.IntervalCases

/-!
# The calendar

The date of a day number is a day of its month, and its day number is the one it
was computed from. Years are counted from March inside an era of 400 years, where
a leap day is the last day of its year.
-/

namespace ProjectHub.Instant

/-- The days of an era before a year of it, counted from March. -/
def daysBeforeYear (year : Nat) : Nat :=
  365 * year + year / 4 - year / 100

/-- The year of an era that a day of the era lies in. -/
def yearOfEra (day : Nat) : Nat :=
  (day - day / 1460 + day / 36524 - day / 146096) / 365

/-- Whether the last day of a year of an era is a leap day. -/
def EndsLeap (year : Nat) : Prop :=
  year % 4 = 3 ∧ (year % 100 ≠ 99 ∨ year = 399)

/-- A day lies in the year computed for it: not before the start of that year, and behind
its 365th day only where there is a leap day. -/
theorem yearOfEra_spec (day : Nat) (h : day < 146097) :
    yearOfEra day < 400 ∧ daysBeforeYear (yearOfEra day) ≤ day ∧
      day ≤ daysBeforeYear (yearOfEra day) + 365 ∧
      (day = daysBeforeYear (yearOfEra day) + 365 → EndsLeap (yearOfEra day)) := by
  unfold EndsLeap
  by_cases hlast : day = 146096
  · subst hlast
    decide
  have hday : day < 146096 := by omega
  obtain ⟨n, hn⟩ : ∃ n, n = day - day / 1460 + day / 36524 - day / 146096 := ⟨_, rfl⟩
  have hyear : yearOfEra day = n / 365 := by rw [hn, yearOfEra]
  have hn' : n + day / 1460 = day + day / 36524 := by omega
  clear hn
  -- The century is below four; inside one of them all divisions but one are by constants.
  have hc : day / 36524 < 4 := by omega
  obtain ⟨c, hcentury⟩ : ∃ c, c = day / 36524 := ⟨_, rfl⟩
  rw [← hcentury] at hc hn'
  have hyear100 : yearOfEra day / 100 = c := by
    rw [hyear]
    interval_cases c <;> omega
  have hyear4 : yearOfEra day / 4 - 25 * c = (day - 36524 * c) / 1461 := by
    rw [hyear]
    rw [hyear] at hyear100
    interval_cases c <;> omega
  unfold daysBeforeYear
  generalize yearOfEra day = year at *
  interval_cases c <;> omega

/-- The day of the month, by the day of a year counted from March. -/
theorem dayOfMonth_spec : ∀ day < 366,
    (5 * day + 2) / 153 ≤ 11 ∧
      day - (153 * ((5 * day + 2) / 153) + 2) / 5 + 1 ≤
        (if (5 * day + 2) / 153 = 11 then 29
          else if (5 * day + 2) / 153 ∈ [1, 3, 6, 8] then 30 else 31) ∧
      (153 * ((5 * day + 2) / 153) + 2) / 5 ≤ day := by
  decide +kernel

/-- A date by its place in an era: the era, the year of the era and the month, both counted
from March, and the day of the month. -/
def dateOfPlace (era : Int) (year month day : Nat) : Int × Nat × Nat :=
  let number := if month < 10 then month + 3 else month - 9
  (if number ≤ 2 then (year : Int) + era * 400 + 1 else (year : Int) + era * 400, number, day)

/-- The computation of a date, read as one of its place. -/
theorem dateOfDays_eq (days : Int) :
    let era := (days + 719468) / 146097
    let day := (days + 719468 - era * 146097).toNat
    let ofYear := day - daysBeforeYear (yearOfEra day)
    let month := (5 * ofYear + 2) / 153
    dateOfDays days =
      dateOfPlace era (yearOfEra day) month (ofYear - (153 * month + 2) / 5 + 1) := rfl

theorem isLeap_iff {year : Int} :
    isLeap year = true ↔ year % 4 = 0 ∧ (year % 100 ≠ 0 ∨ year % 400 = 0) := by
  simp [isLeap]

section Place

variable (era : Int) {year month day : Nat}

theorem daysInMonth_dateOfPlace (_ : year < 400) (hmonth : month ≤ 11)
    (hday : day ≤ if month = 11 then 29 else if month ∈ [1, 3, 6, 8] then 30 else 31)
    (hleap : month = 11 → day = 29 → EndsLeap year) :
    day ≤ daysInMonth (dateOfPlace era year month day).1 (dateOfPlace era year month day).2.1 := by
  unfold EndsLeap at hleap
  by_cases hlast : month = 11
  · subst hlast
    show day ≤ if isLeap ((year : Int) + era * 400 + 1) then 29 else 28
    by_cases hd : day = 29
    · have hyear29 := hleap rfl hd
      have hl : isLeap ((year : Int) + era * 400 + 1) = true := by
        rw [isLeap_iff]
        omega
      rw [if_pos hl]
      omega
    · simp only [if_true] at hday
      split <;> omega
  · have hm : month < 11 := by omega
    clear hleap hlast
    interval_cases month <;> simpa [dateOfPlace, daysInMonth] using hday

theorem daysOfDate_dateOfPlace (day : Nat) (_ : year < 400) (hmonth : month ≤ 11) :
    daysOfDate (dateOfPlace era year month day).1 (dateOfPlace era year month day).2.1 day =
      146097 * era + daysBeforeYear year + (153 * month + 2) / 5 + day - 1 - 719468 := by
  unfold dateOfPlace daysOfDate daysFromMarch daysBeforeYear
  by_cases hm : month < 10
  · have hmarch : ¬ month + 3 ≤ 2 := by omega
    simp only [if_pos hm, if_neg hmarch]
    omega
  · have hnext : month - 9 ≤ 2 := by omega
    simp only [if_neg hm, if_pos hnext]
    omega

end Place

/-- The date of a day number is a day of a month, and has that day number. -/
theorem dateOfDays_spec (days : Int) :
    let date := dateOfDays days
    (1 ≤ date.2.1 ∧ date.2.1 ≤ 12) ∧ (1 ≤ date.2.2 ∧ date.2.2 ≤ daysInMonth date.1 date.2.1) ∧
      daysOfDate date.1 date.2.1 date.2.2 = days := by
  intro date
  obtain ⟨era, hera⟩ : ∃ era, era = (days + 719468) / 146097 := ⟨_, rfl⟩
  obtain ⟨day, hday⟩ : ∃ day, day = (days + 719468 - era * 146097).toNat := ⟨_, rfl⟩
  obtain ⟨hyear, hstart, hend, hleap⟩ := yearOfEra_spec day (by omega)
  have hdate : date = _ := dateOfDays_eq days
  rw [← hera, ← hday] at hdate
  generalize yearOfEra day = year at *
  obtain ⟨ofYear, hofYear⟩ : ∃ ofYear, ofYear = day - daysBeforeYear year := ⟨_, rfl⟩
  obtain ⟨hmonth, hlimit, hfirst⟩ := dayOfMonth_spec ofYear (by omega)
  rw [← hofYear] at hdate
  generalize hm : (5 * ofYear + 2) / 153 = month at *
  have hleapDay : month = 11 → ofYear - (153 * month + 2) / 5 + 1 = 29 → EndsLeap year := by
    intro h11 h29
    exact hleap (by omega)
  have hin := daysInMonth_dateOfPlace era hyear hmonth hlimit hleapDay
  have hback := daysOfDate_dateOfPlace era (ofYear - (153 * month + 2) / 5 + 1) hyear hmonth
  rw [hdate]
  refine ⟨?_, ⟨Nat.le_add_left 1 _, hin⟩, ?_⟩
  · show 1 ≤ (if month < 10 then _ else _) ∧ (if month < 10 then _ else _) ≤ 12
    split <;> omega
  · show daysOfDate _ _ (ofYear - (153 * month + 2) / 5 + 1) = days
    rw [hback]
    omega

/-- The years of the days from 0000-01-01 to 9999-12-31. -/
theorem year_dateOfDays {days : Int} (h0 : -719528 ≤ days) (h1 : days < 2932897) :
    0 ≤ (dateOfDays days).1 ∧ (dateOfDays days).1 ≤ 9999 := by
  obtain ⟨⟨hm1, hm12⟩, ⟨hd1, hdm⟩, hdays⟩ := dateOfDays_spec days
  have hd31 : (dateOfDays days).2.2 ≤ 31 := by
    unfold daysInMonth at hdm
    split at hdm <;> split at hdm <;> omega
  clear hdm
  generalize (dateOfDays days).1 = year at *
  generalize (dateOfDays days).2.1 = month at *
  generalize (dateOfDays days).2.2 = day at *
  unfold daysOfDate daysFromMarch at hdays
  have hmonth : (153 * ((month - 3 : Nat) : Int) + 2) / 5 ≤ 275 := by omega
  by_cases hm : month ≤ 2
  · simp only [if_pos hm] at hdays
    omega
  · simp only [if_neg hm] at hdays
    have hbefore : year ≤ -1 → year / 4 ≤ year / 100 ∧ year / 400 ≤ -1 := by omega
    omega

end ProjectHub.Instant
