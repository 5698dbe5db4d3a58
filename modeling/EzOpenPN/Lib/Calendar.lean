import Mathlib

/-!
# Dates of the proleptic Gregorian calendar

A day is counted from the first of January of the year 0; a date is a year, a month and a day of
the month. Both directions are the same walk: years and months are *consecutive lengths*, a day
count is located among them by `Calendar.locate`, and a date is counted by adding up the lengths
before it. `Calendar.dayNumber_dateOf` says that counting undoes locating, and
`Calendar.dateOf_valid` that what was located is a date of the calendar.
-/

namespace Calendar

/-! ### Locating a number among consecutive lengths -/

/-- **The piece of a row of pieces in which a position lies**, and where in that piece. -/
def locate : List ℕ → ℕ → ℕ × ℕ
  | [], n => (0, n)
  | l :: ls, n =>
    if n < l then (0, n)
    else
      let p := locate ls (n - l)
      (p.1 + 1, p.2)

/-- **The position is found again** from the pieces before it, and it is inside its piece. -/
theorem locate_spec {ls : List ℕ} {n : ℕ} (hn : n < ls.sum) :
    (locate ls n).1 < ls.length ∧ (locate ls n).2 < ls.getD (locate ls n).1 0 ∧
      (ls.take (locate ls n).1).sum + (locate ls n).2 = n := by
  induction ls generalizing n with
  | nil => simp at hn
  | cons l ls ih =>
    rw [locate]
    split
    · rename_i h
      simpa using h
    · rename_i h
      rw [List.sum_cons] at hn
      obtain ⟨hlt, hin, hsum⟩ := ih (n := n - l) (by omega)
      refine ⟨by simpa using hlt, by simpa using hin, ?_⟩
      simp only [List.take_succ_cons, List.sum_cons]
      omega

/-- **A position beyond the row** is in none of its pieces. -/
theorem locate_of_sum_le {ls : List ℕ} {n : ℕ} (hn : ls.sum ≤ n) :
    (locate ls n).1 = ls.length := by
  induction ls generalizing n with
  | nil => rfl
  | cons l ls ih =>
    rw [List.sum_cons] at hn
    rw [locate, if_neg (by omega), List.length_cons]
    exact congrArg (· + 1) (ih (by omega))

/-! ### The calendar -/

/-- Leap years. -/
def isLeap (year : ℕ) : Bool := year % 4 == 0 && (year % 100 != 0 || year % 400 == 0)

/-- The days of a year. -/
def yearLength (year : ℕ) : ℕ := if isLeap year then 366 else 365

/-- The days of the months of a year. -/
def monthLengths (year : ℕ) : List ℕ :=
  [31, if isLeap year then 29 else 28, 31, 30, 31, 30, 31, 31, 30, 31, 30, 31]

/-- The months make up the year. -/
theorem sum_monthLengths (year : ℕ) : (monthLengths year).sum = yearLength year := by
  rw [monthLengths, yearLength]
  cases isLeap year <;> rfl

/-- **A date.** -/
structure Date where
  year : ℕ
  /-- From 1 to 12. -/
  month : ℕ
  /-- From 1. -/
  day : ℕ
  deriving DecidableEq, Repr

/-- The days of a month, counted from 1. -/
def daysIn (year month : ℕ) : ℕ := (monthLengths year).getD (month - 1) 0

/-- **A date the calendar has.** -/
def Date.Valid (d : Date) : Prop :=
  1 ≤ d.month ∧ d.month ≤ 12 ∧ 1 ≤ d.day ∧ d.day ≤ daysIn d.year d.month

/-- The lengths of the first years. -/
def yearLengths (years : ℕ) : List ℕ := (List.range years).map yearLength

/-- **The date of a day**, among the first `years` years. -/
def dateOf (years day : ℕ) : Date :=
  let y := locate (yearLengths years) day
  let m := locate (monthLengths y.1) y.2
  ⟨y.1, m.1 + 1, m.2 + 1⟩

/-- **The number of a day**, counted from the start of the year 0. -/
def dayNumber (d : Date) : ℕ :=
  (yearLengths d.year).sum + ((monthLengths d.year).take (d.month - 1)).sum + (d.day - 1)

/-- The first years of a longer row are the shorter row. -/
theorem take_yearLengths {i years : ℕ} (h : i ≤ years) :
    (yearLengths years).take i = yearLengths i := by
  rw [yearLengths, ← List.map_take, List.take_range, Nat.min_eq_left h, yearLengths]

section DateOf

variable {years day : ℕ}

/-- The year of a day inside the row. -/
theorem locate_yearLengths (h : day < (yearLengths years).sum) :
    (locate (yearLengths years) day).1 < years ∧
      (locate (yearLengths years) day).2 <
        (monthLengths (locate (yearLengths years) day).1).sum := by
  obtain ⟨hlt, hin, -⟩ := locate_spec h
  rw [yearLengths, List.length_map, List.length_range] at hlt
  refine ⟨hlt, ?_⟩
  rw [sum_monthLengths]
  have hget : (yearLengths years).getD (locate (yearLengths years) day).1 0 =
      yearLength (locate (yearLengths years) day).1 := by
    simp [yearLengths, List.getD_eq_getElem?_getD, hlt]
  rwa [hget] at hin

/-- The year of a date that was located is one of the row. -/
theorem dateOf_year_lt (h : day < (yearLengths years).sum) : (dateOf years day).year < years :=
  (locate_yearLengths h).1

/-- **The year of a day is one of the row exactly when the day is.** -/
theorem dateOf_year_lt_iff : (dateOf years day).year < years ↔ day < (yearLengths years).sum := by
  refine ⟨fun h => ?_, dateOf_year_lt⟩
  by_contra hday
  have hyear : (dateOf years day).year = years := by
    rw [dateOf, locate_of_sum_le (not_lt.mp hday), yearLengths, List.length_map, List.length_range]
  exact h.ne hyear

/-- **What is located is a date of the calendar.** -/
theorem dateOf_valid (h : day < (yearLengths years).sum) : (dateOf years day).Valid := by
  obtain ⟨hlt, hin, -⟩ := locate_spec (locate_yearLengths h).2
  refine ⟨Nat.succ_le_succ (Nat.zero_le _), hlt, Nat.succ_le_succ (Nat.zero_le _), ?_⟩
  exact hin

/-- **Counting undoes locating.** -/
theorem dayNumber_dateOf (h : day < (yearLengths years).sum) :
    dayNumber (dateOf years day) = day := by
  obtain ⟨-, -, hyear⟩ := locate_spec h
  obtain ⟨-, -, hmonth⟩ := locate_spec (locate_yearLengths h).2
  rw [take_yearLengths (Nat.le_of_lt (locate_yearLengths h).1)] at hyear
  simp only [dayNumber, dateOf, Nat.add_sub_cancel]
  omega

end DateOf

example : dateOf 2100 (dayNumber ⟨2026, 8, 31⟩) = ⟨2026, 8, 31⟩ := by decide +kernel

end Calendar
