import Mathlib.Algebra.GroupWithZero.Nat
import Mathlib.Data.Fin.Basic

/-!
# The calendar

Gregorian dates and the number of days since the first day of 1970.
-/

namespace Nblex

/-- A year with a 29th of February. -/
def isLeapYear (year : Nat) : Bool := year % 4 = 0 && (year % 100 ≠ 0 || year % 400 = 0)

/-- The days of a month, which counts from zero. -/
def daysInMonth (year : Nat) (month : Fin 12) : Nat :=
  [31, if isLeapYear year then 29 else 28, 31, 30, 31, 30, 31, 31, 30, 31, 30, 31].get month

/-- A day of the calendar. -/
structure Date where
  year : Nat
  month : Fin 12
  day : Nat
  inside : 1 ≤ day ∧ day ≤ daysInMonth year month

/-- The days of the years before one. -/
def daysBeforeYear : Nat → Nat
  | 0 => 0
  | year + 1 => daysBeforeYear year + if isLeapYear year then 366 else 365

/-- The days of a year before a month. -/
def daysBeforeMonth (year : Nat) (month : Fin 12) : Nat :=
  (((List.finRange 12).take month).map (daysInMonth year)).sum

/-- The days from the first day of 1970. -/
def dayNumber (year : Nat) (month : Fin 12) (day : Int) : Int :=
  daysBeforeYear year - daysBeforeYear 1970 + daysBeforeMonth year month + (day - 1)

/-- The number of a date. -/
def Date.number (date : Date) : Int := dayNumber date.year date.month date.day

theorem daysInMonth_le (year : Nat) (month : Fin 12) : daysInMonth year month ≤ 31 := by
  rw [daysInMonth]
  cases isLeapYear year with
  | true =>
      revert month
      decide
  | false =>
      revert month
      decide

theorem Date.day_le (date : Date) : date.day ≤ 31 :=
  date.inside.2.trans (daysInMonth_le date.year date.month)

end Nblex
