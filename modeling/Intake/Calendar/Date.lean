/-
Dates of the Gregorian calendar, years 1 to 9999, with the day number that puts them on a line and their
ISO 8601 text.

Main definitions: `Date.dayNumber` and `Date.ofDayNumber`, the two forms of a day, and `Date.ofWeek?`, a day
by its week.
-/
import Intake.Number.Numeral

namespace Intake.Calendar

open Intake.Number

/-- a day of the calendar -/
structure Date where
  year : Nat
  month : Nat
  day : Nat
  deriving DecidableEq, Repr, Inhabited

/-- every fourth year, but of the full centuries only every fourth -/
def isLeap (year : Nat) : Bool := year % 4 == 0 && (year % 100 != 0 || year % 400 == 0)

def monthLengths (year : Nat) : List Nat :=
  [31, if isLeap year then 29 else 28, 31, 30, 31, 30, 31, 31, 30, 31, 30, 31]

def daysBeforeYear (year : Nat) : Nat :=
  let y := year - 1
  y * 365 + y / 4 - y / 100 + y / 400

namespace Date

def Valid (d : Date) : Prop :=
  1 ≤ d.year ∧ d.year ≤ 9999 ∧ 1 ≤ d.month ∧ d.month ≤ 12 ∧ 1 ≤ d.day ∧
    d.day ≤ (monthLengths d.year).getD (d.month - 1) 0

instance (d : Date) : Decidable d.Valid := by unfold Valid; infer_instance

def make? (year month day : Nat) : Option Date :=
  let d : Date := ⟨year, month, day⟩
  if d.Valid then some d else none

/-- the number of a day, counted from the first of January of year 1 as day 1 -/
def dayNumber (d : Date) : Nat :=
  daysBeforeYear d.year + ((monthLengths d.year).take (d.month - 1)).foldl (· + ·) 0 + d.day

/-- the month and day that lie `n` days after the first day of a year with these months -/
def monthDay (n : Nat) : Nat → List Nat → Nat × Nat
  | month, [] => (month, n + 1)
  | month, length :: rest => if n < length then (month, n + 1) else monthDay (n - length) (month + 1) rest

/-- the day with this number; whole cycles of 400, 100, 4 and 1 years are counted off in turn -/
def ofDayNumber (number : Nat) : Date :=
  let n := number - 1
  let (n400, n) := (n / 146097, n % 146097)
  let n100 := min (n / 36524) 3
  let n := n - n100 * 36524
  let (n4, n) := (n / 1461, n % 1461)
  let n1 := min (n / 365) 3
  let n := n - n1 * 365
  let year := 400 * n400 + 100 * n100 + 4 * n4 + n1 + 1
  let (month, day) := monthDay n 1 (monthLengths year)
  ⟨year, month, day⟩

/-- the day of the week, Monday being 0 -/
def weekday (d : Date) : Nat := (d.dayNumber + 6) % 7

/-- the day number of the Monday of the year's first week, which holds the first Thursday -/
def firstMonday (year : Nat) : Int :=
  let first : Date := ⟨year, 1, 1⟩
  let monday : Int := (first.dayNumber : Int) - first.weekday
  if 3 < first.weekday then monday + 7 else monday

/-- a date by year, week and day of the week (Monday is 1). A year has a 53rd week if it begins on a
Thursday, or on a Wednesday and is a leap year -/
def ofWeek? (year week day : Nat) : Option Date :=
  let first := Date.weekday ⟨year, 1, 1⟩
  let long := first = 3 || (first = 2 && isLeap year)
  if week = 0 || 53 < week || (week = 53 && !long) || day = 0 || 7 < day || year = 0 then none
  else
    let number := firstMonday year + (week - 1) * 7 + day - 1
    if number < 1 then none
    else
      let d := ofDayNumber number.toNat
      make? d.year d.month d.day

def padded (width n : Nat) : List Char :=
  let ds := digits n
  List.replicate (width - ds.length) '0' ++ ds

/-- `YYYY-MM-DD` -/
def text (d : Date) : List Char :=
  padded 4 d.year ++ '-' :: padded 2 d.month ++ '-' :: padded 2 d.day

end Date

end Intake.Calendar
