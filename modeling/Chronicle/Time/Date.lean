/-!
# Dates

Dates of the Gregorian calendar, carried on to all years before and after, and their count in days
from 1970-01-01. For the count a year begins in March, so that a leap day is the last of its year.
-/

namespace Chronicle

structure Date where
  year : Int
  month : Nat
  day : Nat
deriving DecidableEq, Repr

namespace Date

def isLeap (year : Int) : Bool := year % 4 = 0 && (year % 100 ≠ 0 || year % 400 = 0)

def daysInMonth (year : Int) (month : Nat) : Nat :=
  if month = 2 then if isLeap year then 29 else 28
  else if month = 4 ∨ month = 6 ∨ month = 9 ∨ month = 11 then 30
  else 31

def IsValid (d : Date) : Prop := 1 ≤ d.month ∧ d.month ≤ 12 ∧ 1 ≤ d.day ∧ d.day ≤ daysInMonth d.year d.month

instance (d : Date) : Decidable d.IsValid := inferInstanceAs (Decidable (_ ∧ _ ∧ _ ∧ _))

/-- The days before a month, counted from the first of March; March is month 0. -/
def daysBeforeMonth (m : Nat) : Nat := (153 * m + 2) / 5

/-- The days before a year of a cycle of 400 years that begins in March. -/
def daysBeforeYear (y : Nat) : Nat := 365 * y + y / 4 - y / 100

/-- The day of the date, where 1970-01-01 is day 0. -/
def toDays (d : Date) : Int :=
  let year := if d.month ≤ 2 then d.year - 1 else d.year
  let month := if d.month ≤ 2 then d.month + 9 else d.month - 3
  year / 400 * 146097 + daysBeforeYear (year % 400).toNat + daysBeforeMonth month + d.day - 1 - 719468

def ofDays (days : Int) : Date :=
  let n := days + 719468
  let k := (n % 146097).toNat
  let y := (k - k / 1460 + k / 36524 - k / 146096) / 365
  let r := k - daysBeforeYear y
  let m := (5 * r + 2) / 153
  let year := n / 146097 * 400 + y
  if m < 10 then ⟨year, m + 3, r - daysBeforeMonth m + 1⟩ else ⟨year + 1, m - 9, r - daysBeforeMonth m + 1⟩

end Date

end Chronicle
