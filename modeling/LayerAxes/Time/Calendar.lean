/-!
# The proleptic Gregorian calendar

Days are counted from 1970-01-01.  The Gregorian leap rule is applied to all
years, before its introduction and before year one; year zero exists.
-/

namespace LayerAxes

structure Date where
  year : Int
  month : Nat
  day : Nat
deriving DecidableEq, Repr

namespace Calendar

def isLeapYear (year : Int) : Bool :=
  year % 4 = 0 && (year % 100 ≠ 0 || year % 400 = 0)

def monthLengths (year : Int) : List Nat :=
  [31, if isLeapYear year then 29 else 28, 31, 30, 31, 30, 31, 31, 30, 31, 30, 31]

/-- The number of days in a month, counted from one; no other month has days. -/
def daysInMonth (year : Int) (month : Nat) : Nat :=
  match month with
  | 0 => 0
  | m + 1 => (monthLengths year)[m]?.getD 0

def daysBeforeMonth (year : Int) (month : Nat) : Nat :=
  ((monthLengths year).take (month - 1)).foldr (· + ·) 0

/-- The days from 0001-01-01 to the start of a year. -/
def daysBeforeYear (year : Int) : Int :=
  let past := year - 1
  365 * past + past / 4 - past / 100 + past / 400

/-- The days from 0001-01-01 to 1970-01-01. -/
def epochDay : Int :=
  719162

/--
The year that a day falls in, days being counted from 0001-01-01.  Four hundred
years have 146097 days, and the estimate from that is at most one year off.
-/
def yearOfDay (day : Int) : Int :=
  let estimate := day * 400 / 146097 + 1
  if day < daysBeforeYear estimate then estimate - 1
  else if daysBeforeYear (estimate + 1) ≤ day then estimate + 1
  else estimate

/--
Walk along month lengths until a day of the year falls into a month; the answer
is the number of months passed and the days left.
-/
def passMonths : List Nat -> Nat -> Nat × Nat
  | [], left => (0, left)
  | length :: rest, left =>
      if left < length then (0, left)
      else
        let further := passMonths rest (left - length)
        (further.1 + 1, further.2)

end Calendar

namespace Date

open Calendar

def Exists (d : Date) : Prop :=
  1 ≤ d.day ∧ d.day ≤ daysInMonth d.year d.month

instance (d : Date) : Decidable d.Exists :=
  inferInstanceAs (Decidable (_ ∧ _))

/-- The number of the day, counted from 1970-01-01. -/
def toDay (d : Date) : Int :=
  daysBeforeYear d.year + daysBeforeMonth d.year d.month + d.day - 1 - epochDay

def ofDay (day : Int) : Date :=
  let day := day + epochDay
  let year := yearOfDay day
  let passed := passMonths (monthLengths year) (day - daysBeforeYear year).toNat
  { year, month := passed.1 + 1, day := passed.2 + 1 }

/--
The date some months later.  The day of the month stays, or becomes the last
one of a month that is too short for it.
-/
def addMonths (d : Date) (months : Nat) : Date :=
  let index := d.year * 12 + (d.month - 1 : Nat) + months
  let year := index / 12
  let month := (index % 12).toNat + 1
  { year, month, day := min d.day (daysInMonth year month) }

end Date
end LayerAxes
