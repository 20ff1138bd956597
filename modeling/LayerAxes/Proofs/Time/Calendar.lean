import LayerAxes.Time.Calendar
import Mathlib.Algebra.BigOperators.Group.List.Basic
import Mathlib.Algebra.GroupWithZero.Nat

/-!
# Days and months

Every day has one date, and a date comes after all dates of earlier months.  So
moving on by months leads to a later day, although the day of the month may have
to give way to a shorter month.

Months are numbered through all years, from which the calendar becomes one long
list of lengths.
-/

namespace LayerAxes
namespace Calendar

/-!
# Years
-/

def daysInYear (year : Int) : Nat :=
  if isLeapYear year then 366 else 365

theorem daysBeforeYear_succ (year : Int) :
    daysBeforeYear (year + 1) = daysBeforeYear year + daysInYear year := by
  unfold daysBeforeYear daysInYear isLeapYear
  by_cases h4 : year % 4 = 0 <;> by_cases h100 : year % 100 = 0 <;>
    by_cases h400 : year % 400 = 0 <;> simp [h4, h100, h400] <;> omega

theorem yearOfDay_spec (day : Int) :
    daysBeforeYear (yearOfDay day) ≤ day ∧ day < daysBeforeYear (yearOfDay day + 1) := by
  unfold yearOfDay
  dsimp only
  split
  · dsimp only [daysBeforeYear] at *
    omega
  · split
    · dsimp only [daysBeforeYear] at *
      omega
    · dsimp only [daysBeforeYear] at *
      omega

theorem sum_monthLengths (year : Int) : (monthLengths year).sum = daysInYear year := by
  unfold monthLengths daysInYear
  cases isLeapYear year <;> rfl

/-!
# Months
-/

theorem daysBeforeMonth_eq (year : Int) (month : Nat) :
    daysBeforeMonth year (month + 1) = ((monthLengths year).take month).sum := by
  unfold daysBeforeMonth
  rw [List.sum_eq_foldr]
  rfl

theorem daysBeforeMonth_succ (year : Int) {month : Nat} (h : month < 12) :
    daysBeforeMonth year (month + 2) =
      daysBeforeMonth year (month + 1) + daysInMonth year (month + 1) := by
  have hMonth : month < (monthLengths year).length := h
  rw [daysBeforeMonth_eq, daysBeforeMonth_eq, List.take_succ_eq_append_getElem hMonth,
    List.sum_append, List.sum_singleton]
  show _ = _ + (monthLengths year)[month]?.getD 0
  rw [List.getElem?_eq_getElem hMonth, Option.getD_some]

theorem daysBeforeMonth_thirteen (year : Int) : daysBeforeMonth year 13 = daysInYear year := by
  rw [daysBeforeMonth_eq, ← sum_monthLengths]
  rfl

theorem daysInMonth_bounds (year : Int) {month : Nat} (h : month < 12) :
    28 ≤ daysInMonth year (month + 1) ∧ daysInMonth year (month + 1) ≤ 31 := by
  have hAll : forall length, length ∈ monthLengths year -> 28 ≤ length ∧ length ≤ 31 := by
    unfold monthLengths
    cases isLeapYear year <;> decide
  have hMonth : month < (monthLengths year).length := h
  unfold daysInMonth
  dsimp only
  rw [List.getElem?_eq_getElem hMonth]
  exact hAll _ (List.getElem_mem hMonth)

theorem passMonths_spec {lengths : List Nat} {left : Nat} (h : left < lengths.sum) :
    exists length, lengths[(passMonths lengths left).1]? = some length ∧
      (passMonths lengths left).2 < length ∧
      (lengths.take (passMonths lengths left).1).sum + (passMonths lengths left).2 = left := by
  induction lengths generalizing left with
  | nil => simp at h
  | cons length lengths ih =>
      by_cases hLess : left < length
      · have hStop : passMonths (length :: lengths) left = (0, left) := if_pos hLess
        rw [hStop]
        exact ⟨length, rfl, hLess, Nat.zero_add _⟩
      · have hPass : passMonths (length :: lengths) left =
            ((passMonths lengths (left - length)).1 + 1,
              (passMonths lengths (left - length)).2) := if_neg hLess
        rw [List.sum_cons] at h
        rcases ih (show left - length < lengths.sum by omega) with ⟨own, hOwn, hLeft, hSum⟩
        rw [hPass]
        refine ⟨own, hOwn, hLeft, ?_⟩
        show (List.take (_ + 1) (length :: lengths)).sum + _ = left
        rw [List.take_succ_cons, List.sum_cons]
        omega

/-!
# Months of all years
-/

def daysBeforeIndex (index : Int) : Int :=
  daysBeforeYear (index / 12) + daysBeforeMonth (index / 12) ((index % 12).toNat + 1)

def daysInIndex (index : Int) : Nat :=
  daysInMonth (index / 12) ((index % 12).toNat + 1)

theorem daysBeforeIndex_succ (index : Int) :
    daysBeforeIndex (index + 1) = daysBeforeIndex index + daysInIndex index := by
  have hTwelve : (index % 12).toNat < 12 := by omega
  have hMonth := daysBeforeMonth_succ (index / 12) hTwelve
  unfold daysBeforeIndex daysInIndex
  by_cases hLast : index % 12 = 11
  · -- December is followed by the first month of the next year.
    have hYear : (index + 1) / 12 = index / 12 + 1 := by omega
    have hFirst : ((index + 1) % 12).toNat = 0 := by omega
    have hTwelfth : (index % 12).toNat = 11 := by omega
    rw [hTwelfth, daysBeforeMonth_thirteen] at hMonth
    rw [hYear, hFirst, hTwelfth, daysBeforeYear_succ, hMonth]
    have hStart : daysBeforeMonth (index / 12 + 1) (0 + 1) = 0 := rfl
    rw [hStart]
    push_cast
    omega
  · have hYear : (index + 1) / 12 = index / 12 := by omega
    have hNext : ((index + 1) % 12).toNat = (index % 12).toNat + 1 := by omega
    rw [hYear, hNext, hMonth]
    push_cast
    omega

theorem daysBeforeIndex_year (year : Int) :
    daysBeforeIndex (year * 12) = daysBeforeYear year := by
  have hYear : year * 12 / 12 = year := by omega
  have hFirst : (year * 12 % 12).toNat = 0 := by omega
  unfold daysBeforeIndex
  rw [hYear, hFirst]
  exact Int.add_zero _

theorem daysBeforeIndex_mono {a b : Int} (h : a ≤ b) : daysBeforeIndex a ≤ daysBeforeIndex b := by
  rcases Int.le.dest h with ⟨n, rfl⟩
  clear h
  induction n with
  | zero => simp
  | succ n ih =>
      have hNext : a + ((n + 1 : Nat) : Int) = a + n + 1 := by omega
      rw [hNext, daysBeforeIndex_succ]
      omega

theorem daysBeforeYear_mono {a b : Int} (h : a ≤ b) : daysBeforeYear a ≤ daysBeforeYear b := by
  rw [← daysBeforeIndex_year, ← daysBeforeIndex_year]
  apply daysBeforeIndex_mono
  omega

end Calendar

namespace Date

open Calendar

def monthIndex (d : Date) : Int :=
  d.year * 12 + (d.month - 1 : Nat)

variable {d : Date}

def inYear (year : Int) (left : Nat) : Date :=
  let passed := passMonths (monthLengths year) left
  { year, month := passed.1 + 1, day := passed.2 + 1 }

theorem inYear_spec {year : Int} {left : Nat} (h : left < daysInYear year) :
    (inYear year left).Exists ∧
      (inYear year left).toDay = daysBeforeYear year + left - epochDay := by
  rw [← sum_monthLengths] at h
  rcases passMonths_spec h with ⟨length, hLength, hLeft, hSum⟩
  constructor
  · constructor
    · exact Nat.succ_pos _
    · show _ + 1 ≤ (monthLengths year)[_]?.getD 0
      rw [hLength]
      exact hLeft
  · show daysBeforeYear year + daysBeforeMonth year (_ + 1) + ((_ + 1 : Nat) : Int) - 1 -
      epochDay = _
    rw [daysBeforeMonth_eq]
    omega

theorem ofDay_spec (day : Int) : (ofDay day).Exists ∧ (ofDay day).toDay = day := by
  rcases yearOfDay_spec (day + epochDay) with ⟨hAfter, hBefore⟩
  rw [daysBeforeYear_succ] at hBefore
  have hLeft : (day + epochDay - daysBeforeYear (yearOfDay (day + epochDay))).toNat <
      daysInYear (yearOfDay (day + epochDay)) := by omega
  rcases inYear_spec hLeft with ⟨hExists, hDay⟩
  constructor
  · exact hExists
  · change (ofDay day).toDay = _ at hDay
    rw [hDay]
    omega

theorem exists_month_of_exists (h : d.Exists) :
    exists month, d.month = month + 1 ∧ month < 12 := by
  rcases h with ⟨hFirst, hLast⟩
  cases hMonth : d.month with
  | zero =>
      rw [hMonth] at hLast
      change d.day ≤ 0 at hLast
      omega
  | succ month =>
      refine ⟨month, rfl, ?_⟩
      rw [hMonth] at hLast
      change d.day ≤ (monthLengths d.year)[month]?.getD 0 at hLast
      by_cases hLength : month < 12
      · exact hLength
      · have hNone : (monthLengths d.year)[month]? = none :=
          List.getElem?_eq_none (Nat.not_lt.mp hLength)
        rw [hNone] at hLast
        change d.day ≤ 0 at hLast
        omega

theorem monthIndex_div (h : d.Exists) : d.monthIndex / 12 = d.year := by
  rcases exists_month_of_exists h with ⟨month, hMonth, hLess⟩
  unfold monthIndex
  omega

theorem toDay_eq (h : d.Exists) :
    d.toDay = daysBeforeIndex d.monthIndex + d.day - 1 - epochDay ∧
      d.day ≤ daysInIndex d.monthIndex := by
  rcases exists_month_of_exists h with ⟨month, hMonth, hLess⟩
  have hYear := monthIndex_div h
  have hOwn : (d.monthIndex % 12).toNat + 1 = d.month := by
    unfold monthIndex
    omega
  unfold daysBeforeIndex daysInIndex
  rw [hYear, hOwn]
  exact ⟨rfl, h.2⟩

theorem monthIndex_addMonths (d : Date) (months : Nat) :
    (d.addMonths months).monthIndex = d.monthIndex + months := by
  unfold addMonths monthIndex
  dsimp only
  omega

theorem exists_addMonths (h : d.Exists) (months : Nat) : (d.addMonths months).Exists := by
  constructor
  · exact Nat.le_min.mpr ⟨h.1, Nat.le_trans (by decide) (daysInMonth_bounds _ (by omega)).1⟩
  · exact Nat.min_le_right _ _

theorem toDay_lt_of_monthIndex_lt {e : Date} (hd : d.Exists) (he : e.Exists)
    (h : d.monthIndex < e.monthIndex) : d.toDay < e.toDay := by
  rcases toDay_eq hd with ⟨hDay, hLast⟩
  rw [hDay, (toDay_eq he).1]
  have hFirst := he.1
  have hMonth : d.monthIndex + 1 ≤ e.monthIndex := h
  calc
    daysBeforeIndex d.monthIndex + d.day - 1 - epochDay
        < daysBeforeIndex (d.monthIndex + 1) - epochDay := by
          rw [daysBeforeIndex_succ]
          omega
    _ ≤ daysBeforeIndex e.monthIndex - epochDay :=
          Int.sub_le_sub_right (daysBeforeIndex_mono hMonth) epochDay
    _ ≤ daysBeforeIndex e.monthIndex + e.day - 1 - epochDay := by
          omega

/-- However short its month, a date some months later comes later. -/
theorem toDay_lt_toDay_addMonths {months : Nat} (h : d.Exists) (hMonths : 1 ≤ months) :
    d.toDay < (d.addMonths months).toDay := by
  apply toDay_lt_of_monthIndex_lt h (exists_addMonths h months)
  rw [monthIndex_addMonths]
  omega

theorem eq_of_monthIndex_eq {e : Date} (hd : d.Exists) (he : e.Exists)
    (hMonth : d.monthIndex = e.monthIndex) (hDay : d.day = e.day) : d = e := by
  rcases exists_month_of_exists hd with ⟨own, hOwn, _⟩
  rcases exists_month_of_exists he with ⟨other, hOther, _⟩
  unfold monthIndex at hMonth
  cases d
  cases e
  simp only [Date.mk.injEq]
  dsimp only at *
  omega

theorem eq_of_toDay_eq {e : Date} (hd : d.Exists) (he : e.Exists) (h : d.toDay = e.toDay) :
    d = e := by
  have hMonth : d.monthIndex = e.monthIndex := by
    rcases Int.lt_trichotomy d.monthIndex e.monthIndex with hLess | hEq | hGreater
    · have hBefore := toDay_lt_of_monthIndex_lt hd he hLess
      omega
    · exact hEq
    · have hAfter := toDay_lt_of_monthIndex_lt he hd hGreater
      omega
  have hDay : d.day = e.day := by
    rw [(toDay_eq hd).1, (toDay_eq he).1, hMonth] at h
    omega
  exact eq_of_monthIndex_eq hd he hMonth hDay

theorem ofDay_toDay (h : d.Exists) : ofDay d.toDay = d :=
  eq_of_toDay_eq (ofDay_spec d.toDay).1 h (ofDay_spec d.toDay).2

theorem toDay_within_year (h : d.Exists) :
    daysBeforeYear d.year - epochDay ≤ d.toDay ∧
      d.toDay < daysBeforeYear (d.year + 1) - epochDay := by
  rcases toDay_eq h with ⟨hDay, hLast⟩
  rcases exists_month_of_exists h with ⟨month, hMonth, hLess⟩
  have hFirst := h.1
  have hStart : daysBeforeIndex (d.year * 12) ≤ daysBeforeIndex d.monthIndex := by
    apply daysBeforeIndex_mono
    unfold monthIndex
    omega
  have hEnd : daysBeforeIndex (d.monthIndex + 1) ≤ daysBeforeIndex ((d.year + 1) * 12) := by
    apply daysBeforeIndex_mono
    unfold monthIndex
    omega
  rw [daysBeforeIndex_year] at hStart hEnd
  rw [daysBeforeIndex_succ] at hEnd
  rw [hDay]
  omega

theorem month_day_le (h : d.Exists) : d.month ≤ 12 ∧ d.day ≤ 31 := by
  rcases exists_month_of_exists h with ⟨month, hMonth, hLess⟩
  have hLast := h.2
  rw [hMonth] at hLast
  exact ⟨by omega, Nat.le_trans hLast (daysInMonth_bounds d.year hLess).2⟩

end Date
end LayerAxes
