import LayerAxes.Proofs.Time.Calendar
import LayerAxes.Proofs.Time.Order
import LayerAxes.Time.Civil

/-!
# Steps of some months

A date is moved on by some months again and again.  Once a month has been too short for
the day, the day stays what it has become.  So after some steps it is the least of the
first day and the lengths of the months stepped on, where moving on at once looks at the
last of these months only.

A timestamp is moved on by months as its date is, and keeps the time of day.
-/

namespace LayerAxes
namespace Date

open Calendar

/-- The date after `k` steps of some months. -/
def stepped (d : Date) (months : Nat) : Nat -> Date
  | 0 => d
  | k + 1 => (d.stepped months k).addMonths months

/-- The length of the month some months later. -/
def daysAfter (d : Date) (months : Nat) : Nat :=
  daysInIndex (d.monthIndex + months)

variable {d : Date} {months k : Nat}

theorem day_addMonths (d : Date) (months : Nat) :
    (d.addMonths months).day = min d.day (d.daysAfter months) :=
  rfl

theorem monthIndex_stepped (d : Date) (months k : Nat) :
    (d.stepped months k).monthIndex = d.monthIndex + (k * months : Nat) := by
  induction k with
  | zero => simp [stepped]
  | succ k ih =>
      rw [stepped, monthIndex_addMonths, ih, Nat.add_one_mul k months]
      omega

theorem exists_stepped (h : d.Exists) (months k : Nat) : (d.stepped months k).Exists := by
  induction k with
  | zero => exact h
  | succ k ih => exact exists_addMonths ih months

theorem daysAfter_stepped (d : Date) (months k : Nat) :
    (d.stepped months k).daysAfter months = d.daysAfter ((k + 1) * months) := by
  unfold daysAfter
  rw [monthIndex_stepped, Nat.add_one_mul k months, Int.natCast_add, Int.add_assoc]

theorem le_day_stepped_iff {n : Nat} :
    n ≤ (d.stepped months k).day <->
      n ≤ d.day ∧ forall j, 1 ≤ j -> j ≤ k -> n ≤ d.daysAfter (j * months) := by
  induction k with
  | zero =>
      refine ⟨fun h => ⟨h, fun j hFirst hLast => ?_⟩, And.left⟩
      omega
  | succ k ih =>
      rw [stepped, day_addMonths, daysAfter_stepped, Nat.le_min, ih, and_assoc]
      apply and_congr_right
      intro _
      constructor
      · rintro ⟨hBefore, hNew⟩ j hFirst hLast
        rcases Nat.le_succ_iff.mp hLast with hOld | rfl
        · exact hBefore j hFirst hOld
        · exact hNew
      · intro h
        exact ⟨fun j hFirst hLast => h j hFirst (Nat.le_succ_of_le hLast),
          h (k + 1) (Nat.succ_pos k) (Nat.le_refl _)⟩

theorem day_stepped_mem (d : Date) (months k : Nat) :
    (d.stepped months k).day = d.day ∨
      exists j, 1 ≤ j ∧ j ≤ k ∧ (d.stepped months k).day = d.daysAfter (j * months) := by
  induction k with
  | zero => exact Or.inl rfl
  | succ k ih =>
      rw [stepped, day_addMonths, daysAfter_stepped]
      rcases Nat.le_total (d.stepped months k).day (d.daysAfter ((k + 1) * months))
        with hLong | hShort
      · rw [Nat.min_eq_left hLong]
        rcases ih with hFirst | ⟨j, hFirst, hLast, hDay⟩
        · exact Or.inl hFirst
        · exact Or.inr ⟨j, hFirst, Nat.le_succ_of_le hLast, hDay⟩
      · exact Or.inr ⟨k + 1, Nat.succ_pos k, Nat.le_refl _, Nat.min_eq_right hShort⟩

theorem isLeast_day_stepped (d : Date) (months k : Nat) :
    IsLeast {n | n = d.day ∨ exists j, 1 ≤ j ∧ j ≤ k ∧ n = d.daysAfter (j * months)}
      (d.stepped months k).day := by
  rcases le_day_stepped_iff.mp (Nat.le_refl (d.stepped months k).day) with ⟨hFirst, hRest⟩
  refine ⟨day_stepped_mem d months k, ?_⟩
  rintro n (rfl | ⟨j, hStart, hEnd, rfl⟩)
  · exact hFirst
  · exact hRest j hStart hEnd

/-!
# Steps and a single move
-/

theorem addMonths_zero (h : d.Exists) : d.addMonths 0 = d := by
  apply eq_of_monthIndex_eq (exists_addMonths h 0) h
  · rw [monthIndex_addMonths, Int.natCast_zero, Int.add_zero]
  · rw [day_addMonths, daysAfter, Int.natCast_zero, Int.add_zero]
    exact Nat.min_eq_left (toDay_eq h).2

theorem day_stepped_le (h : d.Exists) (months k : Nat) :
    (d.stepped months k).day ≤ (d.addMonths (k * months)).day := by
  cases k with
  | zero =>
      rw [Nat.zero_mul, addMonths_zero h]
      exact Nat.le_refl _
  | succ k =>
      rcases le_day_stepped_iff.mp (Nat.le_refl (d.stepped months (k + 1)).day)
        with ⟨hFirst, hRest⟩
      exact Nat.le_min.mpr ⟨hFirst, hRest (k + 1) (Nat.succ_pos k) (Nat.le_refl _)⟩

/-- Steps come to the date of a single move just if no month before was too short for it. -/
theorem stepped_eq_addMonths_iff (h : d.Exists) :
    d.stepped months k = d.addMonths (k * months) <->
      forall j, 1 ≤ j -> j ≤ k -> (d.addMonths (k * months)).day ≤ d.daysAfter (j * months) := by
  have hSteps := exists_stepped h months k
  have hMove := exists_addMonths h (k * months)
  constructor
  · intro hSame
    rw [← hSame]
    exact (le_day_stepped_iff.mp (Nat.le_refl _)).2
  · intro hLong
    apply eq_of_monthIndex_eq hSteps hMove
    · rw [monthIndex_stepped, monthIndex_addMonths]
    · apply Nat.le_antisymm (day_stepped_le h months k)
      exact le_day_stepped_iff.mpr ⟨Nat.min_le_left _ _, hLong⟩

theorem le_daysAfter (d : Date) (months : Nat) : 28 ≤ d.daysAfter months :=
  (daysInMonth_bounds _ (by omega)).1

theorem stepped_eq_addMonths (h : d.Exists) (hDay : d.day ≤ 28) (months k : Nat) :
    d.stepped months k = d.addMonths (k * months) := by
  apply (stepped_eq_addMonths_iff h).mpr
  intro j _ _
  calc
    (d.addMonths (k * months)).day ≤ d.day := Nat.min_le_left _ _
    _ ≤ 28 := hDay
    _ ≤ d.daysAfter (j * months) := d.le_daysAfter _

end Date

namespace Timestamp

open Calendar

variable {t u : Timestamp} {d : Date}

/-!
# The same time on other days
-/

def onDate? (t : Timestamp) (d : Date) : Option Timestamp :=
  ofParts? (d.toDay * 86400 + t.seconds % 86400) t.nanos

theorem addMonths?_eq (t : Timestamp) (months : Nat) :
    t.addMonths? months = t.onDate? (t.civil.date.addMonths months) :=
  rfl

theorem exists_civil_date (t : Timestamp) : t.civil.date.Exists :=
  (Date.ofDay_spec _).1

theorem toDay_civil_date (t : Timestamp) : t.civil.date.toDay = t.seconds / 86400 :=
  (Date.ofDay_spec _).2

theorem onDate?_civil_date (t : Timestamp) : t.onDate? t.civil.date = some t := by
  have hSeconds : t.civil.date.toDay * 86400 + t.seconds % 86400 = t.seconds := by
    rw [toDay_civil_date]
    omega
  unfold onDate?
  rw [hSeconds]
  exact ofParts?_self t

theorem parts_of_onDate?_eq_some (hd : d.Exists) (h : t.onDate? d = some u) :
    u.civil.date = d ∧ u.seconds % 86400 = t.seconds % 86400 ∧ u.nanos = t.nanos := by
  rcases parts_of_ofParts?_eq_some h with ⟨hSeconds, hNanos⟩
  refine ⟨?_, by omega, hNanos⟩
  have hDay : u.seconds / 86400 = d.toDay := by omega
  show Date.ofDay (u.seconds / 86400) = d
  rw [hDay]
  exact Date.ofDay_toDay hd

theorem onDate?_of_onDate?_eq_some (hd : d.Exists) (h : t.onDate? d = some u) (e : Date) :
    u.onDate? e = t.onDate? e := by
  rcases parts_of_onDate?_eq_some hd h with ⟨_, hOfDay, hNanos⟩
  unfold onDate?
  rw [hOfDay, hNanos]

theorem addMillis?_zero (t : Timestamp) : t.addMillis? 0 = some t := by
  have hWhole : Int.tdiv 0 1000 = 0 := rfl
  have hPart : Int.tmod 0 1000 = 0 := rfl
  unfold addMillis?
  simp only [hWhole, hPart, Int.zero_mul, Int.add_zero]
  by_cases hLeap : t.isLeap = true
  · have hNanos := isLeap_iff.mp hLeap
    have hMost := t.valid.2.2.1
    rw [if_pos hLeap, if_neg (by omega), if_neg (by omega), Int.toNat_natCast]
    exact ofParts?_self t
  · have hNanos : t.nanos < nanosPerSecond := Nat.not_le.mp fun h => hLeap (isLeap_iff.mpr h)
    have hCarry : (t.nanos : Int) / nanosPerSecond = 0 :=
      Int.ediv_eq_zero_of_lt (by omega) (by omega)
    have hRest : (t.nanos : Int) % nanosPerSecond = t.nanos :=
      Int.emod_eq_of_lt (by omega) (by omega)
    rw [if_neg hLeap, hCarry, hRest, Int.add_zero, Int.toNat_natCast]
    exact ofParts?_self t

def firstYear : Int :=
  -262143

def lastYear : Int :=
  262142

theorem firstSecond_eq : firstSecond = (daysBeforeYear firstYear - epochDay) * 86400 := by
  decide

theorem lastSecond_eq : lastSecond = (daysBeforeYear (lastYear + 1) - epochDay) * 86400 - 1 := by
  decide

theorem firstYear_le (t : Timestamp) : firstYear ≤ t.civil.date.year := by
  rcases Date.toDay_within_year t.exists_civil_date with ⟨_, hBefore⟩
  have hFirst := t.valid.1
  rw [toDay_civil_date] at hBefore
  rw [firstSecond_eq] at hFirst
  by_contra hEarly
  have hYears := daysBeforeYear_mono (Int.add_one_le_of_lt (Int.not_le.mp hEarly))
  omega

theorem isSome_onDate?_iff (hd : d.Exists) {months : Nat}
    (hMonth : d.monthIndex = t.civil.date.monthIndex + months) :
    (t.onDate? d).isSome = true <->
      (t.civil.date.monthIndex + months) / 12 ≤ lastYear := by
  rcases Date.toDay_within_year hd with ⟨hAfter, hBefore⟩
  rcases t.valid with ⟨_, _, hNanos, hLeap⟩
  have hYears : firstYear ≤ d.year := by
    rw [← Date.monthIndex_div hd]
    have hOwn := t.firstYear_le
    rw [← Date.monthIndex_div t.exists_civil_date] at hOwn
    omega
  have hDays := daysBeforeYear_mono hYears
  have hValid : Valid (d.toDay * 86400 + t.seconds % 86400) t.nanos <-> d.year ≤ lastYear := by
    unfold Valid
    rw [firstSecond_eq, lastSecond_eq]
    constructor
    · rintro ⟨_, hLast, _⟩
      by_contra hLate
      have hMore := daysBeforeYear_mono (Int.add_one_le_of_lt (Int.not_le.mp hLate))
      omega
    · intro hYear
      have hMost := daysBeforeYear_mono (Int.add_le_add_right hYear 1)
      refine ⟨by omega, by omega, hNanos, ?_⟩
      intro hCount
      have hMinute := hLeap hCount
      omega
  unfold onDate? ofParts?
  rw [← hMonth, Date.monthIndex_div hd, ← hValid]
  split
  · rename_i hInside
    simpa using hInside
  · rename_i hOutside
    simpa using hOutside

end Timestamp

end LayerAxes
