import LayerAxes.Proofs.Time.Advance
import LayerAxes.Proofs.Time.Expression
import LayerAxes.Proofs.Time.Months

/-!
# Where a step leads

A step moves the date by its months and then counts its milliseconds on.  In a calendar
without end it would always lead to some second.  It has no answer when this second is
past the last one, and for no other reason.
-/

namespace LayerAxes

theorem Date.toDay_le_toDay_addMonths {d : Date} (h : d.Exists) (months : Nat) :
    d.toDay ≤ (d.addMonths months).toDay := by
  rcases Nat.eq_zero_or_pos months with rfl | hSome
  · exact Int.le_of_eq (congrArg toDay (addMonths_zero h).symm)
  · exact Int.le_of_lt (toDay_lt_toDay_addMonths h hSome)

namespace Timestamp

variable {t : Timestamp} {seconds millis : Int} {nanos : Nat} {d : Date}

/-- The answer lies in a second, and there is none only if the calendar ends before it. -/
def Lands (answer : Option Timestamp) (second : Int) : Prop :=
  (answer = none ∧ lastSecond < second) ∨ exists u, answer = some u ∧ u.seconds = second

theorem lands_ofParts? (h : seconds ≤ lastSecond -> Valid seconds nanos) :
    Lands (ofParts? seconds nanos) seconds := by
  unfold ofParts?
  by_cases hLast : seconds ≤ lastSecond
  · rw [dif_pos (h hLast)]
    exact Or.inr ⟨_, rfl, rfl⟩
  · rw [dif_neg fun hValid => hLast hValid.2.1]
    exact Or.inl ⟨rfl, Int.not_le.mp hLast⟩

theorem lands_onDate? (hLater : t.civil.date.toDay ≤ d.toDay) :
    Lands (t.onDate? d) (d.toDay * 86400 + t.seconds % 86400) := by
  rcases t.valid with ⟨hFirst, _, hNanos, hLeap⟩
  rw [toDay_civil_date] at hLater
  apply lands_ofParts?
  intro hLast
  refine ⟨by omega, hLast, hNanos, fun hCount => ?_⟩
  have hMinute := hLeap hCount
  omega

theorem le_secondAfter (t : Timestamp) (hMillis : 0 ≤ millis) :
    t.seconds ≤ t.secondAfter millis := by
  unfold secondAfter nanosPerSecond
  omega

theorem lands_addMillis? (t : Timestamp) (hMillis : 0 ≤ millis) :
    Lands (t.addMillis? millis) (t.secondAfter millis) := by
  rcases t.valid with ⟨hFirst, _, hNanos, hLeap⟩
  have hLater := Int.le_trans hFirst (t.le_secondAfter hMillis)
  rw [addMillis?_eq t hMillis]
  apply lands_ofParts?
  intro hLast
  unfold nanosAfter
  split
  · rename_i hStays
    have hFits : (t.nanos + millis * 1000000).toNat < 2 * nanosPerSecond := by
      have hInLeap := isLeap_iff.mp hStays.1
      have hSecond := hStays.2
      unfold secondAfter nanosPerSecond at *
      omega
    refine ⟨hLater, hLast, hFits, fun _ => ?_⟩
    rw [hStays.2]
    exact hLeap (isLeap_iff.mp hStays.1)
  · have hRest : ((t.nanos % nanosPerSecond + millis * 1000000) % nanosPerSecond).toNat <
        nanosPerSecond := by
      unfold nanosPerSecond
      omega
    exact ⟨hLater, hLast, by omega, fun hCount => absurd hCount (Nat.not_le.mpr hRest)⟩

end Timestamp

namespace Duration

open Timestamp

variable {d : Duration} {t : Timestamp}

theorem addTo?_eq (d : Duration) (t : Timestamp) :
    d.addTo? t = (t.onDate? (t.civil.date.addMonths d.months)).bind fun shifted =>
      shifted.addMillis? d.millis.toInt := by
  unfold addTo?
  by_cases hNone : d.months = 0
  · rw [if_pos hNone, hNone, Date.addMonths_zero t.exists_civil_date, onDate?_civil_date]
  · rw [if_neg hNone, addMonths?_eq]

/-- The second that the step leads to, in a calendar without end. -/
def landing (d : Duration) (t : Timestamp) : Int :=
  (t.civil.date.addMonths d.months).toDay * 86400 + t.seconds % 86400 +
    (t.nanos % nanosPerSecond + d.millis.toInt * 1000000) / nanosPerSecond

theorem lands_addTo? (t : Timestamp) (hMillis : 0 ≤ d.millis.toInt) :
    Lands (d.addTo? t) (d.landing t) := by
  have hExists := t.exists_civil_date
  have hDays := Date.toDay_le_toDay_addMonths hExists d.months
  rw [addTo?_eq]
  rcases lands_onDate? hDays with ⟨hNone, hPast⟩ | ⟨shifted, hShifted, hSeconds⟩
  · rw [hNone]
    refine Or.inl ⟨rfl, ?_⟩
    unfold landing nanosPerSecond
    omega
  · have hNanos := (parts_of_onDate?_eq_some (Date.exists_addMonths hExists _) hShifted).2.2
    have hSecond : d.landing t = shifted.secondAfter d.millis.toInt := by
      unfold landing secondAfter
      rw [hSeconds, hNanos]
    rw [hShifted, hSecond]
    exact lands_addMillis? shifted hMillis

/--
A step that was read leads to a later timestamp, also from within a leap second.  Only where
the calendar ends before the second that the step leads to, it leads nowhere.
-/
theorem step_leads_later_within_calendar {s : String} (hRead : parse? s = some d)
    (t : Timestamp) :
    (d.addTo? t = none ∧ lastSecond < d.landing t) ∨
      exists u, d.addTo? t = some u ∧ u.seconds = d.landing t ∧ t < u := by
  have hMillis := zero_le_millis_of_parse?_eq_some hRead
  rcases lands_addTo? t hMillis with hNone | ⟨u, hStep, hSecond⟩
  · exact Or.inl hNone
  · have hLater := lt_of_addTo?_eq_some (isZero_of_parse?_eq_some hRead) hMillis hStep
    exact Or.inr ⟨u, hStep, hSecond, hLater⟩

def endOfLeapSecond : Timestamp :=
  ⟨1483228799, 1700000000, by decide⟩

theorem leap_step_leads_to_march :
    parse? "P2MT0.4S" = some ⟨2, 400⟩ ∧
      addTo? ⟨2, 400⟩ endOfLeapSecond = some ⟨1488326400, 100000000, by decide⟩ ∧
      endOfLeapSecond < ⟨1488326400, 100000000, by decide⟩ := by
  have hRead : parse? "P2MT0.4S" = some ⟨2, 400⟩ := by decide +kernel
  have hStep : addTo? ⟨2, 400⟩ endOfLeapSecond =
      some ⟨1488326400, 100000000, by decide⟩ := by decide +kernel
  refine ⟨hRead, hStep, ?_⟩
  rcases step_leads_later_within_calendar hRead endOfLeapSecond with
    ⟨hNone, _⟩ | ⟨u, hLands, _, hLater⟩
  · rw [hStep] at hNone
    cases hNone
  · rw [hStep] at hLands
    cases hLands
    exact hLater

end Duration
end LayerAxes
