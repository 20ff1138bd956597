import LayerAxes.Error
import LayerAxes.Proofs.Time.Calendar
import LayerAxes.Proofs.Time.Order
import LayerAxes.Time.Duration

/-!
# Moving forward in time

A step of a duration that is not empty and has no negative part leads to a later
instant, whatever the calendar does to the day of the month and also from within
a leap second.
-/

namespace LayerAxes
namespace Timestamp

variable {t u : Timestamp}

theorem seconds_lt_of_addMonths?_eq_some {months : Nat} (hMonths : 1 ≤ months)
    (h : t.addMonths? months = some u) : t.seconds < u.seconds := by
  rcases Date.ofDay_spec (t.seconds / 86400) with ⟨hExists, hDay⟩
  have hLater := Date.toDay_lt_toDay_addMonths hExists hMonths
  rw [hDay] at hLater
  rw [(parts_of_ofParts?_eq_some h).1]
  omega

/-!
# Milliseconds forward

Milliseconds are counted on from the nanoseconds of the second.  A leap second counts from
the second that it is attached to, and is not left while its nanoseconds fit.
-/

/-- The second that lies some milliseconds after a timestamp. -/
def secondAfter (t : Timestamp) (millis : Int) : Int :=
  t.seconds + (t.nanos % nanosPerSecond + millis * 1000000) / nanosPerSecond

def nanosAfter (t : Timestamp) (millis : Int) : Int :=
  if t.isLeap ∧ t.secondAfter millis = t.seconds then t.nanos + millis * 1000000
  else (t.nanos % nanosPerSecond + millis * 1000000) % nanosPerSecond

variable {millis : Int}

theorem addMillis?_eq (t : Timestamp) (hMillis : 0 ≤ millis) :
    t.addMillis? millis = ofParts? (t.secondAfter millis) (t.nanosAfter millis).toNat := by
  have hNanos := t.valid.2.2.1
  unfold addMillis? nanosAfter secondAfter
  simp only [Int.tdiv_eq_ediv_of_nonneg hMillis, Int.tmod_eq_emod_of_nonneg hMillis,
    isLeap_iff, nanosPerSecond] at *
  by_cases hLeap : 1000000000 ≤ t.nanos
  · rw [if_pos hLeap]
    split
    · rw [if_neg (by omega)]
      congr 1
      all_goals omega
    · rw [if_neg (by omega), if_pos (by omega)]
      congr 1
      all_goals omega
  · rw [if_neg hLeap, if_neg (fun h => hLeap h.1)]
    congr 1
    all_goals omega

/-!
# Ticks

Ticks are milliseconds, except that every second has two thousand of them, so that there
is room for those of a leap second.
-/

def ticks (t : Timestamp) : Int :=
  2000 * t.seconds + (t.nanos / 1000000 : Nat)

theorem lt_of_ticks_lt (h : t.ticks < u.ticks) : t < u := by
  have hFirst := t.valid.2.2.1
  have hSecond := u.valid.2.2.1
  unfold ticks at h
  rw [lt_iff]
  simp only [nanosPerSecond] at *
  omega

theorem ticks_lt_of_seconds_lt (h : t.seconds < u.seconds) : t.ticks < u.ticks := by
  have hFirst := t.valid.2.2.1
  unfold ticks
  simp only [nanosPerSecond] at *
  omega

theorem ticks_sub_ticks_le (t u : Timestamp) : u.ticks - t.ticks ≤ 33089736211199999 := by
  rcases t.valid with ⟨hFirst, _, _, _⟩
  rcases u.valid with ⟨_, hLast, hNanos, _⟩
  unfold ticks
  simp only [firstSecond, lastSecond, nanosPerSecond] at *
  omega

theorem ticks_le_of_addMillis?_eq_some (hMillis : 0 ≤ millis)
    (h : t.addMillis? millis = some u) :
    t.ticks ≤ u.ticks ∧ (0 < millis -> t.ticks < u.ticks) := by
  have hNanos := t.valid.2.2.1
  rw [addMillis?_eq t hMillis] at h
  rcases parts_of_ofParts?_eq_some h with ⟨hSeconds, hRest⟩
  unfold nanosAfter at hRest
  unfold ticks
  simp only [secondAfter, isLeap_iff, nanosPerSecond] at *
  split at hRest
  · omega
  · omega

end Timestamp

namespace Duration

variable {d : Duration} {t u : Timestamp}

theorem isZero_of_parse?_eq_some {s : String} (h : parse? s = some d) : d.isZero = false := by
  have hRead := parse?_eq_some_iff_parse.mp h
  unfold parse read at hRead
  split at hRead
  · split at hRead
    · cases hRead
    · rcases Answer.exists_of_bind_eq_ok hRead with ⟨total, _, hTotal⟩
      cases hZero : total.isZero with
      | false =>
          rw [hZero] at hTotal
          cases hTotal
          exact hZero
      | true =>
          rw [hZero] at hTotal
          cases hTotal
  · cases hRead

theorem ticks_lt_of_addTo?_eq_some (hStep : d.isZero = false) (hMillis : 0 ≤ d.millis.toInt)
    (h : d.addTo? t = some u) : t.ticks < u.ticks := by
  rcases Option.bind_eq_some_iff.mp h with ⟨shifted, hMonths, hShifted⟩
  rcases Timestamp.ticks_le_of_addMillis?_eq_some hMillis hShifted with ⟨hLE, hLT⟩
  by_cases hNone : d.months = 0
  · rw [if_pos hNone] at hMonths
    cases hMonths
    apply hLT
    have hPart : d.millis ≠ 0 := by
      intro hZero
      simp [isZero, hNone, hZero] at hStep
    have hInt : d.millis.toInt ≠ 0 := by
      intro hZero
      exact hPart (Int64.toInt_inj.mp hZero)
    omega
  · rw [if_neg hNone] at hMonths
    have hSeconds :=
      Timestamp.seconds_lt_of_addMonths?_eq_some (Nat.pos_of_ne_zero hNone) hMonths
    exact Int.lt_of_lt_of_le (Timestamp.ticks_lt_of_seconds_lt hSeconds) hLE

theorem lt_of_addTo?_eq_some (hStep : d.isZero = false) (hMillis : 0 ≤ d.millis.toInt)
    (h : d.addTo? t = some u) : t < u :=
  Timestamp.lt_of_ticks_lt (ticks_lt_of_addTo?_eq_some hStep hMillis h)

end Duration
end LayerAxes
