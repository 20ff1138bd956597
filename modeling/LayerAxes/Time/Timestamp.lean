import LayerAxes.Time.Calendar

/-!
# Timestamps

A timestamp is a second of universal time, counted from 1970-01-01T00:00:00,
and nanoseconds within it.  A leap second follows the last second of a minute:
it is kept as that second, with its nanoseconds counted on from 10^9.  So it
comes after every other instant of the minute and before the next minute.
-/

namespace LayerAxes

namespace Timestamp

def nanosPerSecond : Nat :=
  1000000000

/-- The first second of year -262143. -/
def firstSecond : Int :=
  -8334601228800

/-- The last second of year 262142. -/
def lastSecond : Int :=
  8210266876799

/--
The second lies in the supported years, and nanoseconds beyond the second occur
at the end of a minute only.
-/
def Valid (seconds : Int) (nanos : Nat) : Prop :=
  firstSecond ≤ seconds ∧ seconds ≤ lastSecond ∧ nanos < 2 * nanosPerSecond ∧
    (nanosPerSecond ≤ nanos -> seconds % 60 = 59)

instance (seconds : Int) (nanos : Nat) : Decidable (Valid seconds nanos) :=
  inferInstanceAs (Decidable (_ ∧ _ ∧ _ ∧ (_ -> _)))

end Timestamp

structure Timestamp where
  seconds : Int
  nanos : Nat
  valid : Timestamp.Valid seconds nanos
deriving DecidableEq

namespace Timestamp

def ofParts? (seconds : Int) (nanos : Nat) : Option Timestamp :=
  if h : Valid seconds nanos then some ⟨seconds, nanos, h⟩ else none

instance : Ord Timestamp where
  compare a b := (compare a.seconds b.seconds).then (compare a.nanos b.nanos)

instance : LT Timestamp := ltOfOrd
instance : LE Timestamp := leOfOrd

def earlier (a b : Timestamp) : Timestamp :=
  if b < a then b else a

def later (a b : Timestamp) : Timestamp :=
  if a < b then b else a

def isLeap (t : Timestamp) : Bool :=
  nanosPerSecond ≤ t.nanos

def millis (t : Timestamp) : Int :=
  t.seconds * 1000 + (t.nanos / 1000000 : Nat)

/-!
# Moving in time
-/

/--
The instant some milliseconds later.  Within a leap second the nanoseconds
count on as long as they fit, a step back by less than a second included.  A
larger step starts from the ordinary second that the leap second is attached
to: a step forward from its nanoseconds, a step back from the second after it.
-/
def addMillis? (t : Timestamp) (millis : Int) : Option Timestamp :=
  let whole := millis.tdiv 1000
  let part := millis.tmod 1000 * 1000000
  let nanos : Int := t.nanos
  let carry (seconds : Int) (nanos : Int) : Option Timestamp :=
    let total := nanos + part
    ofParts? (seconds + whole + total / nanosPerSecond) (total % nanosPerSecond).toNat
  if t.isLeap then
    if 0 < whole ∨ (0 < part ∧ 2 * nanosPerSecond ≤ nanos + part) then
      carry t.seconds (nanos - nanosPerSecond)
    else if whole < 0 then
      carry (t.seconds + 1) (nanos - nanosPerSecond)
    else ofParts? t.seconds (nanos + part).toNat
  else carry t.seconds nanos

/-- The same time of day some months later, on the day that the calendar gives. -/
def addMonths? (t : Timestamp) (months : Nat) : Option Timestamp :=
  let date := (Date.ofDay (t.seconds / 86400)).addMonths months
  ofParts? (date.toDay * 86400 + t.seconds % 86400) t.nanos

end Timestamp
end LayerAxes
