import LayerAxes.Number.Decimal
import LayerAxes.Time.Timestamp
import LayerAxes.Text.Basic

/-!
# Durations

A duration such as `P1Y2M3DT4H5M6.5S` has a calendar part in months and a part
of fixed length in milliseconds.  A time is advanced by the months first, as
the calendar counts them, and then by the milliseconds.

Months are held below 2^32; a text with more is refused.  Milliseconds are counted
in a 64-bit word, and reading breaks off at a component that would take them out of it.
-/

namespace LayerAxes

structure Duration where
  months : Nat
  millis : Int64
deriving DecidableEq, Repr

namespace Duration

def zero : Duration :=
  ⟨0, 0⟩

def isZero (d : Duration) : Bool :=
  d.months == 0 && d.millis == 0

def ofMillis (millis : Int) : Duration :=
  ⟨0, Int64.ofInt millis⟩

/-- The largest number of months, and the largest whole number in a text. -/
def wholeLimit : Nat :=
  4294967295

/-- Why a text gives no duration: it is not the text of one, or the word overflows. -/
inductive Fault where
  | malformed
  | overflow
deriving DecidableEq, Repr

def add (a b : Duration) : Except Fault Duration :=
  let millis := a.millis.toInt + b.millis.toInt
  if wholeLimit < a.months + b.months then .error .malformed
  else if millis < Int64.minValue.toInt ∨ Int64.maxValue.toInt < millis then .error .overflow
  else .ok ⟨a.months + b.months, Int64.ofInt millis⟩

def addTo? (d : Duration) (t : Timestamp) : Option Timestamp :=
  ((if d.months = 0 then some t else t.addMonths? d.months)).bind fun shifted =>
    shifted.addMillis? d.millis.toInt

/-!
# Reading
-/

def isUnit (c : Char) : Bool :=
  c.isAlpha

/--
Cut a text into components, each a text without letters that is not empty, and
the letter after it.
-/
def components? : List Char -> List Char -> Option (List (List Char × Char))
  | [], [] => some []
  | _ :: _, [] => none
  | amount, c :: cs =>
      if isUnit c then
        if amount.isEmpty then none
        else (components? [] cs).map fun rest => (amount.reverse, c) :: rest
      else components? (c :: amount) cs

def whole? (cs : List Char) : Option Nat :=
  (Text.whole? cs).filter fun n => n ≤ wholeLimit

/-- A decimal number of seconds, as the nearest number of milliseconds. -/
def secondsMillis? (cs : List Char) : Option Int :=
  (Binary64.read? cs).bind fun seconds =>
    if seconds.isFinite && !(seconds < Binary64.zero) then
      let thousand := Binary64.ofInt 1000
      some ((seconds * thousand).within (-0x8000000000000000) 0x7FFFFFFFFFFFFFFF Binary64.round)
    else none

def dateComponent? (component : List Char × Char) : Option Duration :=
  (whole? component.1).bind fun n =>
    match component.2 with
    | 'Y' => some ⟨12 * n, 0⟩
    | 'M' => some ⟨n, 0⟩
    | 'W' => some (ofMillis (n * 604800000))
    | 'D' => some (ofMillis (n * 86400000))
    | _ => none

def timeComponent? (component : List Char × Char) : Option Duration :=
  match component.2 with
  | 'H' => (whole? component.1).map fun n => ofMillis (n * 3600000)
  | 'M' => (whole? component.1).map fun n => ofMillis (n * 60000)
  | 'S' => (secondsMillis? component.1).map ofMillis
  | _ => none

def addComponent (component? : List Char × Char -> Option Duration) (total : Duration)
    (component : List Char × Char) : Except Fault Duration :=
  match component? component with
  | none => .error .malformed
  | some d => total.add d

/-- Add the components of a text one by one, up to the first fault. -/
def addComponents (component? : List Char × Char -> Option Duration) (total : Duration)
    (cs : List Char) : Except Fault Duration :=
  match components? [] cs with
  | none => .error .malformed
  | some components => components.foldlM (addComponent component?) total

/-- Add up the part before the `T`, and then the part after it. -/
def sum (cs : List Char) : Except Fault Duration :=
  match Text.cutAt? 'T' cs with
  | none => addComponents dateComponent? zero cs
  | some (date, time) =>
      if time.isEmpty then .error .malformed
      else do addComponents timeComponent? (<- addComponents dateComponent? zero date) time

/-- Read a duration: the letter `P` and components that do not add up to nothing. -/
def read : List Char -> Except Fault Duration
  | 'P' :: cs =>
      if cs.isEmpty then .error .malformed
      else do
        let total <- sum cs
        if total.isZero then .error .malformed else .ok total
  | _ => .error .malformed

def parse (s : String) : Except Fault Duration :=
  read s.toList

def parse? (s : String) : Option Duration :=
  (parse s).toOption

theorem parse?_eq_some_iff_parse {s : String} {d : Duration} :
    parse? s = some d <-> parse s = .ok d := by
  unfold parse?
  cases parse s with
  | error fault => simp [Except.toOption]
  | ok own => simp [Except.toOption]

def unreadable (s : String) : String :=
  s!"Invalid ISO-8601 duration: {s}"

end Duration
end LayerAxes
