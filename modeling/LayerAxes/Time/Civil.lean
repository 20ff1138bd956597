import LayerAxes.Time.Timestamp
import LayerAxes.Text.Basic

/-!
# Written time

A timestamp is written as `yyyy-MM-ddTHH:mm:ss.SSSZ`.  Years outside 0 to 9999
carry a sign, and second 60 is the leap second.  Reading is more tolerant than
writing: blanks may stand before each number, leading zeros may be missing, and
the fraction may have any number of digits or none.
-/

namespace LayerAxes

/-- A timestamp in calendar and clock fields; `second` is 60 in a leap second. -/
structure Civil where
  date : Date
  hour : Nat
  minute : Nat
  second : Nat
  nanos : Nat
deriving DecidableEq, Repr

namespace Civil

def Exists (c : Civil) : Prop :=
  c.date.Exists ∧ c.hour < 24 ∧ c.minute < 60 ∧ c.second ≤ 60 ∧
    c.nanos < Timestamp.nanosPerSecond

instance (c : Civil) : Decidable c.Exists :=
  inferInstanceAs (Decidable (_ ∧ _ ∧ _ ∧ _ ∧ _))

def toTimestamp? (c : Civil) : Option Timestamp :=
  if c.Exists then
    let minute := c.date.toDay * 86400 + (c.hour * 3600 + c.minute * 60 : Nat)
    if c.second = 60 then
      Timestamp.ofParts? (minute + 59) (c.nanos + Timestamp.nanosPerSecond)
    else Timestamp.ofParts? (minute + c.second) c.nanos
  else none

end Civil

def Timestamp.civil (t : Timestamp) : Civil :=
  let ofDay := (t.seconds % 86400).toNat
  { date := Date.ofDay (t.seconds / 86400)
    hour := ofDay / 3600
    minute := ofDay / 60 % 60
    second := if t.isLeap then ofDay % 60 + 1 else ofDay % 60
    nanos := t.nanos % nanosPerSecond }

namespace Civil

/-!
# Reading
-/

def readNumber? (most : Nat) (cs : List Char) : Option (Nat × List Char) :=
  let cs := Text.skipBlanks cs
  let ds := (cs.take most).takeWhile Char.isDigit
  if ds.isEmpty then none else some (Text.digitsValue ds, cs.drop ds.length)

def readDigits? (cs : List Char) : Option (Nat × List Char) :=
  let parts := Text.spanDigits cs
  if parts.1.isEmpty then none else some (Text.digitsValue parts.1, parts.2)

/-- A year, after blanks: with a sign of any length, else of up to four digits. -/
def readYear? (cs : List Char) : Option (Int × List Char) :=
  match Text.skipBlanks cs with
  | '-' :: rest => (readDigits? rest).map fun parts => (-parts.1, parts.2)
  | '+' :: rest => (readDigits? rest).map fun parts => (parts.1, parts.2)
  | rest => (readNumber? 4 rest).map fun parts => (parts.1, parts.2)

def readMark? (c : Char) : List Char -> Option (List Char)
  | [] => none
  | d :: cs => if c = d then some cs else none

/-- The value of a fraction's digits in nanoseconds; digits after the ninth do not count. -/
def fractionNanos (ds : List Char) : Nat :=
  Text.digitsValue (ds.take 9) * Nat.pow 10 (9 - ds.length)

def readFraction? : List Char -> Option Nat
  | [] => some 0
  | c :: cs =>
      if c = '.' ∧ !cs.isEmpty ∧ cs.all Char.isDigit then some (fractionNanos cs) else none

def read? (cs : List Char) : Option Civil := do
  let (year, cs) <- readYear? cs
  let (month, cs) <- readNumber? 2 (<- readMark? '-' cs)
  let (day, cs) <- readNumber? 2 (<- readMark? '-' cs)
  let (hour, cs) <- readNumber? 2 (<- readMark? 'T' cs)
  let (minute, cs) <- readNumber? 2 (<- readMark? ':' cs)
  let (second, cs) <- readNumber? 2 (<- readMark? ':' cs)
  let nanos <- readFraction? cs
  return { date := { year, month, day }, hour, minute, second, nanos }

/-!
# Writing
-/

/-- Years 0 to 9999 have four digits, others a sign and at least four digits. -/
def writeYear (year : Int) : List Char :=
  let sign := if year < 0 then ['-'] else if 9999 < year then ['+'] else []
  sign ++ Text.padded 4 year.natAbs

def write (c : Civil) : List Char :=
  writeYear c.date.year ++ ['-'] ++ Text.padded 2 c.date.month ++ ['-'] ++
    Text.padded 2 c.date.day ++ ['T'] ++ Text.padded 2 c.hour ++ [':'] ++
    Text.padded 2 c.minute ++ [':'] ++ Text.padded 2 c.second ++ ['.'] ++
    Text.padded 3 (c.nanos / 1000000)

end Civil

namespace Timestamp

def read? (cs : List Char) : Option Timestamp := do
  let fields <- Civil.read? (<- Text.dropLast? 'Z' cs)
  fields.toTimestamp?

def write (t : Timestamp) : List Char :=
  t.civil.write ++ ['Z']

def parse? (s : String) : Option Timestamp :=
  read? s.toList

def unreadable (s : String) : String :=
  s!"Invalid time format: {s}"

def format (t : Timestamp) : String :=
  String.ofList t.write

end Timestamp
end LayerAxes
