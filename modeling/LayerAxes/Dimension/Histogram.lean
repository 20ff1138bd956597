import LayerAxes.Domain.Value
import LayerAxes.Settings
import LayerAxes.Time.Duration
import LayerAxes.Error

/-!
# Histograms

A histogram counts the values of a domain into buckets of one width, from the
smallest lower bound of the values to the largest upper bound.  A range counts
where its lower bound lies.  Buckets are closed on the left and open on the
right, except that the last one includes its end.
-/

namespace LayerAxes

structure Histogram where
  domain : String
  counts : List Nat
deriving DecidableEq, Repr

namespace Histogram

def empty : Histogram :=
  ⟨"", []⟩

def total (h : Histogram) : Nat :=
  h.counts.foldr (· + ·) 0

def badResolution (message : String) : Failure :=
  .refused (.invalidParameter "resolution" message)

def tooMany (buckets limit : Nat) : Failure :=
  badResolution s!"{buckets} buckets exceed the limit of {limit}"

def checkLimit (buckets limit : Nat) : Attempt Unit :=
  if limit < buckets then .error (tooMany buckets limit) else .ok ()

def outside (token : String) : Failure :=
  .refused (.internal s!"histogram value {token} lies outside the domain bounds")

def otherKind (v : Value) : Failure :=
  .refused (.unsupportedSort s!"{v.kind.name} value '{v.format}' in histogram domain")

/-- The most counts of 8 bytes that fit in less than 2^63 bytes. -/
def roomLimit : Nat :=
  1152921504606846975

def noCounts (buckets : Nat) : Attempt (Array Nat) :=
  if roomLimit < buckets then .error .overflow else .ok (Array.replicate buckets 0)

/--
Count how many times the place of each count occurs in a list.  A number past the
last place counts for the last place.
-/
def tally (counts : Array Nat) (indices : List Nat) : List Nat :=
  let last := counts.size - 1
  (indices.foldl (fun counts index => counts.modify (min index last) (· + 1)) counts).toList

/-!
# Numbers
-/

/-- What keeps a value on the edge of a bucket from falling short of it. -/
def edgeTolerance : Binary64 :=
  Binary64.ofRatio 1 1000000000

def numericExtent (v : Value) : Attempt (Extent Binary64) :=
  match v with
  | .number e => .ok e
  | other => .error (otherKind other)

def readWidth (resolution : String) : Attempt Binary64 :=
  match Binary64.parse? resolution with
  | none => .error (badResolution s!"'{resolution}' is not a number")
  | some width =>
      if width.isFinite && Binary64.zero < width then .ok width
      else .error (badResolution s!"step must be positive, got '{resolution}'")

def numericBounds (extents : List (Extent Binary64)) : Binary64 × Binary64 :=
  extents.foldl (fun bounds e => (bounds.1.lesser e.lower, bounds.2.greater e.upper))
    (Binary64.infinity, -Binary64.infinity)

/-- The number of buckets that reach from `min` to `max`; at least one. -/
def numericBuckets (min max width : Binary64) : Nat :=
  let raw := (max - min) / width - edgeTolerance
  Nat.max 1 (raw.within 0 Settings.countLimit Binary64.ceil).toNat

def numericIndex (min width x : Binary64) : Nat :=
  ((x - min) / width + edgeTolerance).within 0 Settings.countLimit Binary64.floor |>.toNat

def locateNumber (min max width x : Binary64) : Attempt Nat :=
  if min ≤ x ∧ x ≤ max then .ok (numericIndex min width x)
  else .error (outside x.format)

def ofNumbers (values : List Value) (resolution : String) (limit : Nat) :
    Attempt Histogram := do
  let width <- readWidth resolution
  let extents <- values.mapM numericExtent
  let (min, max) := numericBounds extents
  let buckets := numericBuckets min max width
  checkLimit buckets limit
  let counts <- noCounts buckets
  let indices <- extents.mapM fun e => locateNumber min max width e.lower
  return {
    domain := s!"{min.format}/{max.format}/{resolution}"
    counts := tally counts indices }

/-!
# Times

The edges of time buckets are found by stepping from the smallest lower bound,
since months differ in length.
-/

def temporalExtent (v : Value) : Attempt (Extent Timestamp) :=
  match v with
  | .time e => .ok e
  | other => .error (otherKind other)

def readStep (resolution : String) : Attempt Duration :=
  match Duration.parse resolution with
  | .ok step => .ok step
  | .error .malformed => .error (badResolution (Duration.unreadable resolution))
  | .error .overflow => .error .overflow

def temporalBounds (first : Extent Timestamp) (rest : List (Extent Timestamp)) :
    Timestamp × Timestamp :=
  rest.foldl (fun bounds e => (bounds.1.earlier e.lower, bounds.2.later e.upper))
    (first.lower, first.upper)

/--
Step on from `edge`, the last of the edges found, until `max` is reached.  Every
step makes a bucket, so there are as many steps as the limit allows buckets;
`steps` is the number of those left.
-/
def extendEdges (step : Duration) (max : Timestamp) (limit : Nat) (steps : Nat)
    (edges : Array Timestamp) (edge : Timestamp) : Attempt (Array Timestamp) :=
  if edge < max then
    match steps with
    | 0 => .error (tooMany edges.size limit)
    | steps + 1 =>
        match step.addTo? edge with
        | none => .error (badResolution "bucket edge overflows the calendar")
        | some next => extendEdges step max limit steps (edges.push next) next
  else .ok edges

/--
The first place of an array where a property fails, found by halving the part
in question.  The property has to hold up to a place and to fail from there on.
-/
def firstFailure {α : Type} (p : α -> Bool) (xs : Array α) (base size : Nat) : Nat :=
  if _h : 1 < size then
    let half := size / 2
    match xs[base + half]? with
    | some x =>
        if p x then firstFailure p xs (base + half) (size - half)
        else firstFailure p xs base (size - half)
    | none => base
  else
    match xs[base]? with
    | some x => if p x then base + 1 else base
    | none => base
termination_by size

def temporalIndex (edges : Array Timestamp) (t : Timestamp) : Nat :=
  firstFailure (fun edge => edge ≤ t) edges 0 edges.size - 1

def locateTime (min max : Timestamp) (edges : Array Timestamp) (t : Timestamp) : Attempt Nat :=
  if t < min ∨ max < t then .error (outside t.format)
  else .ok (temporalIndex edges t)

def ofTimes (values : List Value) (resolution : String) (limit : Nat) : Attempt Histogram := do
  let step <- readStep resolution
  match <- values.mapM temporalExtent with
  | [] => return empty
  | first :: rest =>
      let (min, max) := temporalBounds first rest
      let edges <- extendEdges step max limit limit #[min] min
      let buckets := Nat.max 1 (edges.size - 1)
      checkLimit buckets limit
      let counts <- noCounts buckets
      let indices <- (first :: rest).mapM fun e => locateTime min max edges e.lower
      return {
        domain := s!"{min.format}/{max.format}/{resolution}"
        counts := tally counts indices }

/-!
# Domains
-/

/--
The histogram of a domain.  Its first value decides between numbers and times;
texts have no histogram.
-/
def build (values : List Value) (resolution : String) (limit : Nat) : Attempt Histogram :=
  let resolution := String.ofList (Text.trim resolution.toList)
  match values with
  | [] => .ok empty
  | .number _ :: _ => ofNumbers values resolution limit
  | .time _ :: _ => ofTimes values resolution limit
  | .text _ :: _ => .error (badResolution "histograms are not supported on string domains")

end Histogram
end LayerAxes
