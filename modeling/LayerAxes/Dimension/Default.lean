import LayerAxes.Domain.Order
import LayerAxes.Domain.Token
import LayerAxes.Layer.Config

/-!
# Default values

A dimension has a default value: the least or the greatest of its domain, the
one nearest to a reference, or a fixed one that need not belong to the domain.
-/

namespace LayerAxes

/-- Without a setting, the latest time and the least of anything else. -/
def Axis.implicitSetting : Axis -> DefaultSetting
  | .time => { strategy := .maximum }
  | .elevation => { strategy := .minimum }
  | .custom _ => { strategy := .minimum }

namespace DefaultSetting

/-!
# Extremes
-/

/-- Of the best value so far and the next one, the one that is better. -/
def better (direction : Direction) (wanted : Ordering) (best v : Value) : Answer Value := do
  return if (<- Value.compareIn direction v best) = wanted then v else best

def extreme (direction : Direction) (wanted : Ordering) : List Value -> Answer (Option Value)
  | [] => .ok none
  | v :: rest => do return some (<- rest.foldlM (better direction wanted) v)

/-!
# References
-/

/-- The kind of a reference: that of the dimension, or of the domain, or its own. -/
def referenceKind (domain : List Value) (type : DataType) (token : String) : Kind :=
  match type.fixedKind with
  | some kind => kind
  | none =>
      match domain with
      | v :: _ => v.kind
      | [] => Token.classify type token

def referenceValue (setting : DefaultSetting) (domain : List Value) (type : DataType) :
    Answer Value :=
  match setting.reference with
  | none =>
      .error (.invalidConfig
        s!"default value strategy {setting.strategy.label} needs a reference value")
  | some token => Token.parse (referenceKind domain type token) token

/-!
# Distances
-/

/--
How far a value is from a place: nothing when the place lies between its
bounds, else as far as the nearer bound.
-/
def distance? (v : Value) (place : Binary64) : Option Binary64 := do
  let lower <- v.lower.place?
  let upper <- v.upper.place?
  return if lower ≤ place ∧ place ≤ upper then Binary64.zero
    else (lower - place).abs.lesser (upper - place).abs

/-- Of the best value so far, with its distance, and the next one, the nearer. -/
def nearer (place : Binary64) (best : Option (Binary64 × Value)) (v : Value) :
    Option (Binary64 × Value) :=
  match distance? v place, best with
  | none, _ => best
  | some d, none => some (d, v)
  | some d, some found => if d < found.1 then some (d, v) else best

def nearestTo (place : Binary64) (values : List Value) : Option Value :=
  (values.foldl (nearer place) none).map Prod.snd

/--
The value of a domain nearest to a reference.  Values are visited in order, so
that of two values at one distance the first is taken.  On the text axis only
the reference itself is near enough.
-/
def nearest (direction : Direction) (reference : Value) (domain : List Value) :
    Answer (Option Value) :=
  match reference.place? with
  | none => .ok (domain.find? fun v => v.same reference)
  | some place => do return nearestTo place (<- Value.sort direction domain)

/--
The default value of a domain.  There is none when the domain is empty, unless
the value is fixed, and none when no text is the one looked for.
-/
def resolve (setting : DefaultSetting) (domain : List Value) (type : DataType)
    (direction : Direction) : Answer (Option Value) :=
  match setting.strategy with
  | .minimum => extreme direction .lt domain
  | .maximum => extreme direction .gt domain
  | .nearest =>
      if domain.isEmpty then .ok none
      else do nearest direction (<- setting.referenceValue domain type) domain
  | .fixed => do return some (<- setting.referenceValue domain type)

end DefaultSetting
end LayerAxes
