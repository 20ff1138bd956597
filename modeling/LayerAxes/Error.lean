/-!
# Errors

What can go wrong when a domain or a record is served.  Every error has a
message, a code of the map service protocol, and a status of the transport.
-/

namespace LayerAxes

inductive ServiceError where
  | missingParameter (name : String)
  | invalidParameter (name message : String)
  | layerNotFound (name : String)
  | unreadableValue (kind token : String)
  | dimensionNotFound (name : String)
  | unsupportedSort (subject : String)
  | pushbackViolation
  | store (message : String)
  | invalidConfig (message : String)
  | internal (message : String)
deriving DecidableEq, Repr

namespace ServiceError

def message : ServiceError -> String
  | missingParameter name => s!"Missing required parameter: {name}"
  | invalidParameter name message => s!"Invalid parameter value for '{name}': {message}"
  | layerNotFound name => s!"Layer not found: {name}"
  | unreadableValue kind token => s!"Cannot parse {kind} value '{token}'"
  | dimensionNotFound name => s!"Dimension not found: {name}"
  | unsupportedSort subject => s!"Cannot sort on {subject}"
  | pushbackViolation => "Pushback is only allowed once, right after reading an element"
  | store message => s!"Backing store error: {message}"
  | invalidConfig message => s!"Invalid configuration: {message}"
  | internal message => s!"Internal error: {message}"

def code : ServiceError -> String
  | missingParameter _ => "MissingParameterValue"
  | invalidParameter _ _ => "InvalidParameterValue"
  | layerNotFound _ => "LayerNotDefined"
  | unreadableValue _ _ => "InvalidDimensionValue"
  | dimensionNotFound _ => "MissingDimensionValue"
  | unsupportedSort _ => "InvalidParameterValue"
  | pushbackViolation => "NoApplicableCode"
  | store _ => "NoApplicableCode"
  | invalidConfig _ => "NoApplicableCode"
  | internal _ => "NoApplicableCode"

def status : ServiceError -> Nat
  | missingParameter _ => 400
  | invalidParameter _ _ => 400
  | unreadableValue _ _ => 400
  | unsupportedSort _ => 400
  | layerNotFound _ => 404
  | dimensionNotFound _ => 404
  | store _ => 503
  | pushbackViolation => 500
  | invalidConfig _ => 500
  | internal _ => 500

end ServiceError

abbrev Answer (α : Type) := Except ServiceError α

theorem Answer.exists_of_bind_eq_ok {ε α β : Type} {x : Except ε α} {f : α -> Except ε β}
    {b : β} (h : (x >>= f) = .ok b) : exists a, x = .ok a ∧ f a = .ok b := by
  cases x with
  | error e => cases h
  | ok a => exact ⟨a, rfl, h⟩

/-!
# Runs that break off

A run can also end without an answer of any kind.  It breaks off where a counter
would leave its word, or an array would grow past the memory that can be addressed.
-/

inductive Failure where
  | refused (e : ServiceError)
  | overflow
deriving DecidableEq, Repr

abbrev Attempt (α : Type) := Except Failure α

def Answer.attempt {α : Type} : Answer α -> Attempt α
  | .ok a => .ok a
  | .error e => .error (.refused e)

end LayerAxes
