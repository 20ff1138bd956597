import LayerAxes.Text.Basic

/-!
# Settings

Limits and separators that hold for all dimensions of all layers.  They come
from a layer file or from environment variables.
-/

namespace LayerAxes

abbrev Environment := String -> Option String

structure Settings where
  maxHistogramBuckets : Nat := 10000
  intervalSeparator : String := "--"
deriving DecidableEq, Repr

namespace Settings

def countLimit : Nat :=
  18446744073709551615

def readCount? (cs : List Char) : Option Nat :=
  let ds :=
    match cs with
    | '+' :: rest => rest
    | _ => cs
  (Text.whole? ds).filter fun n => n ≤ countLimit

def bucketsVariable : String :=
  "DIMENSIONS_MAX_HISTOGRAM_BUCKETS"

def separatorVariable : String :=
  "DIMENSIONS_INTERVAL_SEPARATOR"

/-- Settings from variables; a variable that cannot be read is left out. -/
def ofEnvironment (env : Environment) : Settings :=
  let standard : Settings := {}
  { maxHistogramBuckets :=
      ((env bucketsVariable).bind fun s => readCount? s.toList).getD
        standard.maxHistogramBuckets
    intervalSeparator := (env separatorVariable).getD standard.intervalSeparator }

inductive Fault where
  | noBuckets
  | noSeparator
deriving DecidableEq, Repr

def Fault.message : Fault -> String
  | noBuckets => "max_histogram_buckets must be > 0"
  | noSeparator => "interval_separator must not be empty"

def fault? (settings : Settings) : Option Fault :=
  if settings.maxHistogramBuckets = 0 then some .noBuckets
  else if settings.intervalSeparator.isEmpty then some .noSeparator
  else none

end Settings
end LayerAxes
