import LayerAxes.Dimension.Default
import LayerAxes.Dimension.Domain
import LayerAxes.Dimension.Histogram

/-!
# Dimensions

A dimension is an enabled axis of a layer together with the reader for the
layer's store.  It serves the domain, the histogram, the default value and the
form in which the domain is shown to clients.
-/

namespace LayerAxes

/-- An enabled dimension of a layer. -/
structure Dimension where
  layer : String
  axis : Axis
  config : DimensionConfig
  reader : Reader
  settings : Settings

namespace Dimension

def name (d : Dimension) : String :=
  d.axis.name

def dataType (d : Dimension) : DataType :=
  d.axis.dataType

def readAll (d : Dimension) (filter : Filter) (direction : Direction) : Answer Domain :=
  d.reader.readAll d.name filter d.dataType direction

def readDistinct (d : Dimension) (filter : Filter) (direction : Direction) : Answer Domain :=
  d.reader.readDistinct d.name filter d.dataType direction

def values (d : Dimension) (filter : Filter) : Answer (List Value) := do
  return (<- d.readDistinct filter .ascending).values

def histogram (d : Dimension) (filter : Filter) (resolution : String) : Attempt Histogram := do
  let domain <- (d.readAll filter .ascending).attempt
  Histogram.build domain.values resolution d.settings.maxHistogramBuckets

/-!
# Default value
-/

/-- The setting that is configured, or else the one that the axis implies. -/
def defaultSetting (d : Dimension) : DefaultSetting :=
  d.config.defaultValue.getD d.axis.implicitSetting

def defaultValueWith (d : Dimension) (setting : DefaultSetting) : Answer (Option Value) := do
  let domain <- d.readAll .everything .ascending
  setting.resolve domain.values d.dataType .ascending

def defaultValue (d : Dimension) : Answer (Option Value) :=
  d.defaultValueWith d.defaultSetting

/-!
# Presentation
-/

def interval (d : Dimension) (first last : Value) : String :=
  first.lower.format ++ d.settings.intervalSeparator ++ last.upper.format

def present (d : Dimension) (values : List Value) : List String :=
  match values.head?, values.getLast? with
  | some first, some last =>
      match d.config.presentation with
      | .list => values.map Value.format
      | .continuousInterval => [d.interval first last]
      | .discreteInterval =>
          match d.config.resolution with
          | some resolution => [d.interval first last ++ "/" ++ resolution]
          | none => [d.interval first last]
  | _, _ => []

def representation (d : Dimension) (filter : Filter) : Answer (List String) := do
  return d.present (<- d.values filter)

/-- The filter for rows that touch an envelope, where the store has geometries. -/
def spatialFilter (d : Dimension) (envelope : Envelope) : Answer Filter := do
  match <- d.reader.geometryName with
  | some geometry => return .touches geometry envelope
  | none => return .everything

def regionFilter (d : Dimension) (envelope : Option Envelope) : Answer Filter :=
  match envelope with
  | some e => d.spatialFilter e
  | none => .ok .everything

/-- The enabled dimensions of a layer: time, elevation, then custom ones by name. -/
def ofLayer (layer : LayerDefinition) (store : Store) (settings : Settings) :
    List Dimension :=
  (layer.configured.filter fun entry => entry.2.enabled).map fun entry =>
    { layer := layer.name
      axis := entry.1
      config := entry.2
      reader := Reader.ofStore store entry.2
      settings }

end Dimension
end LayerAxes
