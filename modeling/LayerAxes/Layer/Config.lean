import LayerAxes.Domain.Token
import LayerAxes.NameMap

/-!
# Configured layers

A layer is published with dimensions: time, elevation, and custom ones by name.
The configuration of a dimension says where its values are kept, how its domain
is presented, and which value is its default.
-/

namespace LayerAxes

inductive Axis where
  | time
  | elevation
  | custom (name : String)
deriving DecidableEq, Repr

namespace Axis

def name : Axis -> String
  | time => "time"
  | elevation => "elevation"
  | custom name => name

def dataType : Axis -> DataType
  | time => .temporal
  | elevation => .numeric
  | custom _ => .custom

def isCustom : Axis -> Bool
  | custom _ => true
  | _ => false

end Axis

inductive Presentation where
  | list
  | continuousInterval
  | discreteInterval
deriving DecidableEq, Repr

inductive Strategy where
  | minimum
  | maximum
  | nearest
  | fixed
deriving DecidableEq, Repr

def Strategy.label : Strategy -> String
  | minimum => "Minimum"
  | maximum => "Maximum"
  | nearest => "Nearest"
  | fixed => "Fixed"

structure DefaultSetting where
  strategy : Strategy
  reference : Option String := none
deriving DecidableEq, Repr

structure DimensionConfig where
  enabled : Bool := true
  presentation : Presentation := .list
  /-- The step of an interval: a number, or a duration on the time axis. -/
  resolution : Option String := none
  defaultValue : Option DefaultSetting := none
  startAttribute : Option String := none
  endAttribute : Option String := none
  units : Option String := none
deriving DecidableEq, Repr

instance : Inhabited DimensionConfig := ⟨{}⟩

structure LayerDefinition where
  name : String
  time : Option DimensionConfig := none
  elevation : Option DimensionConfig := none
  custom : NameMap DimensionConfig := NameMap.empty
deriving DecidableEq

namespace LayerDefinition

/-- The layer with a dimension put on an axis, in place of what was there. -/
def configure (layer : LayerDefinition) (axis : Axis) (config : DimensionConfig) :
    LayerDefinition :=
  match axis with
  | .time => { layer with time := some config }
  | .elevation => { layer with elevation := some config }
  | .custom name => { layer with custom := layer.custom.insert name config }

/-- Every configured dimension: time, elevation, then the custom ones by name. -/
def configured (layer : LayerDefinition) : List (Axis × DimensionConfig) :=
  (layer.time.map fun config => (Axis.time, config)).toList ++
    (layer.elevation.map fun config => (Axis.elevation, config)).toList ++
    layer.custom.entries.map fun entry => (Axis.custom entry.1, entry.2)

end LayerDefinition
end LayerAxes
