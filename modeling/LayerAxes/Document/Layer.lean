import LayerAxes.Document.Fields
import LayerAxes.Layer.Config

/-!
# Layers as documents

How layers and the configurations of their dimensions are read from documents
and written to them.  Writing gives every field, and null for an absent value.
-/

namespace LayerAxes

def NameMap.ofJson? {α : Type} (read : Json -> Option α) : Json -> Option (NameMap α)
  | .object members => do
      let entries <- members.mapM fun member => (read member.2).map fun a => (member.1, a)
      return NameMap.ofList entries
  | _ => none

def NameMap.toJson {α : Type} (write : α -> Json) (map : NameMap α) : Json :=
  .object (map.entries.map fun entry => (entry.1, write entry.2))

namespace Presentation

def name : Presentation -> String
  | list => "LIST"
  | continuousInterval => "CONTINUOUS_INTERVAL"
  | discreteInterval => "DISCRETE_INTERVAL"

def all : List Presentation :=
  [list, continuousInterval, discreteInterval]

def ofJson? (j : Json) : Option Presentation :=
  j.choice? (all.map fun p => (p.name, p))

def toJson (p : Presentation) : Json :=
  .string p.name

end Presentation

namespace Strategy

def name : Strategy -> String
  | minimum => "MINIMUM"
  | maximum => "MAXIMUM"
  | nearest => "NEAREST"
  | fixed => "FIXED"

def all : List Strategy :=
  [minimum, maximum, nearest, fixed]

def ofJson? (j : Json) : Option Strategy :=
  j.choice? (all.map fun s => (s.name, s))

def toJson (s : Strategy) : Json :=
  .string s.name

end Strategy

namespace DefaultSetting

def fieldNames : List String :=
  ["strategy", "reference_value"]

def ofJson? (j : Json) : Option DefaultSetting := do
  let field <- j.fields? fieldNames
  return {
    strategy := <- Json.required Strategy.ofJson? (field "strategy")
    reference := <- Json.optional Json.string? (field "reference_value") }

def toJson (setting : DefaultSetting) : Json :=
  .object [
    ("strategy", setting.strategy.toJson),
    ("reference_value", Json.ofOption .string setting.reference)]

end DefaultSetting

namespace DimensionConfig

def fieldNames : List String :=
  ["enabled", "presentation", "resolution", "default_value", "attribute", "end_attribute",
    "units"]

def ofJson? (j : Json) : Option DimensionConfig := do
  let field <- j.fields? fieldNames
  return {
    enabled := <- Json.defaulted true Json.bool? (field "enabled")
    presentation := <- Json.defaulted .list Presentation.ofJson? (field "presentation")
    resolution := <- Json.optional Json.string? (field "resolution")
    defaultValue := <- Json.optional DefaultSetting.ofJson? (field "default_value")
    startAttribute := <- Json.optional Json.string? (field "attribute")
    endAttribute := <- Json.optional Json.string? (field "end_attribute")
    units := <- Json.optional Json.string? (field "units") }

def toJson (config : DimensionConfig) : Json :=
  .object [
    ("enabled", .bool config.enabled),
    ("presentation", config.presentation.toJson),
    ("resolution", Json.ofOption .string config.resolution),
    ("default_value", Json.ofOption DefaultSetting.toJson config.defaultValue),
    ("attribute", Json.ofOption .string config.startAttribute),
    ("end_attribute", Json.ofOption .string config.endAttribute),
    ("units", Json.ofOption .string config.units)]

end DimensionConfig

namespace LayerDefinition

def fieldNames : List String :=
  ["name", "time", "elevation", "custom"]

def ofJson? (j : Json) : Option LayerDefinition := do
  let field <- j.fields? fieldNames
  return {
    name := <- Json.required Json.string? (field "name")
    time := <- Json.optional DimensionConfig.ofJson? (field "time")
    elevation := <- Json.optional DimensionConfig.ofJson? (field "elevation")
    custom :=
      <- Json.defaulted NameMap.empty (NameMap.ofJson? DimensionConfig.ofJson?)
        (field "custom") }

def toJson (layer : LayerDefinition) : Json :=
  .object [
    ("name", .string layer.name),
    ("time", Json.ofOption DimensionConfig.toJson layer.time),
    ("elevation", Json.ofOption DimensionConfig.toJson layer.elevation),
    ("custom", layer.custom.toJson DimensionConfig.toJson)]

end LayerDefinition
end LayerAxes
