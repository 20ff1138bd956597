import LayerAxes.Inspection.Report
import LayerAxes.LayerFile.Load
import LayerAxes.LayerFile.Rows

/-!
# Inspection of layer files

An inspector answers questions about the dimensions of the layers in a file.
A layer is found by its name, the first entry of that name counting, and a
dimension by its name without regard to ASCII case.
-/

namespace LayerAxes

structure Inspector where
  file : LayerFile
  settings : Settings

namespace Inspector

def ofFile (env : Environment) (file : LayerFile) : Except LayerFile.LoadError Inspector := do
  return { file, settings := <- file.effectiveSettings env }

def load (env : Environment) (text : Option String) :
    Except LayerFile.LoadError Inspector := do
  ofFile env (<- LayerFile.load env text)

/-!
# Dimensions
-/

/-- The enabled dimensions of an entry, on the store that it describes. -/
def entryDimensions (inspector : Inspector) (entry : LayerEntry) : Answer (List Dimension) := do
  let store <- entry.store.build.mapError .invalidConfig
  return Dimension.ofLayer entry.layer store inspector.settings

def dimensions (inspector : Inspector) (layer : String) : Answer (List Dimension) :=
  match inspector.file.find? layer with
  | some entry => inspector.entryDimensions entry
  | none => .error (.layerNotFound layer)

def dimension (inspector : Inspector) (layer name : String) : Answer Dimension := do
  let all <- inspector.dimensions layer
  match all.find? fun d => Text.sameIgnoringAsciiCase d.name name with
  | some d => return d
  | none => throw (.dimensionNotFound s!"{layer}/{name}")

/-!
# Questions
-/

def summarize (d : Dimension) : Answer DimensionSummary := do
  return {
    layer := d.layer
    dimension := d.name
    store := d.reader.variant
    presentation := d.config.presentation
    defaultValue := (<- d.defaultValue).map Value.format }

def listLayer (inspector : Inspector) (layer : String) : Answer (List DimensionSummary) := do
  (<- inspector.dimensions layer).mapM summarize

/-- The dimensions of one layer, or of the layers of all entries in their order. -/
def list (inspector : Inspector) (layer : Option String) : Answer (List DimensionSummary) := do
  let names :=
    match layer with
    | some name => [name]
    | none => inspector.file.layers.map fun (entry : LayerEntry) => entry.layer.name
  return (<- names.mapM inspector.listLayer).flatten

def domain (inspector : Inspector) (layer name : String) (region : Option Envelope)
    (repeated : Bool) : Answer DomainReport := do
  let d <- inspector.dimension layer name
  let filter <- d.regionFilter region
  let found <-
    if repeated then d.readAll filter .ascending else d.readDistinct filter .ascending
  return {
    layer
    dimension := d.name
    values := found.values.map Value.format
    bounds := if found.bounds.isEmpty then none else some found.bounds
    representation := <- d.representation filter }

def histogram (inspector : Inspector) (layer name resolution : String)
    (region : Option Envelope) : Attempt Histogram := do
  let d <- (inspector.dimension layer name).attempt
  d.histogram (<- (d.regionFilter region).attempt) resolution

/-- The default value by a setting, or by the one in force for the dimension. -/
def defaultValue (inspector : Inspector) (layer name : String)
    (setting : Option DefaultSetting) : Answer DefaultReport := do
  let d <- inspector.dimension layer name
  let setting := setting.getD d.defaultSetting
  return {
    layer
    dimension := d.name
    strategy := setting.strategy
    value := (<- d.defaultValueWith setting).map Value.format }

end Inspector
end LayerAxes
