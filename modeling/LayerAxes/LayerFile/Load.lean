import LayerAxes.Json.Reader
import LayerAxes.LayerFile.Basic
import LayerAxes.LayerFile.Template

/-!
# Loading layer files

The text of a layer file has its variables replaced and is then read as a
document.
-/

namespace LayerAxes
namespace LayerFile

inductive LoadError where
  | unreadable
  | template (fault : Template.Fault)
  | malformed
  | noLayers
  | settings (fault : Settings.Fault)
deriving DecidableEq, Repr

def LoadError.message : LoadError -> String
  | unreadable => "Failed to read layer file"
  | template fault => fault.message
  | malformed => "Failed to parse layer file"
  | noLayers => "Layer file defines no layers"
  | settings fault => s!"Invalid dimension settings: {fault.message}"

/-- Load a layer file from its text; there is none if the file cannot be read. -/
def load (env : Environment) (text : Option String) : Except LoadError LayerFile := do
  match text with
  | none => throw .unreadable
  | some text =>
      let expanded <- (Template.expand env text.toList).mapError .template
      match (Json.read? expanded).bind ofJson? with
      | none => throw .malformed
      | some file => if file.layers.isEmpty then throw .noLayers else return file

/-- The settings of a file, or of the environment when the file has none. -/
def effectiveSettings (env : Environment) (file : LayerFile) : Except LoadError Settings :=
  let chosen := file.settings.getD (Settings.ofEnvironment env)
  match chosen.fault? with
  | some fault => .error (.settings fault)
  | none => .ok chosen

end LayerFile
end LayerAxes
