import LayerAxes.Inspection.Command

/-!
# The program

Reads the arguments, the layer file and the variables that it refers to, and
prints the answer.
-/

namespace LayerAxes

def readEnvironment (text : Option String) : IO Environment := do
  let names := [Invocation.configVariable, Settings.bucketsVariable,
    Settings.separatorVariable] ++ Template.referencedVariables ((text.getD "").toList)
  let found <- names.filterMapM fun name => do
    return (<- IO.getEnv name).map fun value => (name, value)
  return fun name => found.lookup name

def readText (path : String) : IO (Option String) := do
  try return some (<- IO.FS.readFile path)
  catch _ => return none

def report (outcome : Outcome) : IO UInt32 := do
  unless outcome.complaint.isEmpty do IO.eprintln outcome.complaint
  IO.print outcome.output
  return outcome.status.toUInt32

end LayerAxes

open LayerAxes in
def main (args : List String) : IO UInt32 := do
  match Invocation.parse? (<- readEnvironment none) args with
  | none => report Invocation.misused
  | some invocation =>
      let text <- readText invocation.config
      report (invocation.run (<- readEnvironment text) text)
