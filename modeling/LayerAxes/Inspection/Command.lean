import LayerAxes.Inspection.Arguments
import LayerAxes.Inspection.Basic

/-!
# Commands

The command line names a layer file and one question about it.  The answer is
written as a document; a question without answer ends with status 1, arguments
that are no question with status 2, and a run that breaks off with status 101.
-/

namespace LayerAxes

inductive Command where
  | list (layer : Option String)
  | domain (layer dimension : String) (region : Option Envelope) (repeated : Bool)
  | histogram (layer dimension resolution : String) (region : Option Envelope)
  | default (layer dimension : String) (setting : Option DefaultSetting)

structure Invocation where
  config : String
  command : Command

/-- How a run ends: its status, what it prints, and what it complains about. -/
structure Outcome where
  status : Nat
  output : String := ""
  complaint : String := ""
deriving DecidableEq, Repr

namespace Command

open Arguments

/-!
# Reading
-/

/-- The envelope that an option gives; it may be missing but not unreadable. -/
def region? (given : Given) : Option (Option Envelope) :=
  match given.lookup "bbox" with
  | none => some none
  | some text =>
      match Envelope.parse text with
      | .ok e => some (some e)
      | .error _ => none

def strategies : List (String × Strategy) :=
  [("minimum", .minimum), ("maximum", .maximum), ("nearest", .nearest), ("fixed", .fixed)]

def setting? (given : Given) : Option (Option DefaultSetting) :=
  match given.lookup "strategy" with
  | none => some none
  | some name => do
      let strategy <- strategies.lookup name
      return some { strategy, reference := given.lookup "reference" }

def list? (args : List String) : Option Command := do
  let given <- onlyOptions { long := [("layer", .valued)] } args
  return list (given.lookup "layer")

def domain? (args : List String) : Option Command := do
  let given <- onlyOptions
    { long := [("layer", .valued), ("dimension", .valued), ("bbox", .valued),
        ("duplicates", .flag)] } args
  return domain (<- given.lookup "layer") (<- given.lookup "dimension") (<- region? given)
    (given.lookup "duplicates").isSome

def histogram? (args : List String) : Option Command := do
  let given <- onlyOptions
    { long := [("layer", .valued), ("dimension", .valued), ("resolution", .valued),
        ("bbox", .valued)] } args
  return histogram (<- given.lookup "layer") (<- given.lookup "dimension")
    (<- given.lookup "resolution") (<- region? given)

def default? (args : List String) : Option Command := do
  let given <- onlyOptions
    { long := [("layer", .valued), ("dimension", .valued), ("strategy", .valued),
        ("reference", .valued)] } args
  return default (<- given.lookup "layer") (<- given.lookup "dimension") (<- setting? given)

def parse? : List String -> Option Command
  | "list" :: args => list? args
  | "domain" :: args => domain? args
  | "histogram" :: args => histogram? args
  | "default" :: args => default? args
  | _ => none

/-!
# Answering
-/

def answer (inspector : Inspector) : Command -> Attempt Json
  | list layer => do
      return .array ((<- (inspector.list layer).attempt).map DimensionSummary.toJson)
  | domain layer dimension region repeated => do
      return (<- (inspector.domain layer dimension region repeated).attempt).toJson
  | histogram layer dimension resolution region => do
      return (<- inspector.histogram layer dimension resolution region).toJson
  | default layer dimension setting => do
      return (<- (inspector.defaultValue layer dimension setting).attempt).toJson

end Command

namespace Invocation

def configVariable : String :=
  "DIMENSION_INSPECT_CONFIG"

def options : Arguments.Options :=
  { long := [("config", .valued), ("log-level", .valued), ("json-logs", .flag)]
    short := [('c', "config")] }

def parse? (env : Environment) (args : List String) : Option Invocation := do
  let (given, rest) <- Arguments.readOptions options [] args
  let config <- (given.lookup "config").or (env configVariable)
  if config.isEmpty then none
  else return { config, command := <- Command.parse? rest }

/-- Run a command on the text of the layer file; there is none if it cannot be read. -/
def run (env : Environment) (invocation : Invocation) (text : Option String) : Outcome :=
  match Inspector.load env text with
  | .error e => { status := 1, complaint := e.message }
  | .ok inspector =>
      match invocation.command.answer inspector with
      | .error (.refused e) => { status := 1, complaint := e.message }
      | .error .overflow => { status := 101, complaint := "overflow" }
      | .ok report => { status := 0, output := report.pretty ++ "\n" }

def misused : Outcome :=
  { status := 2
    complaint := "usage: --config FILE (list | domain | histogram | default) OPTIONS" }

end Invocation
end LayerAxes
