import LayerAxes.Text.Basic

/-!
# Options on the command line

An option is two hyphens and a name, a flag or with a value.  The value is the
next argument, or follows an equals sign; an argument that starts with a hyphen
is no value unless it is a single hyphen.  No option is given twice.
-/

namespace LayerAxes
namespace Arguments

inductive Arity where
  | flag
  | valued
deriving DecidableEq, Repr

structure Options where
  long : List (String × Arity)
  short : List (Char × String) := []

/-- The options that were given, with their values; a flag has an empty value. -/
abbrev Given := List (String × String)

def note (given : Given) (name value : String) : Option Given :=
  if (given.lookup name).isSome then none else some (given ++ [(name, value)])

def isValue (arg : String) : Bool :=
  arg = "-" || arg.toList.head? != some '-'

/--
An option as it is spelled: its name, its arity, and the value after the equals
sign.
-/
structure Spelled where
  name : String
  arity : Arity
  attached : Option String

def splitAssignment (cs : List Char) : List Char × Option String :=
  match Text.cutAt? '=' cs with
  | some (name, value) => (name, some (String.ofList value))
  | none => (cs, none)

def spelledLong? (options : Options) (cs : List Char) : Option Spelled :=
  let (name, attached) := splitAssignment cs
  let name := String.ofList name
  (options.long.lookup name).map fun arity => { name, arity, attached }

def spelledShort? (options : Options) (letter : Char) (cs : List Char) : Option Spelled := do
  let name <- options.short.lookup letter
  let arity <- options.long.lookup name
  let attached :=
    match cs with
    | [] => none
    | '=' :: value => some (String.ofList value)
    | value => some (String.ofList value)
  return { name, arity, attached }

inductive Argument where
  | option (spelled : Spelled)
  | separator
  | word (text : String)
  | unknown

def classify (options : Options) (arg : String) : Argument :=
  match arg.toList with
  | ['-', '-'] => .separator
  | '-' :: '-' :: cs => ((spelledLong? options cs).map .option).getD .unknown
  | '-' :: letter :: cs => ((spelledShort? options letter cs).map .option).getD .unknown
  | _ => .word arg

/--
Read options up to the first argument that is none; the answer is the options
and the arguments from there on.
-/
def readOptions (options : Options) (given : Given) :
    List String -> Option (Given × List String)
  | [] => some (given, [])
  | arg :: rest =>
      match classify options arg with
      | .unknown => none
      | .separator => some (given, arg :: rest)
      | .word _ => some (given, arg :: rest)
      | .option spelled =>
          match spelled.arity, spelled.attached with
          | .flag, none => do readOptions options (<- note given spelled.name "") rest
          | .flag, some _ => none
          | .valued, some value => do
              readOptions options (<- note given spelled.name value) rest
          | .valued, none =>
              match rest with
              | [] => none
              | value :: rest =>
                  if isValue value then
                    (note given spelled.name value).bind fun given =>
                      readOptions options given rest
                  else none

def onlyOptions (options : Options) (args : List String) : Option Given :=
  match readOptions options [] args with
  | some (given, []) => some given
  | some (given, ["--"]) => some given
  | _ => none

end Arguments
end LayerAxes
