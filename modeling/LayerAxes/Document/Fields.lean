import LayerAxes.Json.Basic
import LayerAxes.Settings

/-!
# Fields of documents

A configuration is an object whose members are its fields, or an array of them
in their order.  Members of other names are ignored.  A field may be required,
have a standard value, or be optional; an optional field may also be null.
-/

namespace LayerAxes
namespace Json

def members (name : String) (all : List (String × Json)) : List Json :=
  (all.filter fun entry => entry.1 == name).map Prod.snd

/--
The values of fields by name, if the document is a configuration with these
fields: no field is given twice, and no array is longer than the list of fields.
-/
def fields? (names : List String) : Json -> Option (String -> Option Json)
  | object all =>
      if names.all fun name => (members name all).length ≤ 1 then
        some fun name => (members name all).head?
      else none
  | array items =>
      if items.length ≤ names.length then some fun name => (names.zip items).lookup name
      else none
  | _ => none

def required {α : Type} (read : Json -> Option α) (field : Option Json) : Option α :=
  field.bind read

def defaulted {α : Type} (standard : α) (read : Json -> Option α) : Option Json -> Option α
  | some value => read value
  | none => some standard

def optional {α : Type} (read : Json -> Option α) : Option Json -> Option (Option α)
  | some null => some none
  | some value => (read value).map some
  | none => some none

def arrayOf {α : Type} (read : Json -> Option α) : Json -> Option (List α)
  | array items => items.mapM read
  | _ => none

/-- Read one of several names; a name may also be the only member of an object. -/
def choice? {α : Type} (choices : List (String × α)) : Json -> Option α
  | string name => choices.lookup name
  | object [(name, null)] => choices.lookup name
  | _ => none

def whole? (literal : String) : Option Int :=
  match literal.toList with
  | '-' :: ds => (Text.whole? ds).map fun n => -(n : Int)
  | ds => (Text.whole? ds).map Int.ofNat

def count? : Json -> Option Nat
  | number literal =>
      (Text.whole? literal.toList).filter fun n => n ≤ Settings.countLimit
  | _ => none

end Json
end LayerAxes
