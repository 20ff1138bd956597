import LayerAxes.Document.Layer
import LayerAxes.Document.Store
import LayerAxes.Feature.Attribute

/-!
# Layer files

A layer file lists layers with their dimensions and the store behind each, with
the contents of the store given in place.  It may also hold settings.  This
module says which documents are layer files.
-/

namespace LayerAxes

/-- A row as it is written: an identifier, and the values of its attributes. -/
structure RowEntry where
  id : String
  attributes : NameMap Json

inductive StoreEntry where
  | flat (metadata : NameMap String)
  | vector (typeName : String) (geometry : Option String) (rows : List RowEntry)
  | structured (coverage : String) (geometry : Option String) (descriptors : List Descriptor)
      (rows : List RowEntry)

structure LayerEntry where
  layer : LayerDefinition
  store : StoreEntry

structure LayerFile where
  settings : Option Settings
  layers : List LayerEntry

namespace RowEntry

def idField : String :=
  "id"

/-- A row is an object; all members but the identifier are attributes. -/
def ofJson? : Json -> Option RowEntry
  | .object members => do
      let field <- (Json.object members).fields? [idField]
      let id <- Json.required Json.string? (field idField)
      let attributes := members.filter fun member => member.1 != idField
      if attributes.all fun member => member.2.hasDistinctNames then
        return { id, attributes := NameMap.ofList attributes }
      else none
  | _ => none

end RowEntry

namespace StoreEntry

def kindField : String :=
  "kind"

/--
The kind of a store and the document of its other fields.  In an array the kind
comes first.
-/
def tagged? : Json -> Option (String × Json)
  | .object members => do
      let field <- (Json.object members).fields? [kindField]
      let kind <- Json.required Json.string? (field kindField)
      return (kind, .object members)
  | .array (.string kind :: items) => some (kind, .array items)
  | _ => none

def flatOfJson? (j : Json) : Option StoreEntry := do
  let field <- j.fields? ["metadata"]
  return flat (<- Json.required (NameMap.ofJson? Json.string?) (field "metadata"))

def vectorOfJson? (j : Json) : Option StoreEntry := do
  let field <- j.fields? ["type_name", "geometry", "features"]
  return vector (<- Json.required Json.string? (field "type_name"))
    (<- Json.optional Json.string? (field "geometry"))
    (<- Json.required (Json.arrayOf RowEntry.ofJson?) (field "features"))

def structuredOfJson? (j : Json) : Option StoreEntry := do
  let field <- j.fields? ["coverage", "geometry", "dimensions", "granules"]
  return structured (<- Json.required Json.string? (field "coverage"))
    (<- Json.optional Json.string? (field "geometry"))
    (<- Json.required (Json.arrayOf Descriptor.ofJson?) (field "dimensions"))
    (<- Json.required (Json.arrayOf RowEntry.ofJson?) (field "granules"))

def ofJson? (j : Json) : Option StoreEntry := do
  let (kind, contents) <- tagged? j
  match kind with
  | "flat" => flatOfJson? contents
  | "vector" => vectorOfJson? contents
  | "structured" => structuredOfJson? contents
  | _ => none

end StoreEntry

namespace LayerEntry

/-- A word of some bits can hold a whole number, with a sign or without one. -/
def fitsWord (bits : Nat) (n : Int) : Bool :=
  -(Nat.pow 2 (bits - 1) : Nat) ≤ n && n < (Nat.pow 2 bits : Nat)

/--
A whole number may have 64 bits.  One that needs up to 128 bits is refused, and
a longer one is taken for a decimal.
-/
def admits : Json -> Bool
  | .number literal =>
      match Json.whole? literal with
      | some n => fitsWord 64 n || !fitsWord 128 n
      | none => true
  | _ => true

/--
A layer entry is the object of a layer with one more field, the store.  All
numbers inside it have to be admitted, also those that nothing is read from.
-/
def ofJson? : Json -> Option LayerEntry
  | .object members => do
      guard ((Json.object members).every admits)
      let field <- (Json.object members).fields? ["store"]
      let store <- Json.required StoreEntry.ofJson? (field "store")
      return { layer := <- LayerDefinition.ofJson? (.object members), store }
  | _ => none

end LayerEntry

namespace LayerFile

/--
The separator of a layer file may be any scalar; numbers, truth values and null
stand for the text they are written with.
-/
def separator? : Json -> Option String
  | .string s => some s
  | .number literal => some literal
  | .bool true => some "true"
  | .bool false => some "false"
  | .null => some "null"
  | _ => none

def settingsOfJson? : Json -> Option Settings
  | .object members => Settings.ofFields? separator? (.object members)
  | _ => none

def ofJson? : Json -> Option LayerFile
  | .object members => do
      let field <- (Json.object members).fields? ["settings", "layers"]
      return {
        settings := <- Json.optional settingsOfJson? (field "settings")
        layers := <- Json.required (Json.arrayOf LayerEntry.ofJson?) (field "layers") }
  | _ => none

def find? (file : LayerFile) (name : String) : Option LayerEntry :=
  file.layers.find? fun entry => entry.layer.name == name

end LayerFile
end LayerAxes
