import LayerAxes.Json.Writer
import LayerAxes.LayerFile.Basic
import LayerAxes.Store.Basic

/-!
# Stores of layer files

The rows of a layer file become rows with attributes: a text that reads as a
timestamp becomes a time, a number without a point an integer where 64 bits
hold it.  The geometry is written as an envelope.
-/

namespace LayerAxes

def Json.integer? (literal : String) : Option Int :=
  (Json.whole? literal).filter fun n => -0x8000000000000000 ≤ n ∧ n < 0x8000000000000000

namespace RowEntry

/-- The attribute that a value stands for, or what is wrong with the value. -/
def ofValue : Json -> Except String Attribute
  | .null => .ok .null
  | .bool b => .ok (.bool b)
  | .number literal =>
      match Json.integer? literal with
      | some n => .ok (.integer n)
      | none =>
          match Binary64.parse? literal with
          | some x => .ok (.number x)
          | none => .error "number out of range"
  | .string s =>
      match Timestamp.parse? s with
      | some t => .ok (.time t)
      | none => .ok (.text s)
  | value => .error s!"unsupported attribute value {value.compact}"

/-- The geometry that a value stands for, or what is wrong with the value. -/
def ofGeometry : Json -> Except String Attribute
  | .string s =>
      match Envelope.parse s with
      | .ok e => .ok (.geometry e)
      | .error fault => .error fault.message
  | _ => .error "geometry must be a \"min_x,min_y,max_x,max_y\" string"

def cell (geometryName : Option String) (id name : String) (value : Json) :
    Except String Attribute :=
  if some name = geometryName then
    (ofGeometry value).mapError fun fault => s!"Bad geometry on feature {id}: {fault}"
  else
    (ofValue value).mapError fun fault => s!"Bad attribute {name} on feature {id}: {fault}"

/-- The row with its attributes; the first fault in the order of names is reported. -/
def feature (geometryName : Option String) (entry : RowEntry) : Except String Feature := do
  let cells <- entry.attributes.entries.mapM fun member => do
    return (member.1, <- cell geometryName entry.id member.1 member.2)
  return Feature.ofList entry.id cells

/--
The schema of rows: the names of their attributes in the order in which they
are met, and the geometry at the end.
-/
def schema (typeName : String) (geometryName : Option String) (entries : List RowEntry) :
    Schema :=
  let names := entries.flatMap fun entry => entry.attributes.entries.map Prod.fst
  let others := names.filter fun name => some name != geometryName
  let bare : Schema := { typeName, attributes := others.eraseDups }
  match geometryName with
  | some name => bare.addGeometry name
  | none => bare

def table (typeName : String) (geometryName : Option String) (entries : List RowEntry) :
    Except String FeatureTable := do
  return {
    schema := schema typeName geometryName entries
    rows := <- entries.mapM (feature geometryName) }

end RowEntry

def StoreEntry.build : StoreEntry -> Except String Store
  | flat metadata => .ok (.flat (MetadataSource.ofMap metadata))
  | vector typeName geometry rows => do
      return .vector (<- RowEntry.table typeName geometry rows).source
  | structured name geometry descriptors rows => do
      let granules <- RowEntry.table name geometry rows
      return .structured (Coverage.catalog { name, descriptors, granules })

end LayerAxes
