import LayerAxes.Layer.Config
import LayerAxes.Store.Basic
import LayerAxes.Text.Upper

/-!
# Readers

A reader finds the rows that carry the values of a dimension, and the
attributes to take the values from.  A catalog names these attributes in its
descriptors, a vector store is told them by the configuration, and the metadata
of a flat raster is turned into rows, one for each token.
-/

namespace LayerAxes

structure AttributeNames where
  startName : Option String := none
  endName : Option String := none
deriving DecidableEq, Repr

structure DimensionRows where
  startName : String
  endName : Option String := none
  rows : Option (List Feature)

/-- The query for the rows of a dimension, with only the attributes it needs. -/
def dimensionQuery (schema : Schema) (filter : Filter) (startName : String)
    (endName : Option String) : Query :=
  { typeName := schema.typeName
    filter
    properties := some ([startName] ++ endName.toList ++ schema.geometry.toList) }

namespace GranuleCatalog

def coverage (catalog : GranuleCatalog) : Answer String := do
  match <- catalog.coverages with
  | name :: _ => return name
  | [] => throw (.store "granule catalog serves no coverage")

/--
The attributes that descriptors give for a dimension.  Names are compared
without regard to ASCII case, and the last descriptor for a name counts.
-/
def namesIn (descriptors : List Descriptor) (dimension : String) : AttributeNames :=
  let own := descriptors.filter fun d => Text.sameIgnoringAsciiCase d.name dimension
  match own.getLast? with
  | some d => { startName := some d.startAttribute, endName := d.endAttribute }
  | none => {}

def attributeNames (catalog : GranuleCatalog) (dimension : String) :
    Answer AttributeNames := do
  let coverage <- catalog.coverage
  return namesIn (<- catalog.descriptors coverage) dimension

def geometryName (catalog : GranuleCatalog) : Answer (Option String) := do
  let coverage <- catalog.coverage
  return (<- catalog.schema coverage).geometry

def dimensionRows (catalog : GranuleCatalog) (dimension : String) (filter : Filter) :
    Answer (Option DimensionRows) := do
  let coverage <- catalog.coverage
  let names := namesIn (<- catalog.descriptors coverage) dimension
  match names.startName with
  | none => return none
  | some startName =>
      let schema <- catalog.schema coverage
      let rows <- catalog.granules coverage
        (dimensionQuery schema filter startName names.endName)
      return some { startName, endName := names.endName, rows := some rows }

end GranuleCatalog

namespace MetadataSource

def domainKey (dimension : String) : String :=
  String.ofList (Text.upper dimension.toList) ++ "_DOMAIN"

def tokenRow (key : String) (index : Nat) (v : Value) : Feature :=
  Feature.ofList (toString index) [(key, .domain v)]

def tokenRows (key : String) (kind : Kind) : Nat -> List (List Char) -> Answer (List Feature)
  | _, [] => .ok []
  | index, token :: rest => do
      let v <- Token.read kind token
      return tokenRow key index v :: (<- tokenRows key kind (index + 1) rest)

def tokens (domain : String) : List (List Char) :=
  domain.toList.splitOn ','

def domainRows (key : String) (type : DataType) (domain : String) : Answer (List Feature) :=
  let all := tokens domain
  let kind := Token.classify type (String.ofList (all.headD []))
  tokenRows key kind 0 all

def dimensionRows (source : MetadataSource) (dimension : String) (filter : Filter)
    (type : DataType) : Answer DimensionRows := do
  let key := domainKey dimension
  match <- source.value key with
  | none => return { startName := key, rows := none }
  | some domain =>
      if domain.isEmpty then return { startName := key, rows := none }
      else
        let rows <- domainRows key type domain
        return { startName := key, rows := some (rows.filter fun row => filter.evaluate row) }

end MetadataSource

namespace FeatureSource

def dimensionRows (source : FeatureSource) (names : AttributeNames) (filter : Filter) :
    Answer (Option DimensionRows) := do
  match names.startName with
  | none => return none
  | some startName =>
      let schema <- source.schema
      let rows <- source.features (dimensionQuery schema filter startName names.endName)
      return some { startName, endName := names.endName, rows := some rows }

end FeatureSource

inductive Reader where
  | structured (catalog : GranuleCatalog)
  | flat (source : MetadataSource)
  | vector (source : FeatureSource) (names : AttributeNames)

namespace Reader

/-- The reader for a store; a vector store gets the configured attributes. -/
def ofStore (store : Store) (config : DimensionConfig) : Reader :=
  match store with
  | .structured catalog => structured catalog
  | .flat source => flat source
  | .vector source =>
      vector source { startName := config.startAttribute, endName := config.endAttribute }

def variant : Reader -> String
  | structured _ => "structured"
  | flat _ => "flat_metadata"
  | vector _ _ => "vector"

def attributeNames (reader : Reader) (dimension : String) : Answer AttributeNames :=
  match reader with
  | structured catalog => catalog.attributeNames dimension
  | flat _ => .ok { startName := some (MetadataSource.domainKey dimension) }
  | vector _ names => .ok names

/-- The attribute that holds geometries, if the store can filter by space. -/
def geometryName : Reader -> Answer (Option String)
  | structured catalog => catalog.geometryName
  | flat _ => .ok none
  | vector source _ => do return (<- source.schema).geometry

/-- The rows of a dimension that a filter accepts, if the store knows the dimension. -/
def dimensionRows (reader : Reader) (dimension : String) (filter : Filter)
    (type : DataType) : Answer (Option DimensionRows) :=
  match reader with
  | structured catalog => catalog.dimensionRows dimension filter
  | flat source => do return some (<- source.dimensionRows dimension filter type)
  | vector source names => source.dimensionRows names filter

end Reader
end LayerAxes
