import LayerAxes.Record.Basic
import LayerAxes.Record.Traced

/-!
# Sources of records

A record source answers queries about published properties.  Joined rows cannot
be cut to a page, since a record takes as many of them as it has links.  So the
identifiers of a page are fetched first, without joins, and then the joined
rows of exactly these identifiers.
-/

namespace LayerAxes

/-- The tables that hold metadata documents and links, and their foreign keys. -/
structure AuxiliaryTables where
  metadataTable : String := "product_metadata"
  metadataForeignKey : String := "mid"
  linkTable : String := "product_ogclink"
  linkForeignKey : String := "product_id"
deriving DecidableEq, Repr

structure RecordSource where
  products : FeatureSource
  columns : ColumnMap
  tables : AuxiliaryTables := {}

namespace ColumnMap

/-!
# Queries on columns
-/

def mapFilter (columns : ColumnMap) (filter : Filter) : Answer Filter :=
  (filter.rename columns.column?).mapError fun property =>
    .invalidParameter "filter" s!"unknown property '{property}'"

/--
The columns of the properties asked for.  Properties without a column are left
out, and when none is left all columns are asked for.
-/
def mapProperties (columns : ColumnMap) (names : Option (List String)) :
    Option (List String) :=
  let mapped := (names.getD []).filterMap columns.column?
  if mapped.isEmpty then none else some mapped

/-- The newest products first, then by identifier, where these are published. -/
def defaultSort (columns : ColumnMap) : List SortKey :=
  ((columns.column? "timeStart").map fun c => SortKey.mk c .descending).toList ++
    ((columns.column? "identifier").map fun c => SortKey.mk c .ascending).toList

def mapSortKey (columns : ColumnMap) (key : SortKey) : Answer SortKey :=
  match columns.column? key.property with
  | some column => .ok { key with property := column }
  | none => .error (.unsupportedSort key.property)

/-- The order on columns; without criteria the default one, which keeps pages stable. -/
def mapSort (columns : ColumnMap) (keys : List SortKey) : Answer (List SortKey) :=
  if keys.isEmpty then .ok columns.defaultSort else keys.mapM columns.mapSortKey

end ColumnMap

namespace RecordSource

def mapQuery (source : RecordSource) (q : Query) : Answer Query := do
  let schema <- source.products.schema
  let filter <- source.columns.mapFilter q.filter
  let sortBy <- source.columns.mapSort q.sortBy
  return {
    typeName := schema.typeName
    filter
    properties := source.columns.mapProperties q.properties
    sortBy }

/-- A query lists a property; `standard` is the answer for one without a list. -/
def listsProperty (q : Query) (property : String) (standard : Bool) : Bool :=
  match q.properties with
  | some names => names.contains property
  | none => standard

/-- The join that adds metadata; products without metadata are dropped. -/
def metadataJoin (tables : AuxiliaryTables) : Join :=
  { table := tables.metadataTable
    joinedAs := Record.metadataAlias
    foreignKey := tables.metadataForeignKey
    outer := false }

def linkJoin (tables : AuxiliaryTables) : Join :=
  { table := tables.linkTable
    joinedAs := Record.linkAlias
    foreignKey := tables.linkForeignKey
    outer := true }

/-- The joins that a query needs: metadata if listed, links if listed or without a list. -/
def joins (source : RecordSource) (q : Query) : List Join :=
  (if listsProperty q Record.metadataProperty false then [metadataJoin source.tables] else []) ++
    (if listsProperty q Record.linksProperty true then [linkJoin source.tables] else [])

def pageQuery (source : RecordSource) (q : Query) : Answer Query := do
  let mapped <- source.mapQuery q
  return { mapped with startIndex := q.startIndex, maxFeatures := q.maxFeatures }

def joinedQuery (source : RecordSource) (q : Query) : Answer Query := do
  let mapped <- source.mapQuery q
  return { mapped with joins := source.joins q }

/-!
# Answers
-/

def features (source : RecordSource) (q : Query) : Traced (List Record) := do
  let page <- Traced.query source.products (<- Traced.ofAnswer (source.pageQuery q))
  let ids := (page.map fun (row : Feature) => row.id).eraseDups
  if ids.isEmpty then return []
  else
    let joined <- Traced.ofAnswer (source.joinedQuery q)
    let rows <- Traced.query source.products { joined with filter := .ids ids }
    Traced.ofAnswer (Record.ofRows source.columns rows)

def count (source : RecordSource) (q : Query) : Traced Nat := do
  let rows <- Traced.query source.products (<- Traced.ofAnswer (source.pageQuery q))
  return rows.length

def bounds (source : RecordSource) (q : Query) : Traced Envelope := do
  let rows <- Traced.query source.products (<- Traced.ofAnswer (source.pageQuery q))
  return Feature.boundsOf rows

end RecordSource
end LayerAxes
