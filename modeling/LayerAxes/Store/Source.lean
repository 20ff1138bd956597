import LayerAxes.Feature.Query

/-!
# Feature sources

A feature source answers queries with rows and describes them by a schema.  A
feature table is the source whose rows are held in memory.
-/

namespace LayerAxes

structure Schema where
  typeName : String
  attributes : List String := []
  geometry : Option String := none
deriving DecidableEq, Repr

namespace Schema

def addAttribute (schema : Schema) (name : String) : Schema :=
  { schema with attributes := schema.attributes ++ [name] }

def addGeometry (schema : Schema) (name : String) : Schema :=
  { schema.addAttribute name with geometry := some name }

end Schema

structure FeatureSource where
  schema : Answer Schema
  features : Query -> Answer (List Feature)

namespace FeatureSource

def count (source : FeatureSource) (q : Query) : Answer Nat := do
  return (<- source.features q).length

def bounds (source : FeatureSource) (q : Query) : Answer Envelope := do
  return Feature.boundsOf (<- source.features q)

end FeatureSource

structure FeatureTable where
  schema : Schema
  rows : List Feature

namespace FeatureTable

/--
The answer to a query: the accepted rows are sorted if there are criteria, cut to
the page and then reduced to the attributes asked for.  A table cannot join.
-/
def run (table : FeatureTable) (q : Query) : Answer (List Feature) :=
  if q.joins.isEmpty then
    let accepted := q.select table.rows
    let ordered := if q.sortBy.isEmpty then accepted else sortRows q.sortBy accepted
    .ok (q.projectRows (q.page ordered))
  else
    .error (.store s!"in-memory source '{table.schema.typeName}' cannot execute joins")

def source (table : FeatureTable) : FeatureSource :=
  { schema := .ok table.schema
    features := table.run }

end FeatureTable
end LayerAxes
