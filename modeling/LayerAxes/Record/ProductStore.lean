import LayerAxes.NameMap
import LayerAxes.Store.Source

/-!
# Product stores

A product store is a table of products with auxiliary tables that refer to
them.  A join returns one row for every row of the other table that refers to
the product, with that row as an attribute.
-/

namespace LayerAxes

structure ProductStore where
  schema : Schema
  products : List Feature
  tables : NameMap (List Feature)

/-- A row refers to an identifier in a column, as a text or as an integer. -/
def Feature.refersTo (row : Feature) (foreignKey id : String) : Bool :=
  match row.present? foreignKey with
  | some (.text s) => s == id
  | some (.integer n) => toString n == id
  | _ => false

namespace ProductStore

def joinRow (table : List Feature) (join : Join) (row : Feature) : List Feature :=
  let referring := table.filter fun other => other.refersTo join.foreignKey row.id
  if referring.isEmpty && join.outer then [row.set join.joinedAs .null]
  else referring.map fun other => row.set join.joinedAs (.feature other)

def joinRows (store : ProductStore) (rows : List Feature) (join : Join) :
    Answer (List Feature) :=
  match store.tables.find? join.table with
  | some table => .ok (rows.flatMap (joinRow table join))
  | none => .error (.store s!"no table named '{join.table}'")

/--
The answer to a query: the accepted products are sorted and reduced to the
attributes asked for, then joined, and cut to the page at the end.
-/
def run (store : ProductStore) (q : Query) : Answer (List Feature) := do
  let rows := q.projectRows (sortRows q.sortBy (q.select store.products))
  return q.page (<- q.joins.foldlM store.joinRows rows)

def source (store : ProductStore) : FeatureSource :=
  { schema := .ok store.schema
    features := store.run }

end ProductStore
end LayerAxes
