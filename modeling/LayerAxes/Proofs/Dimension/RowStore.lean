import LayerAxes.Proofs.Dimension.Filtering
import LayerAxes.Proofs.NameMap

/-!
# Stores of rows

A catalog of granules and a vector table both keep rows in memory, under a schema, and
are read in one way once the attributes of the dimension are known: the rows that the
filter accepts, with the start, the end and the geometry of the schema.  What is done
with the values after that needs no rows, so rows with the same cells in these places
are read alike.
-/

namespace LayerAxes

/-!
# Rows and their cells
-/

namespace Feature

/-- The attributes are in the order of their names, so that no name is there twice. -/
def Ordered (row : Feature) : Prop :=
  Entries.Ordered row.attributes

theorem ordered_ofList (id : String) (entries : List (String × Attribute)) :
    (ofList id entries).Ordered :=
  Entries.ordered_insertAll List.Pairwise.nil entries

end Feature

/-!
# Stores
-/

/-- A store that keeps rows in memory: the catalog of one coverage, or a table. -/
inductive RowStore where
  | structured (coverage : Coverage)
  | vector (table : FeatureTable)

namespace RowStore

def store : RowStore -> Store
  | structured coverage => .structured coverage.catalog
  | vector table => .vector table.source

def table : RowStore -> FeatureTable
  | structured coverage => coverage.granules
  | vector table => table

def withRows : RowStore -> List Feature -> RowStore
  | structured coverage, rows =>
      structured { coverage with granules := { coverage.granules with rows } }
  | vector table, rows => vector { table with rows }

/-- The attributes of a dimension: those of its descriptor, or the configured ones. -/
def names (s : RowStore) (config : DimensionConfig) (dimension : String) : AttributeNames :=
  match s with
  | structured coverage => GranuleCatalog.namesIn coverage.descriptors dimension
  | vector _ => ⟨config.startAttribute, config.endAttribute⟩

variable (s : RowStore) (config : DimensionConfig) (dimension : String) (rows : List Feature)

@[simp]
theorem rows_withRows : (s.withRows rows).table.rows = rows := by
  cases s <;> rfl

@[simp]
theorem schema_withRows : (s.withRows rows).table.schema = s.table.schema := by
  cases s <;> rfl

@[simp]
theorem names_withRows : (s.withRows rows).names config dimension = s.names config dimension := by
  cases s <;> rfl

theorem attributeNames_ofStore :
    (Reader.ofStore s.store config).attributeNames dimension = .ok (s.names config dimension) := by
  cases s with
  | structured coverage =>
      show (coverage.answer coverage.name (.ok coverage.descriptors) >>= _) = _
      rw [coverage.answer_self]
      rfl
  | vector table => rfl

theorem geometryName_ofStore :
    (Reader.ofStore s.store config).geometryName = .ok s.table.schema.geometry := by
  cases s with
  | structured coverage =>
      show (coverage.answer coverage.name (.ok coverage.granules.schema) >>= _) = _
      rw [coverage.answer_self]
      rfl
  | vector table => rfl

def columns (names : AttributeNames) : List String :=
  names.startName.toList ++ names.endName.toList ++ s.table.schema.geometry.toList

def foundRows (names : AttributeNames) (filter : Filter) : List Feature :=
  (s.table.rows.filter fun row => filter.evaluate row).map fun row =>
    row.project (s.columns names)

def found (names : AttributeNames) (filter : Filter) : Option DimensionRows :=
  names.startName.map fun startName =>
    { startName, endName := names.endName, rows := some (s.foundRows names filter) }

theorem dimensionRows_ofStore (filter : Filter) (type : DataType) :
    (Reader.ofStore s.store config).dimensionRows dimension filter type =
      .ok (s.found (s.names config dimension) filter) := by
  have hTable : forall names, s.table.source.dimensionRows names filter =
      .ok (s.found names filter) := by
    rintro ⟨startName?, endName⟩
    cases startName? with
    | none => rfl
    | some startName =>
        exact Reader.dimensionRows_vector_table s.table startName endName dimension filter type
  cases s with
  | structured coverage =>
      show coverage.catalog.dimensionRows dimension filter = _
      rw [coverage.dimensionRows_catalog]
      exact hTable _
  | vector table => exact hTable _

variable {s config dimension} {filter : Filter} {type : DataType}
  {order : List Value -> Answer (List Value)}

theorem readOrdered_of_startName_eq_none (h : (s.names config dimension).startName = none) :
    (Reader.ofStore s.store config).readOrdered dimension filter type order =
      .ok Domain.empty := by
  unfold Reader.readOrdered
  rw [dimensionRows_ofStore, found, h]
  rfl

theorem readOrdered_of_startName_eq_some {startName : String}
    (h : (s.names config dimension).startName = some startName) :
    (Reader.ofStore s.store config).readOrdered dimension filter type order = (do
      let rows := s.foundRows (s.names config dimension) filter
      let values <- DimensionRows.readRows type startName (s.names config dimension).endName
        none rows
      return { bounds := Feature.boundsOf rows, values := <- order values }) := by
  unfold Reader.readOrdered
  rw [dimensionRows_ofStore, found, h]
  rfl

end RowStore
end LayerAxes
