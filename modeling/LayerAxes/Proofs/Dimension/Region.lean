import LayerAxes.Proofs.Dimension.RowStore
import LayerAxes.Proofs.Envelope.Points
import LayerAxes.Proofs.Inspection.Listing

/-!
# Domains of a region

The filter of a region is judged by the store, on rows with all their attributes, while
values and bounds come from what is left of the rows.  Nothing is lost in between: under
the filter a store of rows is read as if it had only the rows with a geometry that has a
point in the region.  A flat raster has no geometries, and its filter accepts all rows.
-/

namespace LayerAxes

/-!
# Rows in a region
-/

def Feature.MeetsAt (row : Feature) (geometry : String) (region : Envelope) : Prop :=
  exists e x y, row.get? geometry = some (.geometry e) ∧
    e.containsPoint x y = true ∧ region.containsPoint x y = true

theorem Filter.evaluate_touches_iff {row : Feature} {geometry : String} {region : Envelope} :
    (touches geometry region).evaluate row = true <-> row.MeetsAt geometry region := by
  unfold Feature.MeetsAt evaluate
  cases hCell : row.get? geometry with
  | none => simp
  | some cell =>
      cases cell with
      | geometry e =>
          show e.intersects region = true <-> _
          rw [Envelope.intersects_iff_exists_containsPoint]
          constructor
          · rintro ⟨x, y, hPoint, hRegion⟩
            exact ⟨e, x, y, rfl, hPoint, hRegion⟩
          · rintro ⟨other, x, y, hOther, hPoint, hRegion⟩
            cases hOther
            exact ⟨x, y, hPoint, hRegion⟩
      | _ =>
          constructor
          · intro h
            cases h
          · rintro ⟨e, _, _, hOther, _⟩
            cases hOther

instance (row : Feature) (geometry : String) (region : Envelope) :
    Decidable (row.MeetsAt geometry region) :=
  decidable_of_iff _ Filter.evaluate_touches_iff

namespace RowStore

/-- The store with only the rows that have a geometry with some point of the region. -/
def within (s : RowStore) (geometry : String) (region : Envelope) : RowStore :=
  s.withRows (s.table.rows.filter fun row => row.MeetsAt geometry region)

theorem found_touches (s : RowStore) (names : AttributeNames) (geometry : String)
    (region : Envelope) :
    s.found names (.touches geometry region) =
      (s.within geometry region).found names .everything := by
  have hRows : (s.table.rows.filter fun row => (Filter.touches geometry region).evaluate row) =
      s.table.rows.filter fun row => row.MeetsAt geometry region := by
    apply List.filter_congr
    intro row _
    rw [Bool.eq_iff_iff, Filter.evaluate_touches_iff, decide_eq_true_iff]
  unfold found foundRows within columns
  rw [rows_withRows, schema_withRows, Filter.filter_everything, hRows]

theorem dimensionRows_touches (s : RowStore) (config : DimensionConfig) (dimension : String)
    (type : DataType) (geometry : String) (region : Envelope) :
    (Reader.ofStore s.store config).dimensionRows dimension (.touches geometry region) type =
      (Reader.ofStore (s.within geometry region).store config).dimensionRows dimension
        .everything type := by
  rw [dimensionRows_ofStore, dimensionRows_ofStore, found_touches, within, names_withRows]

end RowStore

/-!
# Dimensions of a region
-/

namespace Dimension

variable (settings : Settings) (layer : String) (entry : Axis × DimensionConfig)

theorem spatialFilter_onStore (s : RowStore) {geometry : String}
    (hGeometry : s.table.schema.geometry = some geometry) (region : Envelope) :
    (onStore settings layer s.store entry).spatialFilter region =
      .ok (.touches geometry region) := by
  have hName : (Reader.ofStore s.store entry.2).geometryName = .ok (some geometry) := by
    rw [s.geometryName_ofStore, hGeometry]
  show ((Reader.ofStore s.store entry.2).geometryName >>= _) = _
  rw [hName]
  rfl

/--
Envelopes touch just when they have a point in common.  So a dimension of a store of
rows is read under the filter of a region as if the store had only the rows with a
geometry that has a point in the region; a dimension of a flat raster is read as if
there were no filter.
-/
theorem spatial_filter_is_exact :
    (forall a b : Envelope, a.intersects b = true <->
      exists x y, a.containsPoint x y = true ∧ b.containsPoint x y = true) ∧
    (forall (s : RowStore) (settings : Settings) (layer : String)
        (entry : Axis × DimensionConfig) (geometry : String) (region : Envelope),
      s.table.schema.geometry = some geometry ->
      exists filter,
        (onStore settings layer s.store entry).spatialFilter region = .ok filter ∧
        forall direction,
          (onStore settings layer s.store entry).readAll filter direction =
              (onStore settings layer (s.within geometry region).store entry).readAll
                .everything direction ∧
            (onStore settings layer s.store entry).readDistinct filter direction =
              (onStore settings layer (s.within geometry region).store entry).readDistinct
                .everything direction) ∧
    forall (source : MetadataSource) (settings : Settings) (layer : String)
        (entry : Axis × DimensionConfig) (region : Envelope),
      exists filter,
        (onStore settings layer (.flat source) entry).spatialFilter region = .ok filter ∧
        forall direction,
          (onStore settings layer (.flat source) entry).readAll filter direction =
              (onStore settings layer (.flat source) entry).readAll .everything direction ∧
            (onStore settings layer (.flat source) entry).readDistinct filter direction =
              (onStore settings layer (.flat source) entry).readDistinct
                .everything direction := by
  refine ⟨Envelope.intersects_iff_exists_containsPoint, ?_, ?_⟩
  · intro s settings layer entry geometry region hGeometry
    refine ⟨_, spatialFilter_onStore settings layer entry s hGeometry region, ?_⟩
    intro direction
    exact Reader.readAll_and_readDistinct_eq
      (Reader.readOrdered_eq_of_dimensionRows_eq
        (s.dimensionRows_touches entry.2 entry.1.name entry.1.dataType geometry region)) direction
  · intro source settings layer entry region
    exact ⟨.everything, rfl, fun _ => ⟨rfl, rfl⟩⟩

def strait : FeatureTable where
  schema := { typeName := "strait", attributes := ["depth", "shape"], geometry := some "shape" }
  rows :=
    [⟨"shore", [("depth", .integer 4), ("shape", .geometry ⟨.zero, .zero, .infinity, .zero⟩)]⟩,
      ⟨"void", [("depth", .text "deep"),
        ("shape", .geometry ⟨.infinity, .zero, -.infinity, .zero⟩)]⟩]

def straitDepths (rows : List Feature) : Dimension :=
  onStore {} "strait" (RowStore.vector { strait with rows }).store
    (.elevation, { startAttribute := some "depth" })

theorem strait_is_read_to_its_edge :
    strait.schema.geometry = some "shape" ∧
      exists filter,
        (straitDepths strait.rows).spatialFilter ⟨-.infinity, .zero, -.zero, .infinity⟩ =
          .ok filter ∧
        (straitDepths strait.rows).readAll filter .descending =
          (straitDepths (strait.rows.take 1)).readAll .everything .descending := by
  refine ⟨rfl, ?_⟩
  rcases spatial_filter_is_exact.2.1 (.vector strait) {} "strait"
    (.elevation, { startAttribute := some "depth" }) "shape"
    ⟨-.infinity, .zero, -.zero, .infinity⟩ rfl with ⟨filter, hFilter, hReads⟩
  have hWithin : (RowStore.vector strait).within "shape" ⟨-.infinity, .zero, -.zero, .infinity⟩ =
      .vector { strait with rows := strait.rows.take 1 } := rfl
  rw [hWithin] at hReads
  exact ⟨filter, hFilter, (hReads .descending).1⟩

end Dimension
end LayerAxes
