import LayerAxes.Proofs.Record.Fold
import LayerAxes.Proofs.Record.View

/-!
# Columns behind published properties

A record is published with the properties that it shows, and queries look at the
columns behind them.  Where a map lists a property more than once, a record may
show another column than the one that queries use.  This module says when both are
the same, and that filters and orders then judge a product as its record is shown.
-/

namespace LayerAxes

namespace Record

/-!
# Published records
-/

/-- The record as a row of the properties that it shows. -/
def published (record : Record) : Feature :=
  ⟨record.id, record.properties.entries⟩

/-- A run of rows that starts with `first` is folded into the record. -/
def FoldedFrom (columns : ColumnMap) (first : Feature) (record : Record) : Prop :=
  exists later records, ofRows columns (first :: later) = .ok (record :: records)

theorem published_of_foldedFrom {columns : ColumnMap} {first : Feature} {record : Record}
    (h : record.FoldedFrom columns first) : record.published = columns.view first := by
  rcases h with ⟨later, records, hRows⟩
  rw [ofRows_eq_ok, ofRuns_cons] at hRows
  cases hRows
  show Feature.mk first.id (propertiesOf columns first).entries = _
  rw [ColumnMap.entries_propertiesOf]
  rfl

theorem foldedFrom_of_ofRun?_eq_some {columns : ColumnMap} {first : Feature}
    {others : List Feature} {record : Record}
    (hAlike : forall row, row ∈ others -> row.id = first.id)
    (h : ofRun? columns (first :: others) = some record) : record.FoldedFrom columns first := by
  have hWhole : others.takeWhile (hasId first.id) = others := by
    apply List.takeWhile_eq_self_iff.mpr
    intro row hRow
    simpa [hasId] using hAlike row hRow
  refine ⟨others, ofRuns columns (others.dropWhile (hasId first.id)), ?_⟩
  cases h
  rw [ofRows_eq_ok, ofRuns_cons, hWhole]

theorem exists_foldedFrom {columns : ColumnMap} {rows : List Feature}
    {cut : List (List Feature)} (h : MaximalRuns rows cut) :
    exists records, ofRows columns rows = .ok records ∧
      List.Forall₂ (fun run record => exists first, run.head? = some first ∧
        record.FoldedFrom columns first) cut records := by
  refine ⟨ofRuns columns rows, ofRows_eq_ok columns rows, ?_⟩
  have hRuns := forall₂_ofRuns columns rows
  rw [runs_eq_of_maximalRuns h] at hRuns
  refine ((List.forall₂_and_left _ _).mpr ⟨h.alike, hRuns⟩).imp ?_
  rintro run record ⟨hAlike, hRecord⟩
  cases run with
  | nil => cases hRecord
  | cons first others =>
      refine ⟨first, rfl, foldedFrom_of_ofRun?_eq_some ?_ hRecord⟩
      intro row hRow
      exact hAlike row (List.mem_cons_of_mem _ hRow) first List.mem_cons_self

theorem find?_properties_of_foldedFrom {columns : ColumnMap} {first : Feature} {record : Record}
    (h : record.FoldedFrom columns first) (property : String) :
    record.properties.find? property = (columns.view first).get? property := by
  rw [← published_of_foldedFrom h]
  rfl

theorem exists_foldedFrom_row (columns : ColumnMap) (row : Feature) :
    exists record : Record, record.FoldedFrom columns row :=
  ⟨_, [], _, (ofRows_eq_ok columns [row]).trans (by rw [ofRuns_cons])⟩

end Record

namespace ColumnMap

theorem hasOneColumn_of_get?_view {columns : ColumnMap} {property : String}
    (h : forall row, (columns.view row).get? property =
      (columns.column? property).bind row.present?) : columns.HasOneColumn property := by
  intro column hColumn
  have hShown : (columns.columnsOf property).reverse.findSome?
      (Feature.present? ⟨"", [(column, .bool true)]⟩) ≠ none := by
    intro hNone
    have hCell := List.findSome?_eq_none_iff.mp hNone column (List.mem_reverse.mpr hColumn)
    simp [Feature.present?, Feature.get?, Entries.find?, Attribute.isNull] at hCell
  rw [← get?_view_eq_findSome?, h] at hShown
  cases hQueried : columns.column? property with
  | none =>
      rw [hQueried] at hShown
      exact absurd rfl hShown
  | some queried =>
      rw [hQueried] at hShown
      by_cases hSame : queried = column
      · rw [hSame]
      · have hOther : (queried == column) = false := by simpa using hSame
        exfalso
        apply hShown
        simp [Feature.present?, Feature.get?, Entries.find?, List.lookup_cons, hOther]

/--
Every run is folded into a record.  The record shows what queries find for a
property, whatever the columns hold, exactly when the property has one column.
Filters and orders on such properties judge a row as its record is shown.
-/
theorem records_show_queried_columns_iff (columns : ColumnMap) :
    (forall rows cut, MaximalRuns rows cut ->
      exists records, Record.ofRows columns rows = .ok records ∧
        List.Forall₂ (fun run record => exists first, run.head? = some first ∧
          Record.FoldedFrom columns first record) cut records) ∧
    (forall property,
      (forall (first : Feature) (record : Record), record.FoldedFrom columns first ->
        record.properties.find? property =
          (columns.column? property).bind first.present?) <->
      columns.HasOneColumn property) ∧
    (forall filter mapped, columns.mapFilter filter = .ok mapped ->
      (forall name, name ∈ filter.properties -> columns.HasOneColumn name) ->
      forall (first : Feature) (record : Record), record.FoldedFrom columns first ->
        mapped.evaluate first = filter.evaluate record.published) ∧
    forall keys mapped, keys.mapM columns.mapSortKey = .ok mapped ->
      (forall key, key ∈ keys -> columns.HasOneColumn key.property) ->
      forall (a b : Feature) (recordA recordB : Record), recordA.FoldedFrom columns a ->
        recordB.FoldedFrom columns b ->
        compareRows mapped a b = compareRows keys recordA.published recordB.published := by
  refine ⟨fun rows cut => Record.exists_foldedFrom, ?_, ?_, ?_⟩
  · intro property
    constructor
    · intro hShown
      apply hasOneColumn_of_get?_view
      intro row
      rcases Record.exists_foldedFrom_row columns row with ⟨record, hRecord⟩
      rw [← Record.find?_properties_of_foldedFrom hRecord, hShown row record hRecord]
    · intro hColumn first record hRecord
      rw [Record.find?_properties_of_foldedFrom hRecord, get?_view_of_hasOneColumn hColumn]
  · intro filter mapped hMap hColumns first record hRecord
    rw [Record.published_of_foldedFrom hRecord]
    exact evaluate_of_mapFilter_eq_ok hMap hColumns first
  · intro keys mapped hMap hColumns a b recordA recordB hA hB
    rw [Record.published_of_foldedFrom hA, Record.published_of_foldedFrom hB]
    exact compareRows_of_mapM_mapSortKey_eq_ok hMap hColumns a b

def renamedPlatform : ColumnMap :=
  ⟨[("platform", "platform"), ("platform", "satellite")]⟩

def twoPlatforms : Feature :=
  ⟨"1", [("platform", .text "A"), ("satellite", .text "B")]⟩

/-- A filter accepts the product by its first column, and the record shows the other one. -/
theorem later_column_hides_queried_one :
    exists record mapped,
      Record.ofRows renamedPlatform [twoPlatforms] = .ok [record] ∧
      record.properties.find? "platform" = some (.text "B") ∧
      (renamedPlatform.column? "platform").bind twoPlatforms.present? = some (.text "A") ∧
      renamedPlatform.mapFilter (.compare "platform" .equal (.text "A")) = .ok mapped ∧
      mapped.evaluate twoPlatforms = true := by
  have hRows := Record.ofRows_eq_ok renamedPlatform [twoPlatforms]
  rw [Record.ofRuns_cons] at hRows
  exact ⟨_, _, hRows, rfl, rfl, rfl, by decide⟩

end ColumnMap
end LayerAxes
