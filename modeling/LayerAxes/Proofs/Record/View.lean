import LayerAxes.Proofs.Answers
import LayerAxes.Proofs.Feature.Renaming
import LayerAxes.Proofs.NameMap
import LayerAxes.Proofs.Order.Row
import LayerAxes.Record.Source

/-!
# Products under their published names

A query speaks about published properties, but it is the columns that a store
filters and sorts by.  The view of a product has its columns under their
published names.  Filters and orders on views are turned into filters and orders
on products here, and the two agree on properties that have one column.
-/

namespace LayerAxes
namespace Feature

theorem present?_set_of_ne {name other : String} (h : other ≠ name) (value : Attribute)
    (row : Feature) : (row.set name value).present? other = row.present? other := by
  unfold present? get? set
  rw [Entries.find?_insert_of_ne h]

theorem get?_set_self (row : Feature) (name : String) (value : Attribute) :
    (row.set name value).get? name = some value :=
  Entries.find?_insert_self name value row.attributes

theorem get?_set_of_ne {name other : String} (h : other ≠ name) (value : Attribute)
    (row : Feature) : (row.set name value).get? other = row.get? other :=
  Entries.find?_insert_of_ne h value row.attributes

end Feature

namespace ColumnMap

/-!
# Views
-/

def cells (columns : ColumnMap) (product : Feature) : List (String × Attribute) :=
  columns.pairs.filterMap fun pair => (product.present? pair.2).map fun a => (pair.1, a)

def view (columns : ColumnMap) (product : Feature) : Feature :=
  Feature.ofList product.id (columns.cells product)

def Unambiguous (columns : ColumnMap) : Prop :=
  (columns.pairs.map Prod.fst).Nodup

def Maps (columns : ColumnMap) (property : String) : Prop :=
  (columns.column? property).isSome

instance (columns : ColumnMap) : Decidable columns.Unambiguous :=
  inferInstanceAs (Decidable (columns.pairs.map Prod.fst).Nodup)

instance (columns : ColumnMap) (property : String) : Decidable (columns.Maps property) :=
  inferInstanceAs (Decidable (_ = true))

theorem cells_cons (pair : String × String) (rest : List (String × String))
    (product : Feature) :
    cells ⟨pair :: rest⟩ product =
      ((product.present? pair.2).map fun a => (pair.1, a)).toList ++ cells ⟨rest⟩ product := by
  show ((pair :: rest).filterMap _) = _
  rw [List.filterMap_cons]
  cases product.present? pair.2 <;> rfl

/-!
# The columns of a property

A map may list a property more than once.  Queries use the first of its columns,
while a view shows the last one that is not null.
-/

def columnsOf (columns : ColumnMap) (property : String) : List String :=
  columns.pairs.filterMap fun pair => if property = pair.1 then some pair.2 else none

/-- Whatever column the map lists for a property is the one that queries use. -/
def HasOneColumn (columns : ColumnMap) (property : String) : Prop :=
  forall column, column ∈ columns.columnsOf property -> columns.column? property = some column

theorem columnsOf_cons (name column : String) (rest : List (String × String))
    (property : String) :
    columnsOf ⟨(name, column) :: rest⟩ property =
      (if property = name then [column] else []) ++ columnsOf ⟨rest⟩ property := by
  unfold columnsOf
  rw [List.filterMap_cons]
  by_cases hName : property = name <;> simp [hName]

theorem columnsOf_eq_nil_of_notMem {columns : ColumnMap} {property : String}
    (h : property ∉ columns.pairs.map Prod.fst) : columns.columnsOf property = [] := by
  apply List.filterMap_eq_nil_iff.mpr
  intro pair hPair
  rw [if_neg]
  rintro rfl
  exact h (List.mem_map_of_mem hPair)

theorem column?_eq_head? (columns : ColumnMap) (property : String) :
    columns.column? property = (columns.columnsOf property).head? := by
  rcases columns with ⟨pairs⟩
  induction pairs with
  | nil => rfl
  | cons pair rest ih =>
      rcases pair with ⟨name, column⟩
      show ((name, column) :: rest).lookup property = _
      rw [columnsOf_cons, List.lookup_cons]
      by_cases hName : property = name
      · simp [hName]
      · have hOther : (property == name) = false := by simpa using hName
        rw [hOther, if_neg hName]
        exact ih

theorem Unambiguous.hasOneColumn {columns : ColumnMap} (h : columns.Unambiguous)
    (property : String) : columns.HasOneColumn property := by
  intro column hColumn
  rw [column?_eq_head?]
  rcases columns with ⟨pairs⟩
  induction pairs with
  | nil => cases hColumn
  | cons pair rest ih =>
      rcases pair with ⟨name, first⟩
      rcases List.nodup_cons.mp h with ⟨hFirst, hRest⟩
      rw [columnsOf_cons] at hColumn ⊢
      by_cases hName : property = name
      · rw [columnsOf_eq_nil_of_notMem (hName ▸ hFirst), if_pos hName] at hColumn ⊢
        rw [List.mem_singleton.mp hColumn]
        rfl
      · rw [if_neg hName] at hColumn ⊢
        exact ih hRest hColumn

theorem lookup_cells (columns : ColumnMap) (product : Feature) (property : String) :
    (columns.cells product).lookup property =
      (columns.columnsOf property).findSome? product.present? := by
  rcases columns with ⟨pairs⟩
  induction pairs with
  | nil => rfl
  | cons pair rest ih =>
      rcases pair with ⟨name, column⟩
      rw [cells_cons, columnsOf_cons, List.lookup_append, List.findSome?_append, ih]
      congr 1
      by_cases hName : property = name
      · rw [if_pos hName, hName]
        cases hCell : product.present? column <;> simp [hCell]
      · have hOther : (property == name) = false := by simpa using hName
        rw [if_neg hName]
        cases product.present? column <;> simp [List.lookup_cons, hOther]

theorem get?_view_eq_findSome? (columns : ColumnMap) (product : Feature) (property : String) :
    (columns.view product).get? property =
      (columns.columnsOf property).reverse.findSome? product.present? := by
  have hCells : (columns.cells product).reverse = cells ⟨columns.pairs.reverse⟩ product :=
    List.filterMap_reverse.symm
  have hColumns : columnsOf ⟨columns.pairs.reverse⟩ property =
      (columns.columnsOf property).reverse := List.filterMap_reverse
  show Entries.find? property (Entries.insertAll [] (columns.cells product)) = _
  rw [Entries.find?_insertAll, hCells, lookup_cells, hColumns]
  exact Option.or_none

theorem get?_view_of_hasOneColumn {columns : ColumnMap} {property : String}
    (h : columns.HasOneColumn property) (product : Feature) :
    (columns.view product).get? property = (columns.column? property).bind product.present? := by
  rw [get?_view_eq_findSome?]
  unfold HasOneColumn at h
  rw [column?_eq_head?] at h ⊢
  cases hColumns : columns.columnsOf property with
  | nil => rfl
  | cons first others =>
      rw [hColumns] at h
      have hAlike : (first :: others).reverse =
          List.replicate (first :: others).reverse.length first := by
        apply List.eq_replicate_of_mem
        intro column hColumn
        exact (Option.some.inj (h column (List.mem_reverse.mp hColumn))).symm
      rw [hAlike, List.findSome?_replicate]
      simp

theorem get?_view {columns : ColumnMap} (h : columns.Unambiguous) (product : Feature)
    (property : String) :
    (columns.view product).get? property = (columns.column? property).bind product.present? :=
  get?_view_of_hasOneColumn (h.hasOneColumn property) product

theorem present?_view {columns : ColumnMap} {property column : String}
    (h : columns.HasOneColumn property) (product : Feature)
    (hColumn : columns.column? property = some column) :
    (columns.view product).present? property = product.present? column := by
  have hCell : (columns.view product).get? property = product.present? column := by
    rw [get?_view_of_hasOneColumn h, hColumn]
    rfl
  show ((columns.view product).get? property).filter _ = _
  rw [hCell]
  show ((product.get? column).filter _).filter _ = (product.get? column).filter _
  rw [Option.filter_filter]
  simp

theorem view_shows {columns : ColumnMap} {names : List String}
    (h : forall name, name ∈ names -> columns.HasOneColumn name) (product : Feature) :
    (columns.view product).Shows product columns.column? names where
  id_eq := rfl
  present?_eq name hName _ hColumn := present?_view (h name hName) product hColumn

theorem entries_propertiesOf (columns : ColumnMap) (product : Feature) :
    (Record.propertiesOf columns product).entries = (columns.view product).attributes :=
  NameMap.entries_ofList (columns.cells product)

/-!
# Filters and orders on views
-/

theorem evaluate_of_mapFilter_eq_ok {columns : ColumnMap} {filter mapped : Filter}
    (h : columns.mapFilter filter = .ok mapped)
    (hColumns : forall name, name ∈ filter.properties -> columns.HasOneColumn name)
    (product : Feature) : mapped.evaluate product = filter.evaluate (columns.view product) := by
  unfold mapFilter at h
  cases hRename : filter.rename columns.column? with
  | error property =>
      rw [hRename] at h
      cases h
  | ok renamed =>
      rw [hRename] at h
      cases h
      exact Filter.evaluate_of_rename_eq_ok filter hRename (view_shows hColumns product)

theorem exists_mapFilter_eq_ok {columns : ColumnMap} (h : columns.Unambiguous)
    {filter : Filter} (hMapped : forall name, name ∈ filter.properties -> columns.Maps name) :
    exists mapped, columns.mapFilter filter = .ok mapped ∧
      forall product, mapped.evaluate product = filter.evaluate (columns.view product) := by
  rcases (Filter.failsAtUnknown_rename filter).eq_ok_iff.mpr hMapped with ⟨mapped, hRename⟩
  have hMap : columns.mapFilter filter = .ok mapped := by
    unfold mapFilter
    rw [hRename]
    rfl
  exact ⟨mapped, hMap, evaluate_of_mapFilter_eq_ok hMap fun name _ => h.hasOneColumn name⟩

/-- The order on properties: without criteria the newest first, then by identifier. -/
def publishedSort (columns : ColumnMap) (keys : List SortKey) : List SortKey :=
  if keys.isEmpty then
    [⟨"timeStart", .descending⟩, ⟨"identifier", .ascending⟩].filter fun key =>
      (columns.column? key.property).isSome
  else keys

theorem mapSort_eq (columns : ColumnMap) (keys : List SortKey) :
    columns.mapSort keys = (columns.publishedSort keys).mapM columns.mapSortKey := by
  unfold mapSort publishedSort
  split
  · unfold defaultSort
    cases hTime : columns.column? "timeStart" with
    | none =>
        cases hId : columns.column? "identifier" with
        | none =>
            simp [hTime, hId]
            rfl
        | some c => simp [hTime, hId, mapSortKey]
    | some t =>
        cases hId : columns.column? "identifier" with
        | none => simp [hTime, hId, mapSortKey]
        | some c =>
            simp [hTime, hId, mapSortKey]
            rfl
  · rfl

theorem maps_of_mem_publishedSort {columns : ColumnMap} {keys : List SortKey}
    (h : forall key, key ∈ keys -> columns.Maps key.property) {key : SortKey}
    (hKey : key ∈ columns.publishedSort keys) : columns.Maps key.property := by
  unfold publishedSort at hKey
  split at hKey
  · exact (List.mem_filter.mp hKey).2
  · exact h key hKey

theorem compareRows_of_mapM_mapSortKey_eq_ok {columns : ColumnMap} {keys mapped : List SortKey}
    (h : keys.mapM columns.mapSortKey = .ok mapped)
    (hColumns : forall key, key ∈ keys -> columns.HasOneColumn key.property) (a b : Feature) :
    compareRows mapped a b = compareRows keys (columns.view a) (columns.view b) := by
  have hAll := Answer.mapM_eq_ok_iff.mp h
  induction hAll with
  | nil => rfl
  | @cons key mappedKey keys mapped hKey hRest ih =>
      rcases List.forall_mem_cons.mp hColumns with ⟨hFirst, hOthers⟩
      show (SortKey.compareRows _ _ _).then _ = (key.compareRows _ _).then _
      rw [ih (Answer.mapM_eq_ok_iff.mpr hRest) hOthers]
      unfold mapSortKey at hKey
      split at hKey
      · rename_i column hColumn
        cases hKey
        unfold SortKey.compareRows
        rw [present?_view hFirst a hColumn, present?_view hFirst b hColumn]
      · cases hKey

theorem exists_mapSortKey_eq_ok {columns : ColumnMap} {key : SortKey}
    (h : columns.Maps key.property) : exists mapped, columns.mapSortKey key = .ok mapped := by
  rcases Option.isSome_iff_exists.mp h with ⟨column, hColumn⟩
  refine ⟨{ key with property := column }, ?_⟩
  unfold mapSortKey
  rw [hColumn]

theorem exists_mapSort_eq_ok {columns : ColumnMap} (h : columns.Unambiguous)
    {keys : List SortKey} (hMapped : forall key, key ∈ keys -> columns.Maps key.property) :
    exists mapped, columns.mapSort keys = .ok mapped ∧
      forall a b, compareRows (columns.publishedSort keys) (columns.view a) (columns.view b) =
        compareRows mapped a b := by
  rw [mapSort_eq]
  rcases Answer.exists_mapM_eq_ok fun key hKey =>
      exists_mapSortKey_eq_ok (maps_of_mem_publishedSort hMapped hKey) with ⟨mapped, hMap⟩
  refine ⟨mapped, hMap, ?_⟩
  intro a b
  exact (compareRows_of_mapM_mapSortKey_eq_ok hMap
    (fun key _ => h.hasOneColumn key.property) a b).symm

end ColumnMap
end LayerAxes
