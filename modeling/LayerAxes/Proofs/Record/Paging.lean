import LayerAxes.Proofs.Answers
import LayerAxes.Proofs.Record.Publication

/-!
# Pages of records

A page is cut from the products, and a product takes all of its joined rows with
it.  Whatever is joined, and whichever attributes are asked for, the records of a
page come from its products one by one.  So pages of one size that follow each
other give the records of the whole answer, and count what they list.
-/

namespace LayerAxes

namespace Query

/-!
# Pages of a list
-/

/-- The query for one of the pages of a size, which are numbered from zero. -/
def nthPage (q : Query) (size number : Nat) : Query :=
  { q with startIndex := some (number * size), maxFeatures := some size }

section

variable {α : Type}

theorem page_nthPage_eq_nil (q : Query) {size number : Nat} {rows : List α}
    (h : rows.length ≤ number * size) : (q.nthPage size number).page rows = [] := by
  show (rows.drop (number * size)).take size = []
  rw [List.drop_eq_nil_of_le h]
  exact List.take_nil

theorem flatMap_page_nthPage (q : Query) (size pages : Nat) (rows : List α) :
    ((List.range pages).flatMap fun number => (q.nthPage size number).page rows) =
      rows.take (pages * size) := by
  induction pages with
  | zero =>
      rw [Nat.zero_mul]
      rfl
  | succ pages ih =>
      rw [List.range_succ, List.flatMap_append, ih, Nat.succ_mul, List.take_add,
        List.flatMap_singleton]
      rfl

theorem exists_lt_iff_mul_lt {size : Nat} (h : 1 ≤ size) (total : Nat) :
    exists pages, forall number, number < pages <-> number * size < total := by
  refine ⟨(total + (size - 1)) / size, ?_⟩
  intro number
  rw [Nat.lt_iff_add_one_le, Nat.le_div_iff_mul_le h, Nat.succ_mul]
  omega

end

end Query

namespace ProductStore

theorem nodup_matching {store : ProductStore} (h : (store.products.map Feature.id).Nodup)
    (q : Query) : ((store.matching q).map Feature.id).Nodup :=
  RecordSource.nodup_page q.unpaged h

section

variable {store : ProductStore} {columns : ColumnMap} {joins : List Join} {q : Query}

theorem nodup_filterMap_recordOf? {products : List Feature}
    (h : (products.map Feature.id).Nodup) :
    ((products.filterMap (store.recordOf? columns joins q)).map Record.id).Nodup := by
  rw [List.Nodup, List.pairwise_map] at h ⊢
  refine List.Pairwise.filterMap _ ?_ h
  intro left right hDiffer a ha b hb
  rw [id_of_recordOf?_eq_some ha, id_of_recordOf?_eq_some hb]
  exact hDiffer

theorem length_filterMap_recordOf? (hOuter : forall join, join ∈ joins -> join.outer = true)
    (products : List Feature) :
    (products.filterMap (store.recordOf? columns joins q)).length = products.length := by
  apply List.filterMap_length_eq_length.mpr
  intro product _
  unfold recordOf?
  cases hRows : store.expand joins (q.projectRow product) with
  | nil => exact absurd hRows (expand_ne_nil hOuter _)
  | cons row rows => rfl

end

end ProductStore

namespace RecordSource

section

variable {source : RecordSource} {q mapped : Query}

theorem exists_mapQuery_of_features_eq_ok {records : List Record}
    (h : (source.features q).answer = .ok records) :
    exists mapped, source.mapQuery q = .ok mapped := by
  unfold features pageQuery at h
  simp only [Traced.answer_bind, Traced.answer_ofAnswer] at h
  rcases Answer.exists_of_bind_eq_ok h with ⟨paged, hPaged, _⟩
  rcases Answer.exists_of_bind_eq_ok hPaged with ⟨mapped, hMap, _⟩
  exact ⟨mapped, hMap⟩

end

/-!
# Records from products
-/

section

variable {store : ProductStore} {columns : ColumnMap} {tables : AuxiliaryTables}
  {q mapped : Query}

theorem answer_count (h : mapQuery { products := store.source, columns, tables } q = .ok mapped) :
    (count { products := store.source, columns, tables } q).answer =
      .ok (q.page (store.matching mapped)).length := by
  unfold count
  simp only [Traced.answer_bind, Traced.answer_ofAnswer, Traced.answer_query, pageQuery_eq_ok h]
  show (store.run _ >>= _) = _
  rw [run_pageQuery h]
  show Except.ok ((q.page (store.matching mapped)).map mapped.projectRow).length = _
  rw [List.length_map]

theorem hasTables_of_features_eq_ok {records : List Record}
    (h : mapQuery { products := store.source, columns, tables } q = .ok mapped)
    (hRecords : (features { products := store.source, columns, tables } q).answer = .ok records)
    (hPage : q.page (store.matching mapped) ≠ []) :
    store.HasTables (joins { products := store.source, columns, tables } q) := by
  rw [answer_features_of_page h (run_pageQuery h), List.isEmpty_map,
    if_neg (by simpa using hPage)] at hRecords
  rcases Answer.exists_of_bind_eq_ok hRecords with ⟨rows, hRows, _⟩
  exact ProductStore.hasTables_of_run_eq_ok hRows

theorem outer_of_mem_joins (h : listsProperty q Record.metadataProperty false = false)
    {join : Join} (hJoin : join ∈ joins { products := store.source, columns, tables } q) :
    join.outer = true := by
  unfold joins at hJoin
  rw [h] at hJoin
  cases hLinks : listsProperty q Record.linksProperty true with
  | true =>
      rw [hLinks] at hJoin
      cases List.mem_singleton.mp hJoin
      rfl
  | false =>
      rw [hLinks] at hJoin
      cases hJoin

theorem count_eq_length_of_features {records : List Record}
    (hIds : (store.products.map Feature.id).Nodup)
    (h : listsProperty q Record.metadataProperty false = false)
    (hRecords : (features { products := store.source, columns, tables } q).answer = .ok records) :
    (count { products := store.source, columns, tables } q).answer = .ok records.length := by
  rcases exists_mapQuery_of_features_eq_ok hRecords with ⟨mapped, hMap⟩
  rw [answer_features hIds hMap (hasTables_of_features_eq_ok hMap hRecords)] at hRecords
  cases hRecords
  rw [answer_count hMap, ProductStore.length_filterMap_recordOf? fun _ => outer_of_mem_joins h]

theorem answer_features_of_unpaged {paged : Query} {records : List Record}
    (hIds : (store.products.map Feature.id).Nodup)
    (h : mapQuery { products := store.source, columns, tables } q.unpaged = .ok mapped)
    (hRecords : (features { products := store.source, columns, tables } q.unpaged).answer =
      .ok records)
    (hPaged : paged.unpaged = q.unpaged) :
    (features { products := store.source, columns, tables } paged).answer =
      .ok ((paged.page (store.matching mapped)).filterMap
        (store.recordOf? columns (joins { products := store.source, columns, tables } q)
          mapped)) := by
  have hMap : mapQuery { products := store.source, columns, tables } paged = .ok mapped := by
    show mapQuery _ paged.unpaged = _
    rw [hPaged]
    exact h
  have hJoins : joins { products := store.source, columns, tables } paged =
      joins { products := store.source, columns, tables } q := by
    show joins _ paged.unpaged = joins _ q.unpaged
    rw [hPaged]
  rw [← hJoins]
  apply answer_features hIds hMap
  intro hPage
  rw [hJoins]
  apply hasTables_of_features_eq_ok h hRecords
  intro hNone
  rw [Query.page_unpaged] at hNone
  apply hPage
  rw [hNone]
  exact List.sublist_nil.mp (paged.page_sublist [])

end

/--
The pages of a size, up to the first one past the products, have the records of
the whole answer in their order, each of them once; and an answer without metadata
has as many records as are counted.
-/
theorem pages_partition_records (store : ProductStore) (columns : ColumnMap)
    (tables : AuxiliaryTables) (q : Query) {records : List Record} {size : Nat}
    (hIds : (store.products.map Feature.id).Nodup)
    (hRecords : (RecordSource.features { products := store.source, columns, tables }
      q.unpaged).answer = .ok records)
    (hSize : 1 ≤ size) :
    let source : RecordSource := { products := store.source, columns, tables }
    (exists total pages parts,
      (source.count q.unpaged).answer = .ok total ∧
      (forall number, number < pages <-> number * size < total) ∧
      (List.range pages).mapM (fun number => (source.features (q.nthPage size number)).answer) =
        .ok parts ∧
      parts.flatten = records ∧
      forall number, pages ≤ number -> (source.features (q.nthPage size number)).answer = .ok []) ∧
    (records.map Record.id).Nodup ∧
    (forall paged : Query, paged.unpaged = q.unpaged ->
      exists shown, (source.features paged).answer = .ok shown) ∧
    forall (other : Query) (shown : List Record), (source.features other).answer = .ok shown ->
      listsProperty other Record.metadataProperty false = false ->
      (source.count other).answer = .ok shown.length := by
  intro source
  rcases exists_mapQuery_of_features_eq_ok hRecords with ⟨mapped, hMap⟩
  have hFeatures : forall paged : Query, paged.unpaged = q.unpaged ->
      (source.features paged).answer = .ok ((paged.page (store.matching mapped)).filterMap
        (store.recordOf? columns (source.joins q) mapped)) :=
    fun paged => answer_features_of_unpaged hIds hMap hRecords
  have hWhole := hFeatures q.unpaged rfl
  rw [hRecords, Query.page_unpaged] at hWhole
  cases hWhole
  rcases Query.exists_lt_iff_mul_lt hSize (store.matching mapped).length with ⟨pages, hPages⟩
  have hEnd : (store.matching mapped).length ≤ pages * size :=
    Nat.not_lt.mp fun hBefore => Nat.lt_irrefl _ ((hPages pages).mpr hBefore)
  refine ⟨⟨(store.matching mapped).length, pages, _, ?_, hPages,
    Answer.mapM_eq_ok_map fun number _ => hFeatures (q.nthPage size number) rfl, ?_, ?_⟩,
    ProductStore.nodup_filterMap_recordOf? (ProductStore.nodup_matching hIds mapped), ?_, ?_⟩
  · rw [answer_count hMap, Query.page_unpaged]
  · rw [← List.flatMap_def, ← List.filterMap_flatMap, Query.flatMap_page_nthPage,
      List.take_of_length_le hEnd]
  · intro number hPast
    have hPastEnd : (store.matching mapped).length ≤ number * size :=
      Nat.not_lt.mp fun hBefore => Nat.not_lt.mpr hPast ((hPages number).mpr hBefore)
    rw [hFeatures (q.nthPage size number) rfl, Query.page_nthPage_eq_nil q hPastEnd]
    rfl
  · intro paged hPaged
    exact ⟨_, hFeatures paged hPaged⟩
  · intro other shown hShown hMetadata
    exact count_eq_length_of_features hIds hMetadata hShown

def archiveStore : ProductStore where
  schema := { typeName := "product" }
  products := [
    ⟨"2", [("cloud", .integer 5)]⟩,
    ⟨"1", [("cloud", .integer 20)]⟩,
    ⟨"3", [("cloud", .null)]⟩]
  tables :=
    (NameMap.empty.insert "product_metadata" [
      ⟨"m1", [("mid", .integer 3), ("metadata", .text "<scene/>")]⟩,
      ⟨"m2", [("mid", .text "2"), ("metadata", .text "<scene/>")]⟩]).insert
    "product_ogclink" [⟨"l1", [("product_id", .integer 3)]⟩, ⟨"l2", [("product_id", .text "3")]⟩]

def archiveQuery : Query where
  typeName := "scene"
  properties := some ["metadata", "links"]
  sortBy := [⟨"cloudCover", .ascending⟩]

theorem archive_comes_in_two_pages :
    let source : RecordSource := { products := archiveStore.source, columns := sceneColumns }
    exists records total pages parts,
      (source.features archiveQuery.unpaged).answer = .ok records ∧
      records.map Record.id = ["2", "3"] ∧
      (source.count archiveQuery.unpaged).answer = .ok total ∧
      (forall number, number < pages <-> number * 2 < total) ∧
      (List.range pages).mapM (fun number =>
        (source.features (archiveQuery.nthPage 2 number)).answer) = .ok parts ∧
      parts.flatten = records := by
  intro source
  have hMap : source.mapQuery archiveQuery.unpaged =
      .ok { typeName := "product", sortBy := [⟨"cloud", .ascending⟩] } := rfl
  have hMatching : archiveStore.matching
      { typeName := "product", sortBy := [⟨"cloud", .ascending⟩] } = archiveStore.products :=
    List.mergeSort_of_pairwise (by decide +kernel)
  have hTables : archiveStore.HasTables (source.joins archiveQuery.unpaged) := by
    show forall join, join ∈ source.joins archiveQuery.unpaged -> _
    decide
  have hRecords := answer_features (by decide) hMap fun _ => hTables
  rw [hMatching] at hRecords
  have hPages := pages_partition_records archiveStore sceneColumns {} archiveQuery (by decide)
    hRecords (show 1 ≤ 2 by decide)
  rcases hPages with ⟨⟨total, pages, parts, hTotal, hBefore, hParts, hFlatten, _⟩, _⟩
  refine ⟨_, total, pages, parts, hRecords, ?_, hTotal, hBefore, hParts, hFlatten⟩
  rfl

end RecordSource
end LayerAxes
