import LayerAxes.Proofs.Record.Fold
import LayerAxes.Proofs.Record.Joins
import LayerAxes.Proofs.Record.View

/-!
# Published products

A page of products is fetched twice: once to learn its identifiers, and once
more, joined and not cut, to fold its records.  This module shows that the second
answer is the first one with every product replaced by its joined rows, so that
the records are those of the page.
-/

namespace LayerAxes

theorem eraseDups_eq_self {α : Type} [BEq α] [LawfulBEq α] {items : List α}
    (h : items.Nodup) : items.eraseDups = items := by
  induction items with
  | nil => rfl
  | cons a items ih =>
      rcases List.nodup_cons.mp h with ⟨hFirst, hRest⟩
      have hOthers : items.filter (fun b => !b == a) = items := by
        apply List.filter_eq_self.mpr
        intro b hb
        have hne : b ≠ a := fun heq => hFirst (heq ▸ hb)
        simpa using hne
      rw [List.eraseDups_cons, hOthers, ih hRest]

namespace ProductStore

/-- The record of a product, unless a join drops the product. -/
def recordOf? (store : ProductStore) (columns : ColumnMap) (joins : List Join) (q : Query)
    (product : Feature) : Option Record :=
  Record.ofRun? columns (store.expand joins (q.projectRow product))

section

variable {store : ProductStore} {columns : ColumnMap} {joins : List Join} {q : Query}

theorem id_of_recordOf?_eq_some {product : Feature} {record : Record}
    (h : store.recordOf? columns joins q product = some record) : record.id = product.id := by
  unfold recordOf? at h
  cases hRows : store.expand joins (q.projectRow product) with
  | nil =>
      rw [hRows] at h
      cases h
  | cons row rows =>
      rw [hRows] at h
      cases h
      have hRow : row ∈ store.expand joins (q.projectRow product) := by
        rw [hRows]
        exact List.mem_cons_self
      rw [id_of_mem_expand hRow, Query.id_projectRow]

end

end ProductStore

namespace Record

/-!
# Records of products
-/

/-- The record has the view of a product, and the links that refer to the product. -/
structure Publishes (record : Record) (columns : ColumnMap) (links : List Feature)
    (foreignKey : String) (product : Feature) : Prop where
  id_eq : record.id = product.id
  properties_eq : record.properties.entries = (columns.view product).attributes
  metadata_eq : record.metadata = none
  links_eq : record.links = links.filter fun link => link.refersTo foreignKey product.id

theorem linkOf_set (row : Feature) (cell : Attribute) :
    linkOf (row.set linkAlias cell) = cell.feature? := by
  unfold linkOf
  rw [Feature.get?_set_self]
  rfl

theorem metadataOf_set_link {row : Feature} (h : row.get? metadataAlias = none)
    (cell : Attribute) : metadataOf (row.set linkAlias cell) = none := by
  unfold metadataOf
  rw [Feature.get?_set_of_ne (by decide), h]
  rfl

theorem propertiesOf_set {columns : ColumnMap} {name : String}
    (h : name ∉ columns.pairs.map Prod.snd) (row : Feature) (value : Attribute) :
    propertiesOf columns (row.set name value) = propertiesOf columns row := by
  unfold propertiesOf
  congr 1
  apply List.filterMap_congr
  intro pair hPair
  have hne : pair.2 ≠ name := fun heq => h (heq ▸ List.mem_map_of_mem hPair)
  rw [Feature.present?_set_of_ne hne]

theorem filterMap_linkOf_joinRow (links : List Feature) (tables : AuxiliaryTables)
    (product : Feature) :
    (ProductStore.joinRow links (RecordSource.linkJoin tables) product).filterMap linkOf =
      links.filter fun link => link.refersTo tables.linkForeignKey product.id := by
  rw [ProductStore.joinRow_of_outer rfl, List.filterMap_map,
    ← ProductStore.filterMap_feature?_joinedCells]
  apply List.filterMap_congr
  intro cell _
  exact linkOf_set product cell

theorem exists_ofRun?_joinRow {columns : ColumnMap}
    (hColumns : linkAlias ∉ columns.pairs.map Prod.snd) {product : Feature}
    (hProduct : product.get? metadataAlias = none) (links : List Feature)
    (tables : AuxiliaryTables) :
    exists record,
      ofRun? columns (ProductStore.joinRow links (RecordSource.linkJoin tables) product) =
        some record ∧
      record.Publishes columns links tables.linkForeignKey product := by
  have hLinks := filterMap_linkOf_joinRow links tables product
  rw [ProductStore.joinRow_of_outer rfl] at hLinks ⊢
  cases hCells : ProductStore.joinedCells links (RecordSource.linkJoin tables).foreignKey
      product.id with
  | nil => exact absurd hCells (ProductStore.joinedCells_ne_nil _ _ _)
  | cons cell cells =>
      rw [hCells] at hLinks
      refine ⟨_, rfl, ?_⟩
      constructor
      · rfl
      · show (propertiesOf columns (product.set linkAlias cell)).entries = _
        rw [propertiesOf_set hColumns, ColumnMap.entries_propertiesOf]
      · exact metadataOf_set_link hProduct cell
      · exact hLinks

theorem exists_ofRows_flatMap_joinRow {columns : ColumnMap}
    (hColumns : linkAlias ∉ columns.pairs.map Prod.snd) {products : List Feature}
    (hProducts : forall product, product ∈ products -> product.get? metadataAlias = none)
    (hIds : (products.map Feature.id).Nodup) (links : List Feature)
    (tables : AuxiliaryTables) :
    exists records,
      ofRows columns
          (products.flatMap (ProductStore.joinRow links (RecordSource.linkJoin tables))) =
        .ok records ∧
      List.Forall₂ (fun product record =>
        record.Publishes columns links tables.linkForeignKey product) products records := by
  refine ⟨_, ofRows_flatMap columns (fun _ _ => ProductStore.id_of_mem_joinRow) hIds, ?_⟩
  clear hIds
  induction products with
  | nil => exact List.Forall₂.nil
  | cons product products ih =>
      rcases exists_ofRun?_joinRow hColumns (hProducts product List.mem_cons_self) links tables
        with ⟨record, hRecord, hPublishes⟩
      rw [List.filterMap_cons, hRecord]
      exact List.Forall₂.cons hPublishes
        (ih fun other hOther => hProducts other (List.mem_cons_of_mem _ hOther))

end Record

namespace RecordSource

/-!
# The two queries
-/

theorem exists_mapQuery_eq_ok (source : RecordSource) {schema : Schema} {q : Query}
    (hSchema : source.products.schema = .ok schema)
    (hColumns : source.columns.Unambiguous) (hAll : q.properties = none)
    (hFilter : forall name, name ∈ q.filter.properties -> source.columns.Maps name)
    (hSort : forall key, key ∈ q.sortBy -> source.columns.Maps key.property) :
    exists filter keys,
      source.mapQuery q =
        .ok { typeName := schema.typeName, filter, properties := none, sortBy := keys } ∧
      (forall product, filter.evaluate product =
        q.filter.evaluate (source.columns.view product)) ∧
      (forall a b, compareRows (source.columns.publishedSort q.sortBy)
        (source.columns.view a) (source.columns.view b) = compareRows keys a b) := by
  rcases ColumnMap.exists_mapFilter_eq_ok hColumns hFilter with ⟨filter, hMapFilter, hEvaluate⟩
  rcases ColumnMap.exists_mapSort_eq_ok hColumns hSort with ⟨keys, hMapSort, hCompare⟩
  refine ⟨filter, keys, ?_, hEvaluate, hCompare⟩
  unfold mapQuery ColumnMap.mapProperties
  rw [hSchema, hMapFilter, hMapSort, hAll]
  rfl

theorem of_mapQuery_eq_ok {source : RecordSource} {q mapped : Query}
    (h : source.mapQuery q = .ok mapped) :
    mapped.joins = [] ∧ mapped.unpaged = mapped := by
  unfold mapQuery at h
  rcases Answer.exists_of_bind_eq_ok h with ⟨schema, _, hFilter⟩
  rcases Answer.exists_of_bind_eq_ok hFilter with ⟨filter, _, hSort⟩
  rcases Answer.exists_of_bind_eq_ok hSort with ⟨keys, _, hReturn⟩
  cases hReturn
  exact ⟨rfl, rfl⟩

theorem pageQuery_eq_ok {source : RecordSource} {q mapped : Query}
    (h : source.mapQuery q = .ok mapped) :
    source.pageQuery q =
      .ok { mapped with startIndex := q.startIndex, maxFeatures := q.maxFeatures } := by
  unfold pageQuery
  rw [h]
  rfl

/-- A page that was cut from sorted products is found again by its identifiers. -/
theorem sortRows_filter_ids {keys : List SortKey} {products page : List Feature}
    (p : Feature -> Bool) (hIds : (products.map Feature.id).Nodup)
    (hPage : page.Sublist (sortRows keys (products.filter p))) :
    sortRows keys (products.filter fun row => (page.map Feature.id).contains row.id) = page := by
  rw [← filter_sortRows] at hPage ⊢
  apply filter_contains_of_sublist
  · exact hPage.trans List.filter_sublist
  · have hPerm := (stableOrder_sortRows keys products).perm
    exact (hPerm.map Feature.id).nodup_iff.mpr hIds

theorem answer_features_of_page {source : RecordSource} {q mapped : Query} {page : List Feature}
    (hMap : source.mapQuery q = .ok mapped)
    (hPage : source.products.features
      { mapped with startIndex := q.startIndex, maxFeatures := q.maxFeatures } = .ok page) :
    (source.features q).answer =
      if page.isEmpty then .ok []
      else
        source.products.features
          { mapped with
            joins := source.joins q, filter := .ids (page.map Feature.id).eraseDups } >>=
          Record.ofRows source.columns := by
  have hPageQuery := pageQuery_eq_ok hMap
  have hJoinedQuery : source.joinedQuery q =
      .ok { mapped with joins := source.joins q } := by
    unfold joinedQuery
    rw [hMap]
    rfl
  unfold features
  simp only [Traced.answer_bind, Traced.answer_ofAnswer, Traced.answer_query, hPageQuery]
  show (source.products.features _ >>= _) = _
  rw [hPage]
  show (ite _ _ _ : Traced (List Record)).answer = _
  cases page with
  | nil => rfl
  | cons product products =>
      rw [List.map_cons, List.eraseDups_cons]
      show (_ >>= _ : Traced (List Record)).answer = _
      simp only [Traced.answer_bind, Traced.answer_ofAnswer, Traced.answer_query, hJoinedQuery]
      rfl

section

variable {keys : List SortKey} {products : List Feature} {p : Feature -> Bool}

theorem mem_of_mem_page (q : Query) {product : Feature}
    (h : product ∈ q.page (sortRows keys (products.filter p))) : product ∈ products := by
  have hSorted := (stableOrder_sortRows keys (products.filter p)).perm
  exact List.mem_of_mem_filter (hSorted.subset ((q.page_sublist _).subset h))

theorem nodup_page (q : Query) (hIds : (products.map Feature.id).Nodup) :
    ((q.page (sortRows keys (products.filter p))).map Feature.id).Nodup := by
  have hSorted := (stableOrder_sortRows keys (products.filter p)).perm
  have hAccepted : ((products.filter p).map Feature.id).Nodup :=
    (List.filter_sublist.map Feature.id).nodup hIds
  have hAll := (hSorted.map Feature.id).nodup_iff.mpr hAccepted
  exact ((q.page_sublist _).map Feature.id).nodup hAll

end

section

variable {store : ProductStore} {columns : ColumnMap} {tables : AuxiliaryTables}
  {q mapped : Query}

theorem run_pageQuery (h : mapQuery { products := store.source, columns, tables } q = .ok mapped) :
    store.run { mapped with startIndex := q.startIndex, maxFeatures := q.maxFeatures } =
      .ok ((q.page (store.matching mapped)).map mapped.projectRow) :=
  store.run_of_no_joins (of_mapQuery_eq_ok h).1

theorem matching_ids_page (hIds : (store.products.map Feature.id).Nodup) (q mapped : Query) :
    store.matching { mapped with
      joins := joins { products := store.source, columns, tables } q
      filter := .ids (((q.page (store.matching mapped)).map mapped.projectRow).map
        Feature.id).eraseDups } = q.page (store.matching mapped) := by
  have hPageIds : ((q.page (store.matching mapped)).map mapped.projectRow).map Feature.id =
      (q.page (store.matching mapped)).map Feature.id := by
    rw [List.map_map]
    exact List.map_congr_left fun product _ => mapped.id_projectRow product
  have hDistinct : ((q.page (store.matching mapped)).map Feature.id).Nodup := nodup_page q hIds
  rw [hPageIds, eraseDups_eq_self hDistinct]
  exact sortRows_filter_ids mapped.filter.evaluate hIds (q.page_sublist _)

theorem answer_features (hIds : (store.products.map Feature.id).Nodup)
    (h : mapQuery { products := store.source, columns, tables } q = .ok mapped)
    (hTables : q.page (store.matching mapped) ≠ [] ->
      store.HasTables (joins { products := store.source, columns, tables } q)) :
    (features { products := store.source, columns, tables } q).answer =
      .ok ((q.page (store.matching mapped)).filterMap
        (store.recordOf? columns (joins { products := store.source, columns, tables } q)
          mapped)) := by
  rw [answer_features_of_page h (run_pageQuery h), List.isEmpty_map]
  by_cases hEmpty : q.page (store.matching mapped) = []
  · rw [hEmpty]
    rfl
  · rw [if_neg (by simpa using hEmpty)]
    show (store.run _ >>= _) = _
    rw [ProductStore.run_of_hasTables (hTables hEmpty), matching_ids_page hIds]
    show Record.ofRows columns (mapped.page ((q.page (store.matching mapped)).flatMap
      fun product => store.expand _ (mapped.projectRow product))) = _
    rw [Query.page_of_unpaged (of_mapQuery_eq_ok h).2]
    apply Record.ofRows_flatMap columns
    · intro product joined hJoined
      rw [ProductStore.id_of_mem_expand hJoined, Query.id_projectRow]
    · exact nodup_page q hIds

end

theorem answer_features_eq_ofRows {store : ProductStore} {columns : ColumnMap}
    {tables : AuxiliaryTables} {q : Query} {links : List Feature} {typeName : String}
    {filter : Filter} {keys : List SortKey} (hIds : (store.products.map Feature.id).Nodup)
    (hLinks : store.tables.find? tables.linkTable = some links) (hAll : q.properties = none)
    (hMap : mapQuery { products := store.source, columns, tables } q =
      .ok { typeName, filter, properties := none, sortBy := keys }) :
    (features { products := store.source, columns, tables } q).answer =
      Record.ofRows columns
        ((q.page (sortRows keys (store.products.filter filter.evaluate))).flatMap
          (ProductStore.joinRow links (linkJoin tables))) := by
  have hJoins : joins { products := store.source, columns, tables } q = [linkJoin tables] := by
    unfold joins listsProperty
    rw [hAll]
    rfl
  have hTables : store.HasTables [linkJoin tables] := by
    intro join hJoin
    cases List.mem_singleton.mp hJoin
    exact Option.isSome_iff_exists.mpr ⟨links, hLinks⟩
  have hExpand : forall product, store.expand [linkJoin tables] product =
      ProductStore.joinRow links (linkJoin tables) product := by
    intro product
    show (ProductStore.joinRow ((store.tables.find? tables.linkTable).getD []) (linkJoin tables)
      product).flatMap (fun row => [row]) = _
    rw [hLinks, List.flatMap_singleton']
    rfl
  rw [answer_features hIds hMap fun _ => hJoins ▸ hTables, hJoins,
    Record.ofRows_flatMap columns (fun _ _ => ProductStore.id_of_mem_joinRow) (nodup_page q hIds)]
  congr 2
  funext product
  exact congrArg (Record.ofRun? columns) (hExpand product)

/--
A query on published properties gives one record for every product of its page:
the products whose views it accepts, in the order of their views.
-/
theorem features_publishes_page (store : ProductStore) (columns : ColumnMap)
    (tables : AuxiliaryTables) (q : Query) {links : List Feature}
    (hIds : (store.products.map Feature.id).Nodup)
    (hLinks : store.tables.find? tables.linkTable = some links)
    (hColumns : columns.Unambiguous)
    (hSources : Record.linkAlias ∉ columns.pairs.map Prod.snd)
    (hProducts : forall product, product ∈ store.products ->
      product.get? Record.metadataAlias = none)
    (hAll : q.properties = none)
    (hFilter : forall name, name ∈ q.filter.properties -> columns.Maps name)
    (hSort : forall key, key ∈ q.sortBy -> columns.Maps key.property) :
    exists products records,
      StableOrder
        (fun a b =>
          compareRows (columns.publishedSort q.sortBy) (columns.view a) (columns.view b))
        (store.products.filter fun product => q.filter.evaluate (columns.view product))
        products ∧
      (RecordSource.features { products := store.source, columns, tables } q).answer =
        .ok records ∧
      List.Forall₂ (fun product record =>
        Record.Publishes record columns links tables.linkForeignKey product)
        (q.page products) records ∧
      forall product property,
        (columns.view product).get? property =
          (columns.column? property).bind product.present? := by
  rcases exists_mapQuery_eq_ok { products := store.source, columns, tables } rfl
      hColumns hAll hFilter hSort with
    ⟨filter, keys, hMap, hEvaluate, hCompare⟩
  have hSelect : (store.products.filter fun product =>
      q.filter.evaluate (columns.view product)) = store.products.filter filter.evaluate := by
    apply List.filter_congr
    intro product _
    exact (hEvaluate product).symm
  have hOrder : (fun a b => compareRows (columns.publishedSort q.sortBy) (columns.view a)
      (columns.view b)) = compareRows keys := by
    funext a b
    exact hCompare a b
  have hPage : forall product,
      product ∈ q.page (sortRows keys (store.products.filter filter.evaluate)) ->
        product.get? Record.metadataAlias = none := by
    intro product hProduct
    exact hProducts product (mem_of_mem_page q hProduct)
  rcases Record.exists_ofRows_flatMap_joinRow hSources hPage (nodup_page q hIds) links tables
    with ⟨records, hRecords, hPublishes⟩
  refine ⟨_, records, ?_, ?_, hPublishes, ColumnMap.get?_view hColumns⟩
  · rw [hSelect, hOrder]
    exact stableOrder_sortRows keys _
  · rw [answer_features_eq_ofRows hIds hLinks hAll hMap]
    exact hRecords

def sceneStore : ProductStore where
  schema := { typeName := "product" }
  products := [
    ⟨"1", [("cloud", .integer 20), ("platform", .text "A")]⟩,
    ⟨"2", [("cloud", .integer 5), ("platform", .text "B")]⟩,
    ⟨"3", [("cloud", .null), ("platform", .text "A")]⟩]
  tables := NameMap.empty.insert "product_ogclink" [
    ⟨"l1", [("product_id", .integer 3)]⟩,
    ⟨"l2", [("product_id", .text "1")]⟩,
    ⟨"l3", [("product_id", .text "3")]⟩]

def sceneColumns : ColumnMap :=
  ⟨[("cloudCover", "cloud"), ("platform", "platform")]⟩

def sceneQuery : Query where
  typeName := "scene"
  filter := .compare "platform" .equal (.text "A")
  sortBy := [⟨"cloudCover", .ascending⟩]

theorem scenes_publish_page :
    exists products records,
      StableOrder
        (fun a b => compareRows sceneQuery.sortBy (sceneColumns.view a) (sceneColumns.view b))
        (sceneStore.products.filter fun product =>
          sceneQuery.filter.evaluate (sceneColumns.view product))
        products ∧
      (RecordSource.features { products := sceneStore.source, columns := sceneColumns }
        sceneQuery).answer = .ok records ∧
      List.Forall₂ (fun product record =>
        Record.Publishes record sceneColumns
          [⟨"l1", [("product_id", .integer 3)]⟩, ⟨"l2", [("product_id", .text "1")]⟩,
            ⟨"l3", [("product_id", .text "3")]⟩] "product_id" product)
        products records := by
  rcases features_publishes_page sceneStore sceneColumns {} sceneQuery (by decide) rfl
      (by decide) (by decide) (by decide) rfl (by decide) (by decide) with
    ⟨products, records, hSorted, hAnswer, hPublishes, _⟩
  exact ⟨products, records, hSorted, hAnswer, hPublishes⟩

end RecordSource
end LayerAxes
