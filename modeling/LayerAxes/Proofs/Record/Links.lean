import LayerAxes.Proofs.Record.Paging

/-!
# Links of records

Metadata and links are joined one after the other, and each join turns a row into
one row for every row that refers to it.  So a product takes all of its links once
for each of its metadata rows.  This module counts how often the links of a record
are listed, and says when that is once.
-/

namespace LayerAxes

theorem flatMap_eq_flatten_replicate {α β : Type} {items : List α} {f : α -> List β}
    {part : List β} (h : forall a, a ∈ items -> f a = part) :
    items.flatMap f = (List.replicate items.length part).flatten := by
  rw [List.flatMap_def]
  congr 1
  apply List.eq_replicate_iff.mpr
  refine ⟨List.length_map _, ?_⟩
  intro turned hTurned
  rcases List.mem_map.mp hTurned with ⟨a, ha, rfl⟩
  exact h a ha

theorem flatten_replicate_eq_self_iff {α : Type} {copies : Nat} {part : List α} :
    (List.replicate copies part).flatten = part <-> copies = 1 ∨ part = [] := by
  constructor
  · intro h
    cases copies with
    | zero => exact Or.inr h.symm
    | succ more =>
        rw [List.replicate_succ, List.flatten_cons, List.append_right_eq_self] at h
        cases more with
        | zero => exact Or.inl rfl
        | succ others =>
            rw [List.replicate_succ, List.flatten_cons, List.append_eq_nil_iff] at h
            exact Or.inr h.1
  · rintro (rfl | rfl)
    · simp
    · simp

namespace ProductStore

/-- The rows of a table that refer to an identifier, in the order of the table. -/
def referring (store : ProductStore) (table foreignKey id : String) : List Feature :=
  ((store.tables.find? table).getD []).filter fun other => other.refersTo foreignKey id

theorem joinRow_of_inner {join : Join} (hInner : join.outer = false) (table : List Feature)
    (row : Feature) :
    joinRow table join row =
      (table.filter fun other => other.refersTo join.foreignKey row.id).map fun other =>
        row.set join.joinedAs (.feature other) := by
  unfold joinRow
  dsimp only
  rw [hInner, Bool.and_false]
  rfl

/-- How many rows a product has when its links are joined. -/
def copies (store : ProductStore) (tables : AuxiliaryTables) (q : Query) (id : String) : Nat :=
  if RecordSource.listsProperty q Record.metadataProperty false then
    (store.referring tables.metadataTable tables.metadataForeignKey id).length
  else 1

def linksTo (store : ProductStore) (tables : AuxiliaryTables) (id : String) : List Feature :=
  store.referring tables.linkTable tables.linkForeignKey id

end ProductStore

namespace Record

theorem filterMap_linkOf_expand_link (store : ProductStore) (tables : AuxiliaryTables)
    (row : Feature) :
    (store.expand [RecordSource.linkJoin tables] row).filterMap linkOf =
      store.linksTo tables row.id := by
  show ((ProductStore.joinRow _ (RecordSource.linkJoin tables) row).flatMap
    fun joined => [joined]).filterMap linkOf = _
  rw [List.flatMap_singleton', filterMap_linkOf_joinRow]
  rfl

end Record

namespace RecordSource

section

variable {store : ProductStore} {columns : ColumnMap} {tables : AuxiliaryTables} {q : Query}

theorem filterMap_linkOf_expand_joins
    (hLinks : listsProperty q Record.linksProperty true = true) (row : Feature) :
    (store.expand (joins { products := store.source, columns, tables } q) row).filterMap
        Record.linkOf =
      (List.replicate (store.copies tables q row.id) (store.linksTo tables row.id)).flatten := by
  unfold joins ProductStore.copies
  rw [hLinks, if_pos rfl]
  cases listsProperty q Record.metadataProperty false with
  | false =>
      show (store.expand [linkJoin tables] row).filterMap _ =
        (List.replicate 1 (store.linksTo tables row.id)).flatten
      rw [Record.filterMap_linkOf_expand_link]
      simp
  | true =>
      show ((ProductStore.joinRow _ (metadataJoin tables) row).flatMap
        (store.expand [linkJoin tables])).filterMap _ = _
      -- Rows with metadata still have the identifier of their product, so all take its links.
      rw [List.filterMap_flatMap, flatMap_eq_flatten_replicate]
      · rw [ProductStore.joinRow_of_inner rfl, List.length_map]
        rfl
      · intro joined hJoined
        rw [Record.filterMap_linkOf_expand_link, ProductStore.id_of_mem_joinRow hJoined]

theorem links_of_recordOf?_eq_some {mapped : Query}
    (hLinks : listsProperty q Record.linksProperty true = true) {product : Feature}
    {record : Record}
    (h : store.recordOf? columns (joins { products := store.source, columns, tables } q) mapped
      product = some record) :
    record.links =
      (List.replicate (store.copies tables q record.id)
        (store.linksTo tables record.id)).flatten := by
  rw [Record.links_of_ofRun?_eq_some h, filterMap_linkOf_expand_joins hLinks, Query.id_projectRow,
    ProductStore.id_of_recordOf?_eq_some h]

end

/--
A record lists the links that refer to it as often as its product has rows of metadata,
or once when no metadata is asked for.  So it lists each of them once exactly when that
is one time, or when nothing links to it.
-/
theorem links_are_joined_once_iff (store : ProductStore) (columns : ColumnMap)
    (tables : AuxiliaryTables) (q : Query) {records : List Record}
    (hIds : (store.products.map Feature.id).Nodup)
    (hLinks : listsProperty q Record.linksProperty true = true)
    (hRecords : (features { products := store.source, columns, tables } q).answer = .ok records) :
    forall record, record ∈ records ->
      record.links =
        (List.replicate (store.copies tables q record.id)
          (store.linksTo tables record.id)).flatten ∧
      (record.links = store.linksTo tables record.id <->
        store.copies tables q record.id = 1 ∨ store.linksTo tables record.id = []) := by
  rcases exists_mapQuery_of_features_eq_ok hRecords with ⟨mapped, hMap⟩
  rw [answer_features hIds hMap (hasTables_of_features_eq_ok hMap hRecords)] at hRecords
  cases hRecords
  intro record hRecord
  rcases List.mem_filterMap.mp hRecord with ⟨product, _, hProduct⟩
  have hList := links_of_recordOf?_eq_some hLinks hProduct
  refine ⟨hList, ?_⟩
  rw [hList]
  exact flatten_replicate_eq_self_iff

def tileStore (documents : List String) : ProductStore where
  schema := { typeName := "product" }
  products := [⟨"1", []⟩]
  tables :=
    (NameMap.empty.insert "product_metadata" (documents.map fun document =>
      ⟨document, [("metadata", .text document), ("mid", .text "1")]⟩)).insert
    "product_ogclink" [⟨"l1", [("product_id", .text "1")]⟩]

def tileSource (documents : List String) : RecordSource where
  products := (tileStore documents).source
  columns := ⟨[]⟩

def tileQuery : Query where
  typeName := "tile"
  properties := some ["metadata", "links"]

theorem answer_features_tileSource (documents : List String) :
    ((tileSource documents).features tileQuery).answer =
      .ok ([⟨"1", []⟩].filterMap ((tileStore documents).recordOf? ⟨[]⟩
        [metadataJoin {}, linkJoin {}] { typeName := "product" })) := by
  have hMap : (tileSource documents).mapQuery tileQuery = .ok { typeName := "product" } := rfl
  have hMatching : (tileStore documents).matching { typeName := "product" } = [⟨"1", []⟩] :=
    List.mergeSort_singleton _
  have hTables : (tileStore documents).HasTables [metadataJoin {}, linkJoin {}] := by
    intro join hJoin
    show (NameMap.find? ((NameMap.insert _ _ _).insert _ _) join.table).isSome = true
    rcases List.mem_cons.mp hJoin with rfl | hLink
    · rw [NameMap.find?_insert_of_ne _ (by decide), metadataJoin, NameMap.find?_insert_self]
      rfl
    · cases List.mem_singleton.mp hLink
      rw [linkJoin, NameMap.find?_insert_self]
      rfl
  have hIds : ((tileStore documents).products.map Feature.id).Nodup := List.nodup_singleton "1"
  have hRecords := answer_features hIds hMap fun _ => hTables
  rw [hMatching] at hRecords
  exact hRecords

theorem single_document_keeps_links_once :
    exists records,
      ((tileSource ["<a/>"]).features tileQuery).answer = .ok records ∧
      records.map Record.id = ["1"] ∧
      forall record, record ∈ records ->
        record.links = (tileStore ["<a/>"]).linksTo {} record.id := by
  have hRecords := answer_features_tileSource ["<a/>"]
  generalize hList : List.filterMap _ _ = records at hRecords
  have hIds : records.map Record.id = ["1"] := by
    rw [← hList]
    decide +kernel
  refine ⟨records, hRecords, hIds, ?_⟩
  intro record hRecord
  have hId : record.id = "1" := by
    apply List.mem_singleton.mp
    rw [← hIds]
    exact List.mem_map_of_mem hRecord
  have hCopies : (tileStore ["<a/>"]).copies {} tileQuery record.id = 1 := by
    rw [hId]
    decide +kernel
  have hOnce := links_are_joined_once_iff (tileStore ["<a/>"]) ⟨[]⟩ {} tileQuery
    (List.nodup_singleton "1") rfl hRecords record hRecord
  exact hOnce.2.mpr (Or.inl hCopies)

/-- With two documents the join gives two rows, and the one link is listed for each. -/
theorem second_document_repeats_links :
    exists records,
      ((tileSource ["<a/>", "<b/>"]).features tileQuery).answer = .ok records ∧
      records.map (fun record => record.links.map Feature.id) = [["l1", "l1"]] ∧
      ((tileStore ["<a/>", "<b/>"]).linksTo {} "1").map Feature.id = ["l1"] :=
  ⟨_, answer_features_tileSource ["<a/>", "<b/>"], by decide +kernel, by decide +kernel⟩

end RecordSource
end LayerAxes
