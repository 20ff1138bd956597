import LayerAxes.Proofs.Order.Row
import LayerAxes.Record.ProductStore

/-!
# Joined rows of products

A join turns every row into the rows that are joined to it, or into none, and all
of them keep its identifier.  So the answer of a product store is found product by
product: each one becomes its rows, and the rows of one come after those of
another.
-/

namespace LayerAxes

namespace Query

/-!
# Parts of an answer
-/

def unpaged (q : Query) : Query :=
  { q with startIndex := none, maxFeatures := none }

def projectRow (q : Query) (row : Feature) : Feature :=
  match q.properties with
  | some names => row.project names
  | none => row

theorem projectRows_eq_map (q : Query) (rows : List Feature) :
    q.projectRows rows = rows.map q.projectRow := by
  unfold projectRows projectRow
  cases q.properties with
  | some names => rfl
  | none => exact (List.map_id rows).symm

theorem id_projectRow (q : Query) (row : Feature) : (q.projectRow row).id = row.id := by
  unfold projectRow
  cases q.properties <;> rfl

section

variable {α β : Type}

theorem page_sublist (q : Query) (rows : List α) : (q.page rows).Sublist rows := by
  unfold page
  cases q.maxFeatures with
  | none => exact List.drop_sublist _ _
  | some n => exact (List.take_sublist _ _).trans (List.drop_sublist _ _)

theorem page_map (q : Query) (f : α -> β) (rows : List α) :
    q.page (rows.map f) = (q.page rows).map f := by
  unfold page
  cases q.maxFeatures with
  | some n => rw [List.map_take, List.map_drop]
  | none => exact List.map_drop.symm

theorem page_of_unpaged {q : Query} (h : q.unpaged = q) (rows : List α) : q.page rows = rows := by
  rw [← h]
  rfl

theorem page_unpaged (q : Query) (rows : List α) : q.unpaged.page rows = rows :=
  page_of_unpaged rfl rows

end

end Query

namespace ProductStore

/-!
# One join
-/

def joinedCells (table : List Feature) (foreignKey id : String) : List Attribute :=
  match table.filter fun other => other.refersTo foreignKey id with
  | [] => [.null]
  | referring => referring.map .feature

theorem joinedCells_ne_nil (table : List Feature) (foreignKey id : String) :
    joinedCells table foreignKey id ≠ [] := by
  unfold joinedCells
  split
  · exact List.cons_ne_nil _ _
  · rename_i hNonempty
    intro hNil
    exact hNonempty (List.map_eq_nil_iff.mp hNil)

theorem filterMap_feature?_joinedCells (table : List Feature) (foreignKey id : String) :
    (joinedCells table foreignKey id).filterMap Attribute.feature? =
      table.filter fun other => other.refersTo foreignKey id := by
  unfold joinedCells
  split
  · rename_i hNone
    rw [hNone]
    rfl
  · rw [List.filterMap_map]
    exact List.filterMap_some

theorem joinRow_of_outer {join : Join} (hOuter : join.outer = true) (table : List Feature)
    (row : Feature) :
    joinRow table join row =
      (joinedCells table join.foreignKey row.id).map (row.set join.joinedAs) := by
  unfold joinRow joinedCells
  rw [hOuter]
  cases table.filter fun other => other.refersTo join.foreignKey row.id with
  | nil => rfl
  | cons other others =>
      rw [List.map_map]
      rfl

theorem id_of_mem_joinRow {table : List Feature} {join : Join} {row joined : Feature}
    (h : joined ∈ joinRow table join row) : joined.id = row.id := by
  unfold joinRow at h
  dsimp only at h
  split at h
  · rw [List.mem_singleton.mp h]
    rfl
  · rcases List.mem_map.mp h with ⟨other, _, rfl⟩
    rfl

/-!
# Several joins
-/

def HasTables (store : ProductStore) (joins : List Join) : Prop :=
  forall join, join ∈ joins -> (store.tables.find? join.table).isSome = true

def expand (store : ProductStore) : List Join -> Feature -> List Feature
  | [], row => [row]
  | join :: joins, row =>
      (joinRow ((store.tables.find? join.table).getD []) join row).flatMap (store.expand joins)

section

variable {store : ProductStore} {joins : List Join}

theorem foldlM_joinRows_eq_ok (h : store.HasTables joins) (rows : List Feature) :
    joins.foldlM store.joinRows rows = .ok (rows.flatMap (store.expand joins)) := by
  induction joins generalizing rows with
  | nil =>
      show Except.ok rows = .ok (rows.flatMap fun row => [row])
      rw [List.flatMap_singleton']
  | cons join joins ih =>
      rcases List.forall_mem_cons.mp h with ⟨hTable, hTables⟩
      rcases Option.isSome_iff_exists.mp hTable with ⟨table, hTable⟩
      have hJoin : store.joinRows rows join = .ok (rows.flatMap (joinRow table join)) := by
        unfold joinRows
        rw [hTable]
      rw [List.foldlM_cons, hJoin]
      show joins.foldlM store.joinRows (rows.flatMap (joinRow table join)) = _
      rw [ih hTables, List.flatMap_assoc]
      congr 2
      funext row
      show _ = (joinRow ((store.tables.find? join.table).getD []) join row).flatMap _
      rw [hTable]
      rfl

theorem hasTables_of_foldlM_joinRows_eq_ok {rows joined : List Feature}
    (h : joins.foldlM store.joinRows rows = .ok joined) : store.HasTables joins := by
  induction joins generalizing rows with
  | nil =>
      intro join hJoin
      cases hJoin
  | cons first joins ih =>
      rw [List.foldlM_cons] at h
      rcases Answer.exists_of_bind_eq_ok h with ⟨once, hFirst, hRest⟩
      intro join hJoin
      rcases List.mem_cons.mp hJoin with rfl | hLater
      · unfold joinRows at hFirst
        cases hTable : store.tables.find? join.table with
        | some table => rfl
        | none =>
            rw [hTable] at hFirst
            cases hFirst
      · exact ih hRest join hLater

theorem id_of_mem_expand {row joined : Feature} (h : joined ∈ store.expand joins row) :
    joined.id = row.id := by
  induction joins generalizing row with
  | nil => rw [List.mem_singleton.mp h]
  | cons join joins ih =>
      rcases List.mem_flatMap.mp h with ⟨once, hOnce, hJoined⟩
      rw [ih hJoined, id_of_mem_joinRow hOnce]

theorem expand_ne_nil (hOuter : forall join, join ∈ joins -> join.outer = true)
    (row : Feature) : store.expand joins row ≠ [] := by
  induction joins generalizing row with
  | nil => exact List.cons_ne_nil _ _
  | cons join joins ih =>
      rcases List.forall_mem_cons.mp hOuter with ⟨hFirst, hRest⟩
      show (joinRow _ join row).flatMap _ ≠ []
      rw [joinRow_of_outer hFirst]
      rcases List.exists_mem_of_ne_nil _ (joinedCells_ne_nil
        ((store.tables.find? join.table).getD []) join.foreignKey row.id) with ⟨cell, hCell⟩
      intro hNil
      have hSet := List.mem_map_of_mem (f := row.set join.joinedAs) hCell
      exact ih hRest _ (List.flatMap_eq_nil_iff.mp hNil _ hSet)

end

/-!
# Answers of a product store
-/

/-- The products that a query is about, in its order. -/
def matching (store : ProductStore) (q : Query) : List Feature :=
  sortRows q.sortBy (q.select store.products)

theorem run_of_no_joins (store : ProductStore) {q : Query} (h : q.joins = []) :
    store.run q = .ok ((q.page (store.matching q)).map q.projectRow) := by
  unfold run
  rw [h, Query.projectRows_eq_map]
  show Except.ok (q.page ((store.matching q).map q.projectRow)) = _
  rw [Query.page_map]

theorem run_of_hasTables {store : ProductStore} {q : Query} (h : store.HasTables q.joins) :
    store.run q =
      .ok (q.page ((store.matching q).flatMap fun product =>
        store.expand q.joins (q.projectRow product))) := by
  unfold run
  rw [Query.projectRows_eq_map]
  show (q.joins.foldlM store.joinRows ((store.matching q).map q.projectRow) >>= _) = _
  rw [foldlM_joinRows_eq_ok h, List.flatMap_map]
  rfl

theorem hasTables_of_run_eq_ok {store : ProductStore} {q : Query} {rows : List Feature}
    (h : store.run q = .ok rows) : store.HasTables q.joins := by
  rcases Answer.exists_of_bind_eq_ok h with ⟨joined, hJoined, _⟩
  exact hasTables_of_foldlM_joinRows_eq_ok hJoined

end ProductStore
end LayerAxes
