import LayerAxes.Proofs.Record.Joins
import LayerAxes.Store.Source

/-!
# Tables and product stores

A feature table cuts its rows to a page before it reduces them to some attributes, and
does not sort without criteria.  A product store sorts always, and cuts to the page at
the end.  For queries without joins none of this can be told from the answer.
-/

namespace LayerAxes

namespace Query

section

variable {α : Type}

theorem getElem?_page (q : Query) (rows : List α) (i : Nat) :
    (q.page rows)[i]? =
      if q.maxFeatures.all fun n => i < n then rows[q.startIndex.getD 0 + i]? else none := by
  unfold page
  cases q.maxFeatures with
  | none =>
      show (rows.drop _)[i]? = rows[_]?
      rw [List.getElem?_drop]
  | some n =>
      show ((rows.drop _).take n)[i]? = if decide (i < n) = true then _ else _
      rw [List.getElem?_take, List.getElem?_drop]
      simp only [decide_eq_true_eq]

end

/--
The rows that answer a query without joins.  The accepted rows are sorted, all of their
attributes being known, and the page of them is reduced to the attributes asked for.
-/
def Answers (q : Query) (rows answer : List Feature) : Prop :=
  exists sorted,
    StableOrder (compareRows q.sortBy) (rows.filter fun row => q.filter.evaluate row) sorted ∧
      forall i, answer[i]? =
        if q.maxFeatures.all fun n => i < n then
          sorted[q.startIndex.getD 0 + i]?.map q.projectRow
        else none

theorem getElem?_map_page (q : Query) (rows : List Feature) (i : Nat) :
    ((q.page rows).map q.projectRow)[i]? =
      if q.maxFeatures.all fun n => i < n then
        rows[q.startIndex.getD 0 + i]?.map q.projectRow
      else none := by
  rw [List.getElem?_map, getElem?_page]
  split
  · rfl
  · rfl

theorem answers_iff {q : Query} {rows answer : List Feature} :
    q.Answers rows answer <->
      answer = (q.page (sortRows q.sortBy (q.select rows))).map q.projectRow := by
  constructor
  · rintro ⟨sorted, hSorted, hRows⟩
    cases StableOrder.iff_eq_mergeSort.mp hSorted
    apply List.ext_getElem?
    intro i
    exact (hRows i).trans (q.getElem?_map_page _ i).symm
  · rintro rfl
    exact ⟨_, StableOrder.mergeSort _ _, q.getElem?_map_page _⟩

end Query

namespace FeatureTable

theorem run_of_no_joins (table : FeatureTable) {q : Query} (h : q.joins = []) :
    table.run q = .ok ((q.page (sortRows q.sortBy (q.select table.rows))).map q.projectRow) := by
  have hSort : (if q.sortBy.isEmpty then q.select table.rows
      else sortRows q.sortBy (q.select table.rows)) =
        sortRows q.sortBy (q.select table.rows) := by
    cases q.sortBy with
    | nil => exact (sortRows_nil _).symm
    | cons key keys => rfl
  unfold run
  rw [h, ← Query.projectRows_eq_map]
  dsimp only
  rw [hSort]
  rfl

end FeatureTable

/--
A feature table and a product store with the same rows give the same answer to a query
without joins, and with it the same count and bounds.  It is the page of the stably
sorted rows that the filter accepts, which is found before any attribute is left out.
-/
theorem stores_answer_alike (schema : Schema) (rows : List Feature)
    (tables : NameMap (List Feature)) {q : Query} (hJoins : q.joins = []) :
    exists answer, (forall other, q.Answers rows other <-> other = answer) ∧
      forall source, source ∈ [FeatureTable.source ⟨schema, rows⟩,
          ProductStore.source ⟨schema, rows, tables⟩] ->
        source.features q = .ok answer ∧ source.count q = .ok answer.length ∧
          source.bounds q = .ok (Feature.boundsOf answer) := by
  refine ⟨_, fun other => Query.answers_iff, ?_⟩
  intro source hSource
  have hFeatures : source.features q =
      .ok ((q.page (sortRows q.sortBy (q.select rows))).map q.projectRow) := by
    rcases List.mem_pair.mp hSource with rfl | rfl
    · exact FeatureTable.run_of_no_joins ⟨schema, rows⟩ hJoins
    · exact ProductStore.run_of_no_joins ⟨schema, rows, tables⟩ hJoins
  refine ⟨hFeatures, ?_, ?_⟩
  · unfold FeatureSource.count
    rw [hFeatures]
    rfl
  · unfold FeatureSource.bounds
    rw [hFeatures]
    rfl

def wrecks : List Feature :=
  [⟨"a", [("charted", .bool false), ("name", .text "Anne")]⟩,
    ⟨"b", [("charted", .bool true), ("name", .text "Bess")]⟩,
    ⟨"c", [("name", .text "Cora")]⟩,
    ⟨"d", [("charted", .bool false), ("name", .text "Dora")]⟩]

def wreckQuery : Query where
  typeName := "wreck"
  filter := .not (.isNull "charted")
  properties := some ["name"]
  sortBy := [⟨"charted", .descending⟩]
  startIndex := some 1
  maxFeatures := some 5

theorem wrecks_are_listed_alike :
    wreckQuery.joins = [] ∧
      forall source, source ∈ [FeatureTable.source ⟨{ typeName := "wreck" }, wrecks⟩,
          ProductStore.source ⟨{ typeName := "wreck" }, wrecks, .empty⟩] ->
        source.features wreckQuery =
            .ok [⟨"a", [("name", .text "Anne")]⟩, ⟨"d", [("name", .text "Dora")]⟩] ∧
          source.count wreckQuery = .ok 2 := by
  have hSorted : sortRows wreckQuery.sortBy (wreckQuery.select wrecks) =
      [⟨"b", [("charted", .bool true), ("name", .text "Bess")]⟩,
        ⟨"a", [("charted", .bool false), ("name", .text "Anne")]⟩,
        ⟨"d", [("charted", .bool false), ("name", .text "Dora")]⟩] := by
    show List.mergeSort [_, _, _] _ = _
    rw [StableOrder.mergeSort_cons, StableOrder.mergeSort_cons, StableOrder.mergeSort_cons,
      List.mergeSort_nil]
    rfl
  rcases stores_answer_alike { typeName := "wreck" } wrecks .empty
      (show wreckQuery.joins = [] from rfl) with ⟨answer, hAnswer, hSources⟩
  have hRows := (hAnswer _).mp (Query.answers_iff.mpr rfl)
  rw [hSorted] at hRows
  refine ⟨rfl, fun source hSource => ?_⟩
  rcases hSources source hSource with ⟨hFeatures, hCount, _⟩
  rw [← hRows] at hFeatures hCount
  exact ⟨hFeatures, hCount⟩

end LayerAxes
