import LayerAxes.Record.Basic
import Mathlib.Data.List.SplitBy
import Mathlib.Data.List.TakeWhile

/-!
# Folding rows into records

The rows of a product come one after the other.  This module cuts a list of rows
into its runs of equal identifiers and shows that a stream of records folds one
record out of every run, in their order, and finds none after the last.

A pushback sequence is seen here as the list of the items that it still holds.
In this view the row that is handed back at the end of a run is nothing but the
first row of the next run.
-/

namespace LayerAxes

/-!
# Runs of rows
-/

/-- The rows cut where the identifier changes, and nowhere else. -/
structure MaximalRuns (rows : List Feature) (runs : List (List Feature)) : Prop where
  flatten : runs.flatten = rows
  nonempty : forall run, run ∈ runs -> run ≠ []
  alike : forall run, run ∈ runs -> forall a, a ∈ run -> forall b, b ∈ run -> a.id = b.id
  separate : runs.IsChain fun left right =>
    forall a, a ∈ left -> forall b, b ∈ right -> a.id ≠ b.id

namespace Record

def runs (rows : List Feature) : List (List Feature) :=
  rows.splitBy fun a b => a.id == b.id

theorem id_eq_of_isChain {run : List Feature}
    (h : run.IsChain fun a b => (a.id == b.id) = true)
    {a b : Feature} (ha : a ∈ run) (hb : b ∈ run) : a.id = b.id := by
  have hMap : (run.map Feature.id).IsChain (· = ·) := by
    rw [List.isChain_map]
    exact h.imp fun _ _ hab => by simpa using hab
  have hPairwise := List.isChain_iff_pairwise.mp hMap
  exact hPairwise.forall_of_forall (fun _ _ => rfl)
    (List.mem_map_of_mem ha) (List.mem_map_of_mem hb)

theorem maximalRuns_runs (rows : List Feature) : MaximalRuns rows (runs rows) := by
  have hAlike : forall run, run ∈ runs rows -> forall a, a ∈ run -> forall b, b ∈ run ->
      a.id = b.id := by
    intro run hRun a ha b hb
    exact id_eq_of_isChain (List.isChain_of_mem_splitBy hRun) ha hb
  refine ⟨List.flatten_splitBy _ rows, ?_, hAlike, ?_⟩
  · intro run hRun
    exact List.ne_nil_of_mem_splitBy hRun
  · apply (List.isChain_getLast_head_splitBy _ rows).imp_of_mem_imp
    rintro left right hLeft hRight ⟨hl, hr, hDiffer⟩ a ha b hb
    rw [hAlike left hLeft a ha _ (List.getLast_mem hl),
      hAlike right hRight b hb _ (List.head_mem hr)]
    simpa using hDiffer

theorem runs_eq_of_maximalRuns {rows : List Feature} {cut : List (List Feature)}
    (h : MaximalRuns rows cut) : runs rows = cut := by
  refine List.splitBy_eq_iff.mpr ⟨h.flatten.symm, ?_, ?_, ?_⟩
  · intro hNil
    exact h.nonempty [] hNil rfl
  · intro run hRun
    apply List.Pairwise.isChain
    apply List.pairwise_of_forall_mem_list
    intro a ha b hb
    simpa using h.alike run hRun a ha b hb
  · apply h.separate.imp_of_mem_imp
    intro left right hLeft hRight hDiffer
    have hl := h.nonempty left hLeft
    have hr := h.nonempty right hRight
    refine ⟨hl, hr, ?_⟩
    simpa using hDiffer _ (List.getLast_mem hl) _ (List.head_mem hr)

/-- Rows of identifiers of their own that are turned into several rows, or none, give a run each. -/
theorem maximalRuns_flatMap {f : Feature -> List Feature} {rows : List Feature}
    (hId : forall row turned, turned ∈ f row -> turned.id = row.id)
    (hIds : (rows.map Feature.id).Nodup) :
    MaximalRuns (rows.flatMap f) ((rows.map f).filter fun run => !run.isEmpty) := by
  refine ⟨?_, ?_, ?_, ?_⟩
  · rw [List.flatten_filter_not_isEmpty]
    rfl
  · intro run hRun
    simpa using (List.mem_filter.mp hRun).2
  · intro run hRun a ha b hb
    rcases List.mem_map.mp (List.mem_of_mem_filter hRun) with ⟨row, _, rfl⟩
    rw [hId row a ha, hId row b hb]
  · apply List.Pairwise.isChain
    apply List.Pairwise.filter
    rw [List.pairwise_map]
    refine (List.pairwise_map.mp hIds).imp ?_
    intro left right hDiffer a ha b hb
    rw [hId left a ha, hId right b hb]
    exact hDiffer

def hasId (id : String) (row : Feature) : Bool :=
  row.id == id

theorem id_ne_of_mem_head?_dropWhile {id : String} {later : List Feature} {row : Feature}
    (h : row ∈ (later.dropWhile (hasId id)).head?) : id ≠ row.id := by
  have hDiffer := List.head?_dropWhile_not (hasId id) later
  rw [Option.mem_def.mp h] at hDiffer
  intro heq
  simp [hasId, heq] at hDiffer

theorem runs_cons (row : Feature) (later : List Feature) :
    runs (row :: later) =
      (row :: later.takeWhile (hasId row.id)) :: runs (later.dropWhile (hasId row.id)) := by
  have hAlike : forall a, a ∈ row :: later.takeWhile (hasId row.id) -> a.id = row.id := by
    intro a ha
    rcases List.mem_cons.mp ha with rfl | ha
    · rfl
    · simpa [hasId] using List.mem_takeWhile_imp ha
  have hFirst : runs (row :: later.takeWhile (hasId row.id)) =
      [row :: later.takeWhile (hasId row.id)] := by
    apply List.splitBy_of_isChain (List.cons_ne_nil _ _)
    apply List.Pairwise.isChain
    apply List.pairwise_of_forall_mem_list
    intro a ha b hb
    simpa using (hAlike a ha).trans (hAlike b hb).symm
  have hCut : runs (row :: later.takeWhile (hasId row.id) ++ later.dropWhile (hasId row.id)) =
      runs (row :: later.takeWhile (hasId row.id)) ++
        runs (later.dropWhile (hasId row.id)) := by
    apply List.splitBy_append
    intro a ha b hb
    rw [hAlike a (List.mem_of_mem_getLast? ha)]
    simpa using id_ne_of_mem_head?_dropWhile hb
  rw [List.cons_append, List.takeWhile_append_dropWhile, hFirst] at hCut
  exact hCut

/-!
# Records of runs
-/

/--
The record of a run: its links come from every row of the run, and all the rest
from the first one.
-/
def ofRun? (columns : ColumnMap) : List Feature -> Option Record
  | [] => none
  | first :: others => some
      { id := first.id
        properties := propertiesOf columns first
        metadata := metadataOf first
        links := (first :: others).filterMap linkOf }

def ofRuns (columns : ColumnMap) (rows : List Feature) : List Record :=
  (runs rows).filterMap (ofRun? columns)

theorem ofRuns_cons (columns : ColumnMap) (row : Feature) (later : List Feature) :
    ofRuns columns (row :: later) =
      { id := row.id
        properties := propertiesOf columns row
        metadata := metadataOf row
        links := (row :: later.takeWhile (hasId row.id)).filterMap linkOf } ::
        ofRuns columns (later.dropWhile (hasId row.id)) := by
  unfold ofRuns
  rw [runs_cons]
  rfl

theorem forall₂_ofRuns (columns : ColumnMap) (rows : List Feature) :
    List.Forall₂ (fun run record => ofRun? columns run = some record)
      (runs rows) (ofRuns columns rows) := by
  have hNonempty := (maximalRuns_runs rows).nonempty
  unfold ofRuns
  generalize runs rows = cut at hNonempty
  induction cut with
  | nil => exact List.Forall₂.nil
  | cons run rest ih =>
      have hRest := ih fun other hOther => hNonempty other (List.mem_cons_of_mem _ hOther)
      cases run with
      | nil => exact absurd rfl (hNonempty [] List.mem_cons_self)
      | cons first others => exact List.Forall₂.cons rfl hRest

theorem links_of_ofRun?_eq_some {columns : ColumnMap} {run : List Feature} {record : Record}
    (h : ofRun? columns run = some record) : record.links = run.filterMap linkOf := by
  cases run with
  | nil => cases h
  | cons first others =>
      cases h
      rfl

theorem filterMap_linkOf_cons (row : Feature) (rows : List Feature) :
    (row :: rows).filterMap linkOf = (linkOf row).toList ++ rows.filterMap linkOf := by
  cases h : linkOf row with
  | none => simp [h]
  | some link => simp [h]

theorem readLinks_eq_ok (id : String) (row : Feature) (rows : Pushback Feature) :
    exists rest,
      readLinks id row rows =
        .ok ((row :: rows.toList.takeWhile (hasId id)).filterMap linkOf, rest) ∧
      rest.toList = rows.toList.dropWhile (hasId id) := by
  fun_induction readLinks id row rows with
  | case1 row rows after hNext =>
      have hEmpty := Pushback.toList_of_next_eq_none hNext
      refine ⟨after, ?_, ?_⟩
      · rw [hEmpty.1, filterMap_linkOf_cons]
        simp
      · rw [hEmpty.1, hEmpty.2]
        rfl
  | case2 row rows other after hNext hId ih =>
      rcases ih with ⟨rest, hLinks, hRest⟩
      have hList := (Pushback.toList_of_next_eq_some hNext).1
      have hOther : hasId id other = true := by simpa [hasId] using hId
      refine ⟨rest, ?_, ?_⟩
      · rw [hLinks, hList, List.takeWhile_cons_of_pos hOther, filterMap_linkOf_cons row]
        rfl
      · rw [hRest, hList, List.dropWhile_cons_of_pos hOther]
  | case3 row rows other after hNext hId =>
      rcases Pushback.toList_of_next_eq_some hNext with ⟨hList, hSlot, hPhase⟩
      have hOther : ¬ hasId id other = true := by simpa [hasId] using hId
      have hBack := Pushback.pushBack_of_phase_eq_read hPhase other
      refine ⟨⟨after.rest, some other, .pushedBack⟩, ?_, ?_⟩
      · rw [hBack, hList, List.takeWhile_cons_of_neg hOther, filterMap_linkOf_cons row]
        simp
      · rw [Pushback.toList_of_pushBack_eq_ok hSlot hBack, hList,
          List.dropWhile_cons_of_neg hOther]

theorem readNext_eq_ok (columns : ColumnMap) (rows : Pushback Feature) :
    exists rest,
      readNext columns rows = .ok ((ofRuns columns rows.toList).head?, rest) ∧
      ofRuns columns rest.toList = (ofRuns columns rows.toList).tail := by
  unfold readNext
  cases hList : rows.toList with
  | nil =>
      rw [Pushback.next_of_toList_eq_nil hList]
      exact ⟨_, rfl, rfl⟩
  | cons row later =>
      rw [Pushback.next_of_toList_eq_cons hList, ofRuns_cons]
      rcases readLinks_eq_ok row.id row ⟨later, none, .read⟩ with ⟨rest, hLinks, hRest⟩
      refine ⟨rest, ?_, ?_⟩
      · simp only [hLinks]
        rfl
      · rw [hRest]
        rfl

end Record

namespace RecordStream

/-!
# Streams of records

The list view of a stream holds the records that it still has to give.  A call
takes its head, and the view never holds an error.
-/

def toList (s : RecordStream) : List Record :=
  if s.exhausted then [] else Record.ofRuns s.columns s.rows.toList

def after : Nat -> RecordStream -> RecordStream
  | 0, s => s
  | calls + 1, s => after calls s.next.2

theorem toList_ofList (columns : ColumnMap) (rows : List Feature) :
    (ofList columns rows).toList = Record.ofRuns columns rows :=
  rfl

theorem next_eq_head_and_tail (s : RecordStream) :
    s.next.1 = s.toList.head?.map .ok ∧ s.next.2.toList = s.toList.tail := by
  rcases Record.readNext_eq_ok s.columns s.rows with ⟨rest, hNext, hRest⟩
  unfold next toList
  by_cases hEnd : s.exhausted
  · simp [hEnd]
  · rw [if_neg hEnd, hNext]
    cases hRecords : Record.ofRuns s.columns s.rows.toList with
    | nil => simp [hEnd]
    | cons record others => simp [hEnd, hRest, hRecords]

theorem collect_eq_ok (s : RecordStream) : s.collect = .ok s.toList := by
  fun_induction collect s with
  | case1 s rest hNext =>
      have hHead := (next_eq_head_and_tail s).1
      rw [hNext] at hHead
      cases hList : s.toList with
      | nil => rfl
      | cons record others => simp [hList] at hHead
  | case2 s e rest hNext =>
      have hHead := (next_eq_head_and_tail s).1
      rw [hNext] at hHead
      cases hList : s.toList with
      | nil => simp [hList] at hHead
      | cons record others => simp [hList] at hHead
  | case3 s record rest hNext ih =>
      rcases next_eq_head_and_tail s with ⟨hHead, hTail⟩
      rw [hNext] at hHead hTail
      cases hList : s.toList with
      | nil => simp [hList] at hHead
      | cons first others =>
          have hFirst : record = first := by simpa [hList] using hHead
          have hRest : rest.toList = others := by simpa [hList] using hTail
          rw [ih, hRest, hFirst]
          rfl

end RecordStream

namespace Record

theorem ofRows_eq_ok (columns : ColumnMap) (rows : List Feature) :
    ofRows columns rows = .ok (ofRuns columns rows) :=
  RecordStream.collect_eq_ok _

theorem ofRows_flatMap {f : Feature -> List Feature} {rows : List Feature}
    (columns : ColumnMap) (hId : forall row turned, turned ∈ f row -> turned.id = row.id)
    (hIds : (rows.map Feature.id).Nodup) :
    ofRows columns (rows.flatMap f) =
      .ok (rows.filterMap fun row => ofRun? columns (f row)) := by
  have hRuns := runs_eq_of_maximalRuns (maximalRuns_flatMap hId hIds)
  rw [ofRows_eq_ok, ofRuns, hRuns, List.filterMap_filter, List.filterMap_map]
  congr 1
  apply List.filterMap_congr
  intro row _
  show (if !(f row).isEmpty then _ else none) = _
  cases f row <;> rfl

end Record
end LayerAxes
