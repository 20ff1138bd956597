import LayerAxes.Dimension.Basic
import LayerAxes.Proofs.Order.Listing

/-!
# Reading a domain

A domain that was read comes from rows of the store, whose values were sorted.
A store that does not know the dimension, or that has no values for it, gives
the empty domain.
-/

namespace LayerAxes

/-!
# Rows of a table
-/

theorem FeatureTable.run_dimensionQuery (table : FeatureTable) (filter : Filter)
    (startName : String) (endName : Option String) :
    table.run (dimensionQuery table.schema filter startName endName) =
      .ok ((table.rows.filter fun row => filter.evaluate row).map fun row =>
        row.project ([startName] ++ endName.toList ++ table.schema.geometry.toList)) :=
  rfl

namespace Reader

theorem dimensionRows_vector_table (table : FeatureTable) (startName : String)
    (endName : Option String) (dimension : String) (filter : Filter) (type : DataType) :
    (vector table.source ⟨some startName, endName⟩).dimensionRows dimension filter type =
      .ok (some
        { startName, endName
          rows := some ((table.rows.filter fun row => filter.evaluate row).map fun row =>
            row.project ([startName] ++ endName.toList ++ table.schema.geometry.toList)) }) := by
  have hRun := table.run_dimensionQuery filter startName endName
  unfold dimensionRows FeatureSource.dimensionRows FeatureTable.source
  simp only [bind, Except.bind, hRun]
  rfl

/-!
# Reading with any order of values

Duplicates are dropped, and values sorted in one direction or the other, after the rows
have been read, so that it does not matter to the rows how this is done.
-/

/-- Read a domain whose values are then put in order by `order`. -/
def readOrdered (reader : Reader) (dimension : String) (filter : Filter) (type : DataType)
    (order : List Value -> Answer (List Value)) : Answer Domain := do
  match <- reader.dimensionRows dimension filter type with
  | none => return Domain.empty
  | some found =>
      match found.rows with
      | none => return Domain.empty
      | some rows =>
          let values <- found.values type rows
          return { bounds := Feature.boundsOf rows, values := <- order values }

variable {reader other : Reader} {dimension : String} {filter otherFilter : Filter}
  {type : DataType} {direction : Direction} {domain : Domain}
  {order : List Value -> Answer (List Value)}

theorem readAll_eq_readOrdered :
    reader.readAll dimension filter type direction =
      reader.readOrdered dimension filter type (Value.sort direction) :=
  rfl

theorem readDistinct_eq_readOrdered :
    reader.readDistinct dimension filter type direction =
      reader.readOrdered dimension filter type
        fun values => Value.sort direction values >>= Value.dedup direction := by
  unfold readDistinct readAll readOrdered
  cases reader.dimensionRows dimension filter type with
  | error e => rfl
  | ok found? =>
      cases found? with
      | none => rfl
      | some found =>
          rcases found with ⟨startName, endName, rows?⟩
          cases rows? with
          | none => rfl
          | some rows =>
              dsimp only [bind, Except.bind]
              cases DimensionRows.values _ type rows with
              | error e => rfl
              | ok values =>
                  dsimp only
                  cases Value.sort direction values <;> rfl

theorem readOrdered_eq_of_dimensionRows_eq
    (h : reader.dimensionRows dimension filter type =
      other.dimensionRows dimension otherFilter type) (order : List Value -> Answer (List Value)) :
    reader.readOrdered dimension filter type order =
      other.readOrdered dimension otherFilter type order := by
  unfold readOrdered
  rw [h]

theorem readAll_and_readDistinct_eq
    (h : forall order, reader.readOrdered dimension filter type order =
      other.readOrdered dimension otherFilter type order) (direction : Direction) :
    reader.readAll dimension filter type direction =
        other.readAll dimension otherFilter type direction ∧
      reader.readDistinct dimension filter type direction =
        other.readDistinct dimension otherFilter type direction := by
  rw [readAll_eq_readOrdered, readAll_eq_readOrdered, readDistinct_eq_readOrdered,
    readDistinct_eq_readOrdered]
  exact ⟨h _, h _⟩

/-!
# Domains
-/

theorem cases_of_readOrdered_eq_ok
    (h : reader.readOrdered dimension filter type order = .ok domain) :
    (domain = Domain.empty ∧
      forall found, reader.dimensionRows dimension filter type = .ok (some found) ->
        found.rows = none) ∨
      exists found rows read,
        reader.dimensionRows dimension filter type = .ok (some found) ∧
        found.rows = some rows ∧
        found.values type rows = .ok read ∧
        order read = .ok domain.values ∧
        domain.bounds = Feature.boundsOf rows := by
  rcases Answer.exists_of_bind_eq_ok h with ⟨found?, hFound, hRead⟩
  cases found? with
  | none =>
      cases hRead
      refine Or.inl ⟨rfl, ?_⟩
      intro found hSome
      rw [hFound] at hSome
      cases hSome
  | some found =>
      dsimp only at hRead
      cases hRows : found.rows with
      | none =>
          rw [hRows] at hRead
          cases hRead
          refine Or.inl ⟨rfl, ?_⟩
          intro other hSome
          rw [hFound] at hSome
          cases hSome
          exact hRows
      | some rows =>
          rw [hRows] at hRead
          rcases Answer.exists_of_bind_eq_ok hRead with ⟨read, hValues, hSorted⟩
          rcases Answer.exists_of_bind_eq_ok hSorted with ⟨sorted, hSort, hReturn⟩
          cases hReturn
          exact Or.inr ⟨found, rows, read, hFound, hRows, hValues, hSort, rfl⟩

theorem cases_of_readAll_eq_ok
    (h : reader.readAll dimension filter type direction = .ok domain) :
    (domain = Domain.empty ∧
      forall found, reader.dimensionRows dimension filter type = .ok (some found) ->
        found.rows = none) ∨
      exists found rows read,
        reader.dimensionRows dimension filter type = .ok (some found) ∧
        found.rows = some rows ∧
        found.values type rows = .ok read ∧
        Value.sort direction read = .ok domain.values ∧
        domain.bounds = Feature.boundsOf rows :=
  cases_of_readOrdered_eq_ok h

theorem readAll_eq_ok {found : DimensionRows} {rows : List Feature} {read sorted : List Value}
    (hFound : reader.dimensionRows dimension filter type = .ok (some found))
    (hRows : found.rows = some rows) (hValues : found.values type rows = .ok read)
    (hSort : Value.sort direction read = .ok sorted) :
    reader.readAll dimension filter type direction = .ok ⟨Feature.boundsOf rows, sorted⟩ := by
  rcases found with ⟨startName, endName, rows?⟩
  cases hRows
  unfold readAll
  rw [hFound]
  show (DimensionRows.values _ type rows >>= _) = _
  rw [hValues]
  show (Value.sort direction read >>= _) = _
  rw [hSort]
  rfl

theorem readAll_eq_empty {found? : Option DimensionRows}
    (hFound : reader.dimensionRows dimension filter type = .ok found?)
    (hRows : found?.bind DimensionRows.rows = none) :
    reader.readAll dimension filter type direction = .ok Domain.empty := by
  unfold readAll
  rw [hFound]
  cases found? with
  | none => rfl
  | some found =>
      rcases found with ⟨startName, endName, rows?⟩
      change rows? = none at hRows
      cases hRows
      rfl

theorem readAll_eq_error {found : DimensionRows} {rows : List Feature} {e : ServiceError}
    (hFound : reader.dimensionRows dimension filter type = .ok (some found))
    (hRows : found.rows = some rows) (hValues : found.values type rows = .error e) :
    reader.readAll dimension filter type direction = .error e := by
  rcases found with ⟨startName, endName, rows?⟩
  cases hRows
  unfold readAll
  rw [hFound]
  show (DimensionRows.values _ type rows >>= _) = _
  rw [hValues]
  rfl

theorem exists_readAll_vector_table_eq_ok (table : FeatureTable) {startName : String}
    {endName : Option String} {read sorted : List Value}
    (hValues : DimensionRows.readRows type startName endName none
      ((table.rows.filter fun row => filter.evaluate row).map fun row =>
        row.project ([startName] ++ endName.toList ++ table.schema.geometry.toList)) = .ok read)
    (hSort : Value.sort direction read = .ok sorted) :
    exists bounds,
      (vector table.source ⟨some startName, endName⟩).readAll dimension filter type direction =
        .ok ⟨bounds, sorted⟩ :=
  ⟨_, readAll_eq_ok (dimensionRows_vector_table _ _ _ _ _ _) rfl hValues hSort⟩

theorem exists_sort_eq_ok (h : reader.readAll dimension filter type direction = .ok domain) :
    exists read, Value.sort direction read = .ok domain.values := by
  rcases cases_of_readAll_eq_ok h with ⟨rfl, _⟩ | ⟨_, _, read, _, _, _, hSort, _⟩
  · exact ⟨[], rfl⟩
  · exact ⟨read, hSort⟩

theorem exists_values_of_readAll_eq_ok {found : DimensionRows} {rows : List Feature}
    (hFound : reader.dimensionRows dimension filter type = .ok (some found))
    (hRows : found.rows = some rows)
    (h : reader.readAll dimension filter type direction = .ok domain) :
    exists values, found.values type rows = .ok values ∧
      Value.sort direction values = .ok domain.values := by
  rcases cases_of_readAll_eq_ok h with
    ⟨_, hNone⟩ | ⟨own, ownRows, values, hOwn, hOwnRows, hValues, hSort, _⟩
  · have hNoRows := hNone found hFound
    rw [hRows] at hNoRows
    cases hNoRows
  · rw [hFound] at hOwn
    cases hOwn
    rw [hRows] at hOwnRows
    cases hOwnRows
    exact ⟨values, hValues, hSort⟩

theorem exists_readAll_eq_ok_in (h : reader.readAll dimension filter type direction = .ok domain)
    (other : Direction) :
    exists turned, reader.readAll dimension filter type other = .ok turned ∧
      turned.values.Perm domain.values := by
  rcases cases_of_readAll_eq_ok h with
    ⟨rfl, hNone⟩ | ⟨found, rows, read, hFound, hRows, hValues, hSort, _⟩
  · rcases Answer.exists_of_bind_eq_ok h with ⟨found?, hFound, _⟩
    refine ⟨Domain.empty, readAll_eq_empty hFound ?_, List.Perm.refl _⟩
    cases found? with
    | none => rfl
    | some found => exact hNone found hFound
  · have hOther : Value.sort other read = .ok (read.mergeSort (Value.precedes other)) :=
      Value.sort_eq_ok_iff.mpr ⟨(Value.sort_eq_ok_iff.mp hSort).1, rfl⟩
    exact ⟨_, readAll_eq_ok hFound hRows hValues hOther,
      (Value.stableOrder_of_sort_eq_ok hOther).perm.trans
        (Value.stableOrder_of_sort_eq_ok hSort).perm.symm⟩

theorem readDistinct_eq_ok
    (h : reader.readAll dimension filter type direction = .ok domain) :
    reader.readDistinct dimension filter type direction =
      .ok { domain with values := domain.values.destutter Value.Differ } := by
  rcases exists_sort_eq_ok h with ⟨read, hSort⟩
  unfold readDistinct
  rw [h]
  show (Value.dedup direction domain.values >>= _) = _
  rw [Value.dedup_eq_ok (Value.oneKind_of_sort_eq_ok hSort)]
  rfl

end Reader

theorem Dimension.values_eq_ok {d : Dimension} {filter : Filter} {domain : Domain}
    (h : d.readAll filter .ascending = .ok domain) :
    d.values filter = .ok (domain.values.destutter Value.Differ) := by
  unfold Dimension.values Dimension.readDistinct
  rw [Reader.readDistinct_eq_ok h]
  rfl

end LayerAxes
