import LayerAxes.Proofs.Dimension.RowStore
import LayerAxes.Proofs.Envelope.Union

/-!
# Columns that are read

A reader of rows looks at the start and the end of the dimension and at the geometry of
the schema, and not at identifiers.  Rows that have the same in these columns are the
same rows when reduced to them, but for their identifiers, and therefore have the same
values, the same bounds and the same errors.
-/

namespace LayerAxes

/-!
# Rows that agree
-/

namespace Feature

def AgreeOn (names : List String) (a b : Feature) : Prop :=
  forall name, name ∈ names -> a.get? name = b.get? name

theorem attributes_project_eq {names : List String} {a b : Feature} (ha : a.Ordered)
    (hb : b.Ordered) (h : AgreeOn names a b) :
    (a.project names).attributes = (b.project names).attributes :=
  Entries.filter_eq_of_find?_eq ha hb h

def SameAttributes (rows others : List Feature) : Prop :=
  List.Forall₂ (fun a b => a.attributes = b.attributes) rows others

variable {rows others : List Feature}

theorem sameAttributes_project {names : List String}
    (hRows : forall row, row ∈ rows -> row.Ordered)
    (hOthers : forall row, row ∈ others -> row.Ordered)
    (h : List.Forall₂ (AgreeOn names) rows others) :
    SameAttributes (rows.map fun row => row.project names)
      (others.map fun row => row.project names) := by
  unfold SameAttributes
  rw [List.forall₂_map_left_iff, List.forall₂_map_right_iff]
  induction h with
  | nil => exact .nil
  | cons hFirst _ ih =>
      rw [List.forall_mem_cons] at hRows hOthers
      exact .cons (attributes_project_eq hRows.1 hOthers.1 hFirst) (ih hRows.2 hOthers.2)

theorem SameAttributes.boundsOf_eq (h : SameAttributes rows others) :
    boundsOf rows = boundsOf others := by
  have hBounds : rows.map bounds = others.map bounds := by
    induction h with
    | nil => rfl
    | @cons a b _ _ hFirst _ ih =>
        have hOwn : a.bounds = b.bounds := by
          unfold bounds
          rw [hFirst]
        rw [List.map_cons, List.map_cons, hOwn, ih]
  rw [boundsOf_eq_unionOf, boundsOf_eq_unionOf, hBounds]

end Feature

namespace DimensionRows

variable {type : DataType} {startName : String} {endName : Option String}

theorem readRow_eq_of_attributes_eq {a b : Feature} (h : a.attributes = b.attributes)
    (kind : Option Kind) :
    readRow type startName endName kind a = readRow type startName endName kind b := by
  rcases a with ⟨idA, attributes⟩
  rcases b with ⟨idB, _⟩
  cases h
  rfl

theorem readRows_eq_of_sameAttributes {rows others : List Feature}
    (h : Feature.SameAttributes rows others) (kind : Option Kind) :
    readRows type startName endName kind rows = readRows type startName endName kind others := by
  induction h generalizing kind with
  | nil => rfl
  | cons hFirst _ ih =>
      unfold readRows
      rw [readRow_eq_of_attributes_eq hFirst]
      simp only [ih]

end DimensionRows

/-!
# Stores that agree
-/

namespace RowStore

variable {s : RowStore} {config : DimensionConfig} {dimension : String}
  {rows others : List Feature}

theorem foundRows_withRows (names : AttributeNames) :
    (s.withRows rows).foundRows names .everything =
      rows.map fun row => row.project (s.columns names) := by
  unfold foundRows columns
  rw [rows_withRows, schema_withRows, Filter.filter_everything]

theorem readOrdered_withRows_eq (type : DataType)
    (hRows : forall row, row ∈ rows -> row.Ordered)
    (hOthers : forall row, row ∈ others -> row.Ordered)
    (h : List.Forall₂ (Feature.AgreeOn (s.columns (s.names config dimension))) rows others)
    (order : List Value -> Answer (List Value)) :
    (Reader.ofStore (s.withRows rows).store config).readOrdered dimension .everything type order =
      (Reader.ofStore (s.withRows others).store config).readOrdered dimension .everything type
        order := by
  have hSame := Feature.sameAttributes_project hRows hOthers h
  have hNames : forall rows, ((s.withRows rows).names config dimension).startName =
      (s.names config dimension).startName := by
    intro rows
    rw [names_withRows]
  cases hStart : (s.names config dimension).startName with
  | none =>
      rw [readOrdered_of_startName_eq_none ((hNames _).trans hStart),
        readOrdered_of_startName_eq_none ((hNames _).trans hStart)]
  | some startName =>
      rw [readOrdered_of_startName_eq_some ((hNames _).trans hStart),
        readOrdered_of_startName_eq_some ((hNames _).trans hStart),
        names_withRows, names_withRows, foundRows_withRows, foundRows_withRows]
      dsimp only
      rw [hSame.boundsOf_eq, DimensionRows.readRows_eq_of_sameAttributes hSame]

end RowStore

/--
Rows that agree, one by one, in the attributes that are resolved for a dimension and in
the geometry of the schema are read alike, whatever their identifiers and their other
attributes are: with duplicates and without them, in both directions and in any other
order of values.
-/
theorem readers_read_only_resolved_attributes (s : RowStore) (config : DimensionConfig)
    (dimension : String) (type : DataType) {names : AttributeNames} {rows others : List Feature}
    (hNames : (Reader.ofStore s.store config).attributeNames dimension = .ok names)
    (hRows : forall row, row ∈ rows -> row.Ordered)
    (hOthers : forall row, row ∈ others -> row.Ordered)
    (hAgree : List.Forall₂ (Feature.AgreeOn (names.startName.toList ++ names.endName.toList ++
      s.table.schema.geometry.toList)) rows others) :
    (forall direction,
      (Reader.ofStore (s.withRows rows).store config).readAll dimension .everything type
          direction =
        (Reader.ofStore (s.withRows others).store config).readAll dimension .everything type
          direction ∧
      (Reader.ofStore (s.withRows rows).store config).readDistinct dimension .everything type
          direction =
        (Reader.ofStore (s.withRows others).store config).readDistinct dimension .everything type
          direction) ∧
    forall order,
      (Reader.ofStore (s.withRows rows).store config).readOrdered dimension .everything type
          order =
        (Reader.ofStore (s.withRows others).store config).readOrdered dimension .everything type
          order := by
  rw [s.attributeNames_ofStore] at hNames
  cases hNames
  have hOrdered := RowStore.readOrdered_withRows_eq type hRows hOthers hAgree
  exact ⟨Reader.readAll_and_readDistinct_eq hOrdered, hOrdered⟩

def soundingTable : FeatureTable where
  schema := { typeName := "sounding", attributes := ["depth", "shape"], geometry := some "shape" }
  rows := []

def soundingReader (rows : List Feature) : Reader :=
  Reader.ofStore (RowStore.vector { soundingTable with rows }).store
    { startAttribute := some "depth" }

def soundings : List Feature :=
  [.ofList "a" [("depth", .integer 4), ("shape", .geometry ⟨.zero, .zero, .zero, .zero⟩)],
    .ofList "b" [("depth", .integer 2)]]

def annotatedSoundings : List Feature :=
  [.ofList "c" [("depth", .integer 4), ("shape", .geometry ⟨.zero, .zero, .zero, .zero⟩),
      ("track", .geometry ⟨-.infinity, .zero, .infinity, .zero⟩)],
    .ofList "d" [("depth", .integer 2), ("remark", .text "deep")]]

theorem annotations_are_not_read :
    (soundingReader annotatedSoundings).readDistinct "depth" .everything .custom .ascending =
        (soundingReader soundings).readDistinct "depth" .everything .custom .ascending ∧
      (soundingReader annotatedSoundings).readOrdered "depth" .everything .custom .ok =
        .ok ⟨⟨.zero, .zero, .zero, .zero⟩,
          [.number (.instant (Binary64.ofInt 4)), .number (.instant (Binary64.ofInt 2))]⟩ := by
  have hAgree :
      List.Forall₂ (Feature.AgreeOn ["depth", "shape"]) annotatedSoundings soundings := by
    refine .cons ?_ (.cons ?_ .nil)
    · intro name hName
      rcases List.mem_pair.mp hName with rfl | rfl <;> rfl
    · intro name hName
      rcases List.mem_pair.mp hName with rfl | rfl <;> rfl
  have hAnnotated : forall row, row ∈ annotatedSoundings -> row.Ordered := by
    intro row hRow
    rcases List.mem_pair.mp hRow with rfl | rfl <;> exact Feature.ordered_ofList _ _
  have hPlain : forall row, row ∈ soundings -> row.Ordered := by
    intro row hRow
    rcases List.mem_pair.mp hRow with rfl | rfl <;> exact Feature.ordered_ofList _ _
  have hReads := readers_read_only_resolved_attributes (.vector soundingTable)
    { startAttribute := some "depth" } "depth" .custom rfl hAnnotated hPlain hAgree
  have hPlainRead : (soundingReader soundings).readOrdered "depth" .everything .custom .ok =
      .ok ⟨⟨.zero, .zero, .zero, .zero⟩,
        [.number (.instant (Binary64.ofInt 4)), .number (.instant (Binary64.ofInt 2))]⟩ := by
    rw [soundingReader, RowStore.readOrdered_of_startName_eq_some rfl]
    rfl
  exact ⟨(hReads.1 .ascending).2, (hReads.2 .ok).trans hPlainRead⟩

end LayerAxes
