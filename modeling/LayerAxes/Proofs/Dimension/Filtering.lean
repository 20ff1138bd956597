import LayerAxes.Proofs.Dimension.TextKind
import Mathlib.Data.List.Perm.Subperm

/-!
# Reading under a filter

A store in memory leaves out the rows that a filter refuses.  The values of the
rows that are left stay what they were as long as their text cells keep their
kind, which is always so where the type fixes the kind and for a flat raster,
whose tokens are classified before it is filtered.  In the rows of a table the
kind of a custom dimension may go with the row that decided it.
-/

namespace LayerAxes
namespace DimensionRows

/-!
# Some of the rows
-/

section

variable {type : DataType} {startName : String} {endName : Option String}
  {part all : List Feature}

theorem flatMap_textsMet_ne_nil_iff {rows : List Feature} :
    rows.flatMap (textsMet startName endName) ≠ [] <->
      exists row, row ∈ rows ∧ textsMet startName endName row ≠ [] := by
  rw [Ne, List.flatMap_eq_nil_iff]
  push Not
  exact Iff.rfl

theorem exists_textKind?_eq_some {rows : List Feature} {row : Feature} (hRow : row ∈ rows)
    (hMet : textsMet startName endName row ≠ []) :
    exists kind, textKind? type startName endName rows = some kind := by
  have hNe := flatMap_textsMet_ne_nil_iff.mpr ⟨row, hRow, hMet⟩
  rcases List.exists_cons_of_ne_nil hNe with ⟨token, tokens, hTokens⟩
  refine ⟨Token.classify type token, ?_⟩
  unfold textKind?
  rw [hTokens]
  rfl

theorem exists_mem_of_textKind?_eq_some {rows : List Feature} {kind : Kind}
    (h : textKind? type startName endName rows = some kind) :
    exists row, row ∈ rows ∧ textsMet startName endName row ≠ [] := by
  apply flatMap_textsMet_ne_nil_iff.mp
  intro hNil
  unfold textKind? at h
  rw [hNil] at h
  cases h

theorem readRows_eq_of_textKind? {rows : List Feature} {kind : Kind}
    (h : forall k, textKind? type startName endName rows = some k -> k = kind) :
    readRows type startName endName none rows =
      (rows.mapM (readRowAs kind startName endName)).map List.reduceOption :=
  readRows_eq h

theorem exists_mapM_of_readRows_eq_ok {rows : List Feature} {kind : Kind} {values : List Value}
    (hKind : forall k, textKind? type startName endName rows = some k -> k = kind)
    (h : readRows type startName endName none rows = .ok values) :
    exists results, rows.mapM (readRowAs kind startName endName) = .ok results ∧
      results.reduceOption = values := by
  rw [readRows_eq_of_textKind? hKind] at h
  cases hResults : rows.mapM (readRowAs kind startName endName) with
  | error e =>
      rw [hResults] at h
      cases h
  | ok results =>
      rw [hResults] at h
      cases h
      exact ⟨results, rfl, rfl⟩

theorem exists_value_of_readRows_eq_ok {rows : List Feature} {kind : Kind} {values : List Value}
    (hKind : textKind? type startName endName rows = some kind)
    (h : readRows type startName endName none rows = .ok values) {row : Feature}
    (hRow : row ∈ rows) (hMet : textsMet startName endName row ≠ []) :
    exists v, v ∈ values ∧ v.kind = kind := by
  have hOwn : forall k, textKind? type startName endName rows = some k -> k = kind := by
    intro k hk
    rw [hKind] at hk
    exact (Option.some.inj hk).symm
  rcases exists_mapM_of_readRows_eq_ok hOwn h with ⟨results, hResults, rfl⟩
  rcases Answer.exists_of_mem_of_mapM_eq_ok hResults hRow with ⟨v?, hMem, hRead⟩
  rcases kind_of_textsMet_ne_nil hMet hRead with ⟨v, rfl, hValue⟩
  exact ⟨v, List.reduceOption_mem_iff.mpr hMem, hValue⟩

theorem exists_readRows_of_sublist (hPart : part.Sublist all) {values : List Value}
    (hAll : readRows type startName endName none all = .ok values)
    (hKeeps : forall kind, textKind? type startName endName part = some kind ->
      textKind? type startName endName all = some kind) :
    exists kept, readRows type startName endName none part = .ok kept ∧ kept.Sublist values := by
  have hOfAll : forall k, textKind? type startName endName all = some k ->
      k = (textKind? type startName endName all).getD .text := by
    intro k hk
    rw [hk]
    rfl
  have hOfPart : forall k, textKind? type startName endName part = some k ->
      k = (textKind? type startName endName all).getD .text :=
    fun k hk => hOfAll k (hKeeps k hk)
  rcases exists_mapM_of_readRows_eq_ok hOfAll hAll with ⟨results, hResults, rfl⟩
  rcases Answer.exists_mapM_eq_ok_of_sublist hPart hResults with ⟨picked, hPicked, hSublist⟩
  refine ⟨picked.reduceOption, ?_, hSublist.filterMap id⟩
  rw [readRows_eq_of_textKind? hOfPart, hPicked]
  rfl

/-- Some of the rows have some of the values exactly when their texts keep their kind. -/
theorem exists_readRows_subperm_iff (hPart : part.Sublist all) {values : List Value}
    (hAll : readRows type startName endName none all = .ok values)
    (hOneKind : Value.OneKind values) :
    (exists kept, readRows type startName endName none part = .ok kept ∧ kept.Subperm values) <->
      forall kind, textKind? type startName endName part = some kind ->
        textKind? type startName endName all = some kind := by
  constructor
  · rintro ⟨kept, hKept, hSubperm⟩ kind hKind
    rcases exists_mem_of_textKind?_eq_some hKind with ⟨row, hRow, hMet⟩
    rcases @exists_textKind?_eq_some type _ _ _ _ (hPart.subset hRow) hMet with ⟨other, hOther⟩
    rcases exists_value_of_readRows_eq_ok hKind hKept hRow hMet with ⟨v, hv, rfl⟩
    rcases exists_value_of_readRows_eq_ok hOther hAll (hPart.subset hRow) hMet with ⟨w, hw, rfl⟩
    rw [hOther, hOneKind w hw v (hSubperm.subset hv)]
  · intro hKeeps
    rcases exists_readRows_of_sublist hPart hAll hKeeps with ⟨kept, hKept, hSublist⟩
    exact ⟨kept, hKept, hSublist.subperm⟩

theorem textKind?_of_fixedKind {kind : Kind} (hType : type.fixedKind = some kind)
    {rows : List Feature} {k : Kind} (h : textKind? type startName endName rows = some k) :
    k = kind := by
  rcases Option.map_eq_some_iff.mp h with ⟨token, _, rfl⟩
  exact Token.classify_of_fixedKind_eq_some hType token

end

/-- Rows of the same attributes, some of those of `all`. -/
structure PartOf (part all : DimensionRows) : Prop where
  startName : part.startName = all.startName
  endName : part.endName = all.endName
  rows : Option.Rel List.Sublist part.rows all.rows

theorem cases_of_partOf {part? all? : Option DimensionRows}
    (h : Option.Rel PartOf part? all?) :
    (part?.bind DimensionRows.rows = none ∧ all?.bind DimensionRows.rows = none) ∨
      exists part all picked rows, part? = some part ∧ all? = some all ∧ part.PartOf all ∧
        part.rows = some picked ∧ all.rows = some rows ∧ picked.Sublist rows := by
  cases h with
  | none => exact Or.inl ⟨rfl, rfl⟩
  | @some part all hPartOf =>
      have hRel := hPartOf.rows
      generalize hPicked : part.rows = picked? at hRel
      generalize hRows : all.rows = rows? at hRel
      cases hRel with
      | none => exact Or.inl ⟨hPicked, hRows⟩
      | some hSublist =>
          exact Or.inr ⟨part, all, _, _, rfl, rfl, hPartOf, hPicked, hRows, hSublist⟩

end DimensionRows

/-!
# Stores in memory
-/

inductive Reader.InMemory : Reader -> Prop where
  | structured (coverage : Coverage) : InMemory (.structured coverage.catalog)
  | flat (source : MetadataSource) : InMemory (.flat source)
  | vector (table : FeatureTable) (names : AttributeNames) :
      InMemory (.vector table.source names)

theorem Filter.filter_everything (rows : List Feature) :
    rows.filter (fun row => Filter.everything.evaluate row) = rows :=
  List.filter_eq_self.mpr fun _ _ => rfl

theorem Coverage.answer_self {α : Type} (coverage : Coverage) (a : Answer α) :
    coverage.answer coverage.name a = a :=
  if_pos rfl

theorem Coverage.dimensionRows_catalog (coverage : Coverage) (dimension : String)
    (filter : Filter) :
    coverage.catalog.dimensionRows dimension filter =
      coverage.granules.source.dimensionRows
        (GranuleCatalog.namesIn coverage.descriptors dimension) filter := by
  have hCoverage : coverage.catalog.coverage = .ok coverage.name := rfl
  have hNames : coverage.catalog.descriptors coverage.name = .ok coverage.descriptors :=
    coverage.answer_self _
  have hSchema : coverage.catalog.schema coverage.name = .ok coverage.granules.schema :=
    coverage.answer_self _
  have hGranules : forall q, coverage.catalog.granules coverage.name q = coverage.granules.run q :=
    fun q => coverage.answer_self _
  unfold GranuleCatalog.dimensionRows FeatureSource.dimensionRows
  rw [hCoverage]
  dsimp only [bind, Except.bind]
  rw [hNames]
  dsimp only
  cases (GranuleCatalog.namesIn coverage.descriptors dimension).startName with
  | none => rfl
  | some startName =>
      rw [hSchema]
      dsimp only
      rw [hGranules]
      rfl

namespace FeatureTable

theorem exists_partOf_dimensionRows (table : FeatureTable) (names : AttributeNames)
    (filter : Filter) {found : Option DimensionRows}
    (h : table.source.dimensionRows names .everything = .ok found) :
    exists part, table.source.dimensionRows names filter = .ok part ∧
      Option.Rel DimensionRows.PartOf part found := by
  rcases names with ⟨startName?, endName⟩
  cases startName? with
  | none =>
      cases h
      exact ⟨none, rfl, Option.Rel.none⟩
  | some startName =>
      have hRows := fun filter =>
        Reader.dimensionRows_vector_table table startName endName "" filter .custom
      have hAll := (hRows .everything).symm.trans h
      cases hAll
      refine ⟨_, hRows filter, Option.Rel.some ⟨rfl, rfl, Option.Rel.some ?_⟩⟩
      apply List.Sublist.map
      rw [Filter.filter_everything]
      exact List.filter_sublist

end FeatureTable

namespace MetadataSource

theorem exists_partOf_dimensionRows (source : MetadataSource) (dimension : String)
    (filter : Filter) (type : DataType) {found : DimensionRows}
    (h : source.dimensionRows dimension .everything type = .ok found) :
    exists part, source.dimensionRows dimension filter type = .ok part ∧
      DimensionRows.PartOf part found := by
  rcases Answer.exists_of_bind_eq_ok h with ⟨domain?, hDomain, hMore⟩
  unfold dimensionRows
  dsimp only
  rw [hDomain]
  cases domain? with
  | none =>
      cases hMore
      exact ⟨_, rfl, ⟨rfl, rfl, Option.Rel.none⟩⟩
  | some domain =>
      show exists part, (if domain.isEmpty then _ else _) = Except.ok part ∧ _
      dsimp only at hMore
      split at hMore
      · rename_i hEmpty
        cases hMore
        rw [if_pos hEmpty]
        exact ⟨_, rfl, ⟨rfl, rfl, Option.Rel.none⟩⟩
      · rename_i hEmpty
        rcases Answer.exists_of_bind_eq_ok hMore with ⟨rows, hRows, hReturn⟩
        cases hReturn
        rw [if_neg hEmpty, hRows]
        refine ⟨_, rfl, ⟨rfl, rfl, Option.Rel.some ?_⟩⟩
        rw [Filter.filter_everything]
        exact List.filter_sublist

theorem endName_of_dimensionRows_eq_ok {source : MetadataSource} {dimension : String}
    {filter : Filter} {type : DataType} {found : DimensionRows}
    (h : source.dimensionRows dimension filter type = .ok found) : found.endName = none := by
  rcases Answer.exists_of_bind_eq_ok h with ⟨domain?, _, hMore⟩
  cases domain? with
  | none =>
      cases hMore
      rfl
  | some domain =>
      dsimp only at hMore
      split at hMore
      · cases hMore
        rfl
      · rcases Answer.exists_of_bind_eq_ok hMore with ⟨rows, _, hReturn⟩
        cases hReturn
        rfl

theorem textsMet_tokenRow (key : String) (place : Nat) (v : Value) :
    DimensionRows.textsMet key none (tokenRow key place v) = [] := by
  unfold DimensionRows.textsMet DimensionRows.textOf?
  rw [present?_tokenRow]
  show (((tokenRow key place v).present? key).bind Attribute.text?).toList ++ [] = []
  rw [present?_tokenRow]
  rfl

end MetadataSource

namespace Reader

variable {reader : Reader} {dimension : String} {type : DataType} {direction : Direction}
  {all : Domain}

theorem exists_partOf_dimensionRows (hStore : reader.InMemory) (filter : Filter)
    {found : Option DimensionRows}
    (h : reader.dimensionRows dimension .everything type = .ok found) :
    exists part, reader.dimensionRows dimension filter type = .ok part ∧
      Option.Rel DimensionRows.PartOf part found := by
  cases hStore with
  | structured coverage =>
      change coverage.catalog.dimensionRows dimension _ = _ at h
      show exists part, coverage.catalog.dimensionRows dimension _ = _ ∧ _
      rw [Coverage.dimensionRows_catalog] at h ⊢
      exact coverage.granules.exists_partOf_dimensionRows _ filter h
  | flat source =>
      rcases Answer.exists_of_bind_eq_ok h with ⟨own, hOwn, hReturn⟩
      cases hReturn
      rcases source.exists_partOf_dimensionRows dimension filter type hOwn with
        ⟨part, hPart, hRel⟩
      refine ⟨some part, ?_, Option.Rel.some hRel⟩
      show (source.dimensionRows dimension filter type >>= _) = _
      rw [hPart]
      rfl
  | vector table names => exact table.exists_partOf_dimensionRows names filter h

def textKind? (reader : Reader) (dimension : String) (filter : Filter) (type : DataType) :
    Option Kind :=
  match reader.dimensionRows dimension filter type with
  | .ok (some found) =>
      found.rows.bind (DimensionRows.textKind? type found.startName found.endName)
  | _ => none

/-- The text cells that a filter leaves are of the kind that they have without it. -/
def KeepsTextKind (reader : Reader) (dimension : String) (filter : Filter) (type : DataType) :
    Prop :=
  forall kind, reader.textKind? dimension filter type = some kind ->
    reader.textKind? dimension .everything type = some kind

theorem textKind?_eq {filter : Filter} {found : DimensionRows} {rows : List Feature}
    (hFound : reader.dimensionRows dimension filter type = .ok (some found))
    (hRows : found.rows = some rows) :
    reader.textKind? dimension filter type =
      DimensionRows.textKind? type found.startName found.endName rows := by
  unfold textKind?
  rw [hFound]
  show found.rows.bind _ = _
  rw [hRows]
  rfl

theorem textKind?_eq_none_of_rows {filter : Filter} {found? : Option DimensionRows}
    (hFound : reader.dimensionRows dimension filter type = .ok found?)
    (hRows : found?.bind DimensionRows.rows = none) :
    reader.textKind? dimension filter type = none := by
  unfold textKind?
  rw [hFound]
  cases found? with
  | none => rfl
  | some found =>
      change found.rows = none at hRows
      show found.rows.bind _ = none
      rw [hRows]
      rfl

theorem exists_readAll_subperm_iff {filter : Filter} {found part : DimensionRows}
    {rows picked : List Feature} {values : List Value}
    (hFound : reader.dimensionRows dimension .everything type = .ok (some found))
    (hRows : found.rows = some rows)
    (hPart : reader.dimensionRows dimension filter type = .ok (some part))
    (hPicked : part.rows = some picked) (hPartOf : part.PartOf found)
    (hSublist : picked.Sublist rows) (hValues : found.values type rows = .ok values)
    (hSort : Value.sort direction values = .ok all.values) :
    (exists kept, reader.readAll dimension filter type direction = .ok kept ∧
        kept.values.Subperm all.values) <->
      reader.KeepsTextKind dimension filter type := by
  have hOneKind := (Value.sort_eq_ok_iff.mp hSort).1
  have hPerm := (Value.stableOrder_of_sort_eq_ok hSort).perm
  unfold KeepsTextKind
  rw [textKind?_eq hPart hPicked, textKind?_eq hFound hRows, hPartOf.startName, hPartOf.endName,
    ← DimensionRows.exists_readRows_subperm_iff hSublist hValues hOneKind]
  have hPartValues : part.values type picked =
      DimensionRows.readRows type found.startName found.endName none picked := by
    rw [← hPartOf.startName, ← hPartOf.endName]
    rfl
  constructor
  · rintro ⟨kept, hKept, hSubperm⟩
    rcases exists_values_of_readAll_eq_ok hPart hPicked hKept with ⟨read, hRead, hOwnSort⟩
    have hOwnPerm := (Value.stableOrder_of_sort_eq_ok hOwnSort).perm
    exact ⟨read, hPartValues ▸ hRead,
      hOwnPerm.symm.subperm.trans (hSubperm.trans hPerm.subperm)⟩
  · rintro ⟨read, hRead, hSubperm⟩
    have hOwnSort : Value.sort direction read =
        .ok (read.mergeSort (Value.precedes direction)) :=
      Value.sort_eq_ok_iff.mpr ⟨hOneKind.mono hSubperm.subset, rfl⟩
    have hOwnPerm := (Value.stableOrder_of_sort_eq_ok hOwnSort).perm
    exact ⟨_, readAll_eq_ok hPart hPicked (hPartValues.trans hRead) hOwnSort,
      hOwnPerm.subperm.trans (hSubperm.trans hPerm.symm.subperm)⟩

theorem filter_keeps_values_iff (hStore : reader.InMemory)
    (hAll : reader.readAll dimension .everything type direction = .ok all) (filter : Filter) :
    (exists kept, reader.readAll dimension filter type direction = .ok kept ∧
        kept.values.Subperm all.values) <->
      reader.KeepsTextKind dimension filter type := by
  rcases Answer.exists_of_bind_eq_ok hAll with ⟨found?, hFound, _⟩
  rcases exists_partOf_dimensionRows hStore filter hFound with ⟨part?, hPart, hRel⟩
  rcases DimensionRows.cases_of_partOf hRel with
    ⟨hPartNone, hNone⟩ | ⟨part, found, picked, rows, rfl, rfl, hPartOf, hPicked, hRows, hSublist⟩
  · rw [readAll_eq_empty hFound hNone] at hAll
    cases hAll
    constructor
    · intro _ kind hKind
      rw [textKind?_eq_none_of_rows hPart hPartNone] at hKind
      cases hKind
    · intro _
      exact ⟨Domain.empty, readAll_eq_empty hPart hPartNone, List.Subperm.refl _⟩
  · rcases exists_values_of_readAll_eq_ok hFound hRows hAll with ⟨values, hValues, hSort⟩
    exact exists_readAll_subperm_iff hFound hRows hPart hPicked hPartOf hSublist hValues hSort

/-!
# Where texts keep their kind
-/

theorem exists_rows_of_textKind?_eq_some {filter : Filter} {kind : Kind}
    (h : reader.textKind? dimension filter type = some kind) :
    exists found rows, reader.dimensionRows dimension filter type = .ok (some found) ∧
      found.rows = some rows ∧
      DimensionRows.textKind? type found.startName found.endName rows = some kind := by
  unfold textKind? at h
  split at h
  · rename_i found hFound
    rcases Option.bind_eq_some_iff.mp h with ⟨rows, hRows, hKind⟩
    exact ⟨found, rows, hFound, hRows, hKind⟩
  · cases h

theorem keepsTextKind_of_fixedKind {filter : Filter} {fixed : Kind}
    (hType : type.fixedKind = some fixed) (hStore : reader.InMemory)
    {found? : Option DimensionRows}
    (hFound : reader.dimensionRows dimension .everything type = .ok found?) :
    reader.KeepsTextKind dimension filter type := by
  intro kind hKind
  rcases exists_partOf_dimensionRows hStore filter hFound with ⟨part?, hPart, hRel⟩
  rcases DimensionRows.cases_of_partOf hRel with
    ⟨hPartNone, _⟩ | ⟨part, found, picked, rows, rfl, rfl, hPartOf, hPicked, hRows, hSublist⟩
  · rw [textKind?_eq_none_of_rows hPart hPartNone] at hKind
    cases hKind
  · rw [textKind?_eq hPart hPicked, hPartOf.startName, hPartOf.endName] at hKind
    rcases DimensionRows.exists_mem_of_textKind?_eq_some hKind with ⟨row, hRow, hMet⟩
    rcases @DimensionRows.exists_textKind?_eq_some type _ _ _ _ (hSublist.subset hRow) hMet with
      ⟨other, hOther⟩
    rw [textKind?_eq hFound hRows, hOther, DimensionRows.textKind?_of_fixedKind hType hOther,
      DimensionRows.textKind?_of_fixedKind hType hKind]

theorem keepsTextKind_flat (source : MetadataSource) (filter : Filter) :
    (flat source).KeepsTextKind dimension filter type := by
  intro kind hKind
  rcases exists_rows_of_textKind?_eq_some hKind with ⟨found, rows, hFound, hRows, hTexts⟩
  rcases Answer.exists_of_bind_eq_ok hFound with ⟨own, hOwn, hReturn⟩
  cases hReturn
  rcases DimensionRows.exists_mem_of_textKind?_eq_some hTexts with ⟨row, hRow, hMet⟩
  rcases MetadataSource.exists_of_mem_dimensionRows hOwn hRows hRow with ⟨place, v, _, rfl, _⟩
  rw [MetadataSource.endName_of_dimensionRows_eq_ok hOwn] at hMet
  exact absurd (MetadataSource.textsMet_tokenRow _ place v) hMet

/--
A filter leaves some of the values that are read without it exactly when it
leaves the text cells their kind.  It always does where the type fixes the kind
and in the rows of a flat raster.
-/
theorem filter_only_removes_values_iff (hStore : reader.InMemory)
    (hAll : reader.readAll dimension .everything type direction = .ok all) (filter : Filter) :
    ((exists kept, reader.readAll dimension filter type direction = .ok kept ∧
        kept.values.Subperm all.values) <->
      reader.KeepsTextKind dimension filter type) ∧
    (type ≠ .custom -> reader.KeepsTextKind dimension filter type) ∧
    forall source, reader = .flat source -> reader.KeepsTextKind dimension filter type := by
  refine ⟨filter_keeps_values_iff hStore hAll filter, ?_, ?_⟩
  · intro hType
    rcases Answer.exists_of_bind_eq_ok hAll with ⟨found?, hFound, _⟩
    cases type with
    | temporal => exact keepsTextKind_of_fixedKind rfl hStore hFound
    | numeric => exact keepsTextKind_of_fixedKind rfl hStore hFound
    | custom => exact absurd rfl hType
  · rintro source rfl
    exact keepsTextKind_flat source filter

def bandTable (bands : List String) : FeatureTable where
  schema := { typeName := "scene" }
  rows := bands.map fun band => ⟨band, [("band", .text band)]⟩

def sceneBands (bands : List String) : Reader :=
  .vector (bandTable bands).source ⟨some "band", none⟩

def bandsLeft (bands : List String) (filter : Filter) : List Feature :=
  ((bandTable bands).rows.filter fun row => filter.evaluate row).map fun row =>
    row.project ["band"]

theorem dimensionRows_sceneBands (bands : List String) (filter : Filter) :
    (sceneBands bands).dimensionRows "band" filter .custom =
      .ok (some { startName := "band", rows := some (bandsLeft bands filter) }) :=
  dimensionRows_vector_table (bandTable bands) "band" none "band" filter .custom

theorem textKind?_sceneBands (bands : List String) (filter : Filter) :
    (sceneBands bands).textKind? "band" filter .custom =
      DimensionRows.textKind? .custom "band" none (bandsLeft bands filter) :=
  textKind?_eq (dimensionRows_sceneBands bands filter) rfl

theorem readAll_sceneBands {bands : List String} {filter : Filter} {values : List Value}
    (hValues : DimensionRows.readRows .custom "band" none none (bandsLeft bands filter) =
      .ok values)
    (hKind : Value.OneKind values)
    (hOrdered : values.Pairwise fun a b => Value.precedes .ascending a b = true) :
    (sceneBands bands).readAll "band" filter .custom .ascending =
      .ok ⟨Feature.boundsOf (bandsLeft bands filter), values⟩ :=
  readAll_eq_ok (dimensionRows_sceneBands bands filter) rfl hValues
    (Value.sort_eq_self hKind hOrdered)

theorem filtered_bands_are_some_of_all :
    exists all kept,
      (sceneBands ["1a", "5", "red"]).readAll "band" .everything .custom .ascending = .ok all ∧
      (sceneBands ["1a", "5", "red"]).readAll "band" (.not (.ids ["5"])) .custom .ascending =
        .ok kept ∧
      kept.values.Subperm all.values := by
  have hAll := @readAll_sceneBands ["1a", "5", "red"] .everything
    [.text (.instant "1a"), .text (.instant "5"), .text (.instant "red")]
    (by decide +kernel) (by decide) (by decide +kernel)
  have hKeeps : (sceneBands ["1a", "5", "red"]).KeepsTextKind "band" (.not (.ids ["5"]))
      .custom := by
    intro kind hKind
    rw [textKind?_sceneBands] at hKind ⊢
    rw [← hKind]
    decide +kernel
  rcases ((filter_only_removes_values_iff (.vector _ _) hAll _).1).mpr hKeeps with
    ⟨kept, hKept, hSubperm⟩
  exact ⟨_, kept, hAll, hKept, hSubperm⟩

/--
The band `5` is a text in a domain that starts with a text.  It becomes a number
when a filter lets it come first, and a text after it cannot be read any more.
-/
theorem filtered_bands_change_kind :
    exists all kept,
      (sceneBands ["1a", "5"]).readAll "band" .everything .custom .ascending = .ok all ∧
      all.values = [.text (.instant "1a"), .text (.instant "5")] ∧
      (sceneBands ["1a", "5"]).readAll "band" (.ids ["5"]) .custom .ascending = .ok kept ∧
      kept.values = [.number (.instant (Binary64.ofInt 5))] ∧
      ¬ kept.values.Subperm all.values ∧
      (sceneBands ["1a", "5", "red"]).readAll "band" (.not (.ids ["1a"])) .custom .ascending =
        .error (.unreadableValue "numeric" "red") := by
  have hAll := @readAll_sceneBands ["1a", "5"] .everything
    [.text (.instant "1a"), .text (.instant "5")]
    (by decide +kernel) (by decide) (by decide +kernel)
  have hKept := @readAll_sceneBands ["1a", "5"] (.ids ["5"])
    [.number (.instant (Binary64.ofInt 5))]
    (by decide +kernel) (by decide) (by decide)
  refine ⟨_, _, hAll, rfl, hKept, rfl, ?_, ?_⟩
  · intro hSubperm
    have hMem := hSubperm.subset List.mem_cons_self
    simp at hMem
  · have hError : DimensionRows.readRows .custom "band" none none
        (bandsLeft ["1a", "5", "red"] (.not (.ids ["1a"]))) =
          .error (.unreadableValue "numeric" "red") := by
      decide +kernel
    exact readAll_eq_error (dimensionRows_sceneBands _ _) rfl hError

end Reader
end LayerAxes
