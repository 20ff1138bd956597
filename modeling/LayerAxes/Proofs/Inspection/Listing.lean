import LayerAxes.Inspection.Basic
import LayerAxes.Proofs.Answers
import LayerAxes.Proofs.NameMap
import Mathlib.Data.List.Pairwise
import Mathlib.Data.List.Perm.Basic

/-!
# Lists of dimensions

A list of all dimensions goes through the entries of a layer file, but finds the
dimensions of each by the name of its layer.  This module says what the list of an
entry is, from the configuration and the store of this entry alone, and that an
entry is listed as the first entry of its name.
-/

namespace LayerAxes

/-!
# The dimensions of a layer
-/

/-- Time comes before elevation, and both before the custom axes, which go by name. -/
inductive Axis.Before : Axis -> Axis -> Prop where
  | time_elevation : Before time elevation
  | time_custom (name : String) : Before time (custom name)
  | elevation_custom (name : String) : Before elevation (custom name)
  | custom {a b : String} (h : a < b) : Before (custom a) (custom b)

theorem Axis.Before.asymm {a b : Axis} (h : a.Before b) : ¬ b.Before a := by
  intro hBack
  cases h with
  | time_elevation => cases hBack
  | time_custom name => cases hBack
  | elevation_custom name => cases hBack
  | custom h =>
      cases hBack with
      | custom hBack => exact String.lt_irrefl _ (String.lt_trans h hBack)

namespace LayerDefinition

def config? (layer : LayerDefinition) : Axis -> Option DimensionConfig
  | .time => layer.time
  | .elevation => layer.elevation
  | .custom name => layer.custom.find? name

/-- The enabled dimensions of a layer, each of them once, in the order of their axes. -/
structure Enables (layer : LayerDefinition) (enabled : List (Axis × DimensionConfig)) :
    Prop where
  ordered : enabled.Pairwise fun a b => a.1.Before b.1
  mem_iff : forall axis config, (axis, config) ∈ enabled <->
    layer.config? axis = some config ∧ config.enabled = true

theorem ordered_configured (layer : LayerDefinition) :
    layer.configured.Pairwise fun a b => a.1.Before b.1 := by
  have hCustom : (layer.custom.entries.map fun entry => (Axis.custom entry.1, entry.2)).Pairwise
      fun a b => a.1.Before b.1 := by
    rw [List.pairwise_map]
    exact layer.custom.ordered.imp fun h => Axis.Before.custom h
  have hLast : forall axis : Axis, axis.isCustom = false ->
      forall entry,
        entry ∈ layer.custom.entries.map (fun entry => (Axis.custom entry.1, entry.2)) ->
        axis.Before entry.1 := by
    intro axis hAxis entry hEntry
    rcases List.mem_map.mp hEntry with ⟨named, _, rfl⟩
    cases axis with
    | time => exact Axis.Before.time_custom named.1
    | elevation => exact Axis.Before.elevation_custom named.1
    | custom name => cases hAxis
  unfold configured
  generalize layer.custom.entries.map _ = customs at hCustom hLast ⊢
  cases layer.time with
  | none =>
      cases layer.elevation with
      | none => exact hCustom
      | some elevation => exact List.pairwise_cons.mpr ⟨hLast .elevation rfl, hCustom⟩
  | some time =>
      cases layer.elevation with
      | none => exact List.pairwise_cons.mpr ⟨hLast .time rfl, hCustom⟩
      | some elevation =>
          have hTime : forall entry, entry ∈ (Axis.elevation, elevation) :: customs ->
              Axis.time.Before entry.1 :=
            List.forall_mem_cons.mpr ⟨Axis.Before.time_elevation, hLast .time rfl⟩
          exact List.pairwise_cons.mpr
            ⟨hTime, List.pairwise_cons.mpr ⟨hLast .elevation rfl, hCustom⟩⟩

theorem mem_configured_iff (layer : LayerDefinition) (axis : Axis) (config : DimensionConfig) :
    (axis, config) ∈ layer.configured <-> layer.config? axis = some config := by
  unfold configured
  cases axis with
  | time => simp [config?, eq_comm]
  | elevation => simp [config?, eq_comm]
  | custom name =>
      show _ <-> layer.custom.entries.find? name = some config
      rw [Entries.find?_eq_some_iff layer.custom.ordered]
      simp

theorem enables_filter (layer : LayerDefinition) :
    layer.Enables (layer.configured.filter fun entry => entry.2.enabled) where
  ordered := layer.ordered_configured.filter _
  mem_iff axis config := by
    rw [List.mem_filter, mem_configured_iff]

theorem Enables.nodup {layer : LayerDefinition} {enabled : List (Axis × DimensionConfig)}
    (h : layer.Enables enabled) : enabled.Nodup :=
  h.ordered.imp (by
    rintro a b hBefore rfl
    exact hBefore.asymm hBefore)

theorem Enables.unique {layer : LayerDefinition} {enabled other : List (Axis × DimensionConfig)}
    (h : layer.Enables enabled) (hOther : layer.Enables other) : enabled = other := by
  have hPerm : enabled.Perm other := by
    rw [List.perm_ext_iff_of_nodup h.nodup hOther.nodup]
    rintro ⟨axis, config⟩
    rw [h.mem_iff, hOther.mem_iff]
  refine hPerm.eq_of_pairwise ?_ h.ordered hOther.ordered
  intro a b _ _ hab hba
  exact absurd hba hab.asymm

end LayerDefinition

/-!
# Summaries
-/

def Dimension.onStore (settings : Settings) (layer : String) (store : Store)
    (entry : Axis × DimensionConfig) : Dimension where
  layer
  axis := entry.1
  config := entry.2
  reader := Reader.ofStore store entry.2
  settings

/-- The summary tells what is configured for a dimension and found for it in a store. -/
structure DimensionSummary.Describes (summary : DimensionSummary) (settings : Settings)
    (layer : String) (store : Store) (entry : Axis × DimensionConfig) : Prop where
  layer_eq : summary.layer = layer
  dimension_eq : summary.dimension = entry.1.name
  store_eq : summary.store = store.variant
  presentation_eq : summary.presentation = entry.2.presentation
  exists_defaultValue : exists value,
    (Dimension.onStore settings layer store entry).defaultValue = .ok value ∧
    summary.defaultValue = value.map Value.format

/-- The summaries of the enabled dimensions of an entry, on the store of this entry. -/
def LayerEntry.Lists (entry : LayerEntry) (settings : Settings)
    (part : List DimensionSummary) : Prop :=
  exists store enabled,
    entry.store.build = .ok store ∧
    entry.layer.Enables enabled ∧
    List.Forall₂ (fun dimension summary =>
      DimensionSummary.Describes summary settings entry.layer.name store dimension) enabled part

theorem LayerEntry.Lists.map_dimension {entry : LayerEntry} {settings : Settings}
    {part : List DimensionSummary} (h : entry.Lists settings part) :
    part.map DimensionSummary.dimension =
      (entry.layer.configured.filter fun dimension => dimension.2.enabled).map
        fun dimension => dimension.1.name := by
  rcases h with ⟨store, enabled, _, hEnabled, hPart⟩
  rw [← hEnabled.unique entry.layer.enables_filter]
  clear hEnabled
  induction hPart with
  | nil => rfl
  | cons hFirst _ ih => rw [List.map_cons, List.map_cons, hFirst.dimension_eq, ih]

theorem Reader.variant_ofStore (store : Store) (config : DimensionConfig) :
    (ofStore store config).variant = store.variant := by
  cases store <;> rfl

theorem LayerFile.find?_eq_self_of_nodup {file : LayerFile}
    (h : (file.layers.map fun entry => entry.layer.name).Nodup) {entry : LayerEntry}
    (hEntry : entry ∈ file.layers) : file.find? entry.layer.name = some entry := by
  rcases List.append_of_mem hEntry with ⟨before, after, hLayers⟩
  rw [hLayers, List.map_append, List.map_cons] at h
  refine List.find?_eq_some_iff_append.mpr ⟨beq_self_eq_true _, before, after, hLayers, ?_⟩
  intro other hOther
  have hDiffer := (List.nodup_append.mp h).2.2 _ (List.mem_map_of_mem hOther) _ List.mem_cons_self
  simpa using hDiffer

namespace Inspector

theorem summarize_onStore_eq_ok_iff {settings : Settings} {layer : String} {store : Store}
    {entry : Axis × DimensionConfig} {summary : DimensionSummary} :
    summarize (Dimension.onStore settings layer store entry) = .ok summary <->
      summary.Describes settings layer store entry := by
  constructor
  · intro h
    rcases Answer.exists_of_bind_eq_ok h with ⟨value, hValue, hReturn⟩
    cases hReturn
    exact ⟨rfl, rfl, Reader.variant_ofStore store entry.2, rfl, value, hValue, rfl⟩
  · rcases summary with ⟨ownLayer, dimension, ownStore, presentation, defaultValue⟩
    rintro ⟨rfl, rfl, rfl, rfl, value, hValue, rfl⟩
    unfold summarize
    rw [hValue]
    show Except.ok _ = _
    rw [← Reader.variant_ofStore store entry.2]
    rfl

variable {inspector : Inspector}

theorem entryDimensions_eq_ok_iff {entry : LayerEntry} {dimensions : List Dimension} :
    inspector.entryDimensions entry = .ok dimensions <->
      exists store, entry.store.build = .ok store ∧
        dimensions = (entry.layer.configured.filter fun dimension => dimension.2.enabled).map
          (Dimension.onStore inspector.settings entry.layer.name store) := by
  unfold entryDimensions
  cases entry.store.build with
  | error fault =>
      constructor
      · intro h
        cases h
      · rintro ⟨store, hStore, _⟩
        cases hStore
  | ok store =>
      constructor
      · intro h
        cases h
        exact ⟨store, rfl, rfl⟩
      · rintro ⟨own, hOwn, rfl⟩
        cases hOwn
        rfl

theorem summaries_eq_ok_iff_lists {entry : LayerEntry} {part : List DimensionSummary} :
    (exists dimensions, inspector.entryDimensions entry = .ok dimensions ∧
      dimensions.mapM summarize = .ok part) <-> entry.Lists inspector.settings part := by
  constructor
  · rintro ⟨dimensions, hDimensions, hPart⟩
    rcases entryDimensions_eq_ok_iff.mp hDimensions with ⟨store, hStore, rfl⟩
    refine ⟨store, _, hStore, entry.layer.enables_filter, ?_⟩
    have hAll := List.forall₂_map_left_iff.mp (Answer.mapM_eq_ok_iff.mp hPart)
    exact hAll.imp fun _ _ h => summarize_onStore_eq_ok_iff.mp h
  · rintro ⟨store, enabled, hStore, hEnabled, hPart⟩
    cases hEnabled.unique entry.layer.enables_filter
    refine ⟨_, entryDimensions_eq_ok_iff.mpr ⟨store, hStore, rfl⟩, ?_⟩
    apply Answer.mapM_eq_ok_iff.mpr
    rw [List.forall₂_map_left_iff]
    exact hPart.imp fun _ _ h => summarize_onStore_eq_ok_iff.mpr h

theorem unique_of_lists {entry : LayerEntry} {part other : List DimensionSummary}
    (h : entry.Lists inspector.settings part) (hOther : entry.Lists inspector.settings other) :
    part = other := by
  rcases summaries_eq_ok_iff_lists.mpr h with ⟨dimensions, hDimensions, hPart⟩
  rcases summaries_eq_ok_iff_lists.mpr hOther with ⟨others, hOthers, hOtherPart⟩
  rw [hDimensions] at hOthers
  cases hOthers
  rw [hPart] at hOtherPart
  cases hOtherPart
  rfl

theorem listLayer_eq_ok_iff {name : String} {part : List DimensionSummary} :
    inspector.listLayer name = .ok part <->
      exists first, inspector.file.find? name = some first ∧
        first.Lists inspector.settings part := by
  unfold listLayer dimensions
  cases inspector.file.find? name with
  | none =>
      constructor
      · intro h
        cases h
      · rintro ⟨first, hFirst, _⟩
        cases hFirst
  | some entry =>
      constructor
      · intro h
        exact ⟨entry, rfl, summaries_eq_ok_iff_lists.mp (Answer.exists_of_bind_eq_ok h)⟩
      · rintro ⟨first, hFirst, hLists⟩
        cases hFirst
        rcases summaries_eq_ok_iff_lists.mpr hLists with ⟨dimensions, hDimensions, hPart⟩
        show (inspector.entryDimensions entry >>= _) = _
        rw [hDimensions]
        exact hPart

theorem list_none_eq_ok_iff {summaries : List DimensionSummary} :
    inspector.list none = .ok summaries <->
      exists parts : List (List DimensionSummary),
        parts.flatten = summaries ∧
        List.Forall₂ (fun entry part => inspector.listLayer entry.layer.name = .ok part)
          inspector.file.layers parts := by
  unfold list
  constructor
  · intro h
    rcases Answer.exists_of_bind_eq_ok h with ⟨parts, hParts, hReturn⟩
    cases hReturn
    exact ⟨parts, rfl, List.forall₂_map_left_iff.mp (Answer.mapM_eq_ok_iff.mp hParts)⟩
  · rintro ⟨parts, rfl, hParts⟩
    have hAll := Answer.mapM_eq_ok_iff.mpr (List.forall₂_map_left_iff.mpr hParts)
    show (List.mapM _ _ >>= _) = _
    rw [hAll]
    rfl

/--
The list of a file goes through its entries, each of which is listed as the first
entry of its name.  So the list covers the file exactly when all entries of one name
are to be listed alike, as they are when no name is repeated.
-/
theorem list_covers_file_iff (inspector : Inspector) {summaries : List DimensionSummary}
    (hList : inspector.list none = .ok summaries) :
    exists parts : List (List DimensionSummary),
      parts.flatten = summaries ∧
      List.Forall₂ (fun entry part => exists first,
        inspector.file.find? entry.layer.name = some first ∧
        first.Lists inspector.settings part) inspector.file.layers parts ∧
      (List.Forall₂ (fun entry part => entry.Lists inspector.settings part)
          inspector.file.layers parts <->
        forall entry, entry ∈ inspector.file.layers -> forall first,
          inspector.file.find? entry.layer.name = some first ->
          forall part, first.Lists inspector.settings part ->
            entry.Lists inspector.settings part) ∧
      ((inspector.file.layers.map fun entry => entry.layer.name).Nodup ->
        List.Forall₂ (fun entry part => entry.Lists inspector.settings part)
          inspector.file.layers parts) := by
  rcases list_none_eq_ok_iff.mp hList with ⟨parts, hParts, hLayers⟩
  have hFirsts := hLayers.imp fun _ _ h => listLayer_eq_ok_iff.mp h
  have hCovers : (forall entry, entry ∈ inspector.file.layers -> forall first,
      inspector.file.find? entry.layer.name = some first ->
      forall part, first.Lists inspector.settings part -> entry.Lists inspector.settings part) ->
      List.Forall₂ (fun entry part => entry.Lists inspector.settings part)
        inspector.file.layers parts := by
    intro hAlike
    apply forall₂_imp_of_mem hFirsts
    rintro entry hEntry part ⟨first, hFirst, hPart⟩
    exact hAlike entry hEntry first hFirst part hPart
  refine ⟨parts, hParts, hFirsts, ⟨?_, hCovers⟩, ?_⟩
  · intro hAll entry hEntry first hFirst part hPart
    rcases List.mem_iff_getElem.mp hEntry with ⟨i, hi, rfl⟩
    have hLength : i < parts.length := hAll.length_eq ▸ hi
    rcases hFirsts.get hi hLength with ⟨own, hOwn, hOwnPart⟩
    have hSame : own = first := Option.some.inj (hOwn.symm.trans hFirst)
    rw [unique_of_lists hPart (hSame ▸ hOwnPart)]
    exact hAll.get hi hLength
  · intro hNodup
    apply hCovers
    intro entry hEntry first hFirst part hPart
    rw [LayerFile.find?_eq_self_of_nodup hNodup hEntry] at hFirst
    cases hFirst
    exact hPart

def chart (depths times : String) : Inspector where
  file := {
    settings := none
    layers := [
      { layer := { name := depths, elevation := some {} }
        store := .flat (NameMap.empty.insert "ELEVATION_DOMAIN" "5") },
      { layer := { name := times, time := some { presentation := .continuousInterval } }
        store := .flat NameMap.empty }] }
  settings := {}

theorem chart_of_two_names_is_covered :
    exists parts : List (List DimensionSummary),
      parts.flatten = [
        ⟨"sea", "elevation", "flat_metadata", .list, some "5.0"⟩,
        ⟨"air", "time", "flat_metadata", .continuousInterval, none⟩] ∧
      List.Forall₂ (fun entry part => entry.Lists {} part)
        (chart "sea" "air").file.layers parts := by
  have hList : (chart "sea" "air").list none = .ok [
      ⟨"sea", "elevation", "flat_metadata", .list, some "5.0"⟩,
      ⟨"air", "time", "flat_metadata", .continuousInterval, none⟩] :=
    Answer.eq_ok_of_toOption (by decide +kernel)
  rcases list_covers_file_iff (chart "sea" "air") hList with ⟨parts, hParts, _, _, hCovers⟩
  exact ⟨parts, hParts, hCovers (by decide)⟩

/-- The second layer of a name is not listed, and the first one is listed twice. -/
theorem repeated_name_hides_second_layer :
    exists summaries,
      (chart "sea" "sea").list none = .ok summaries ∧
      summaries.map DimensionSummary.dimension = ["elevation", "elevation"] ∧
      forall parts : List (List DimensionSummary),
        List.Forall₂ (fun entry part => entry.Lists {} part)
          (chart "sea" "sea").file.layers parts ->
        parts.flatten.map DimensionSummary.dimension = ["elevation", "time"] := by
  refine ⟨[⟨"sea", "elevation", "flat_metadata", .list, some "5.0"⟩,
    ⟨"sea", "elevation", "flat_metadata", .list, some "5.0"⟩],
    Answer.eq_ok_of_toOption (by decide +kernel), rfl, ?_⟩
  intro parts hParts
  cases hParts with
  | cons hDepths hRest =>
      cases hRest with
      | cons hTimes hNone =>
          cases hNone
          rw [List.flatten_cons, List.flatten_singleton, List.map_append, hDepths.map_dimension,
            hTimes.map_dimension]
          rfl

end Inspector
end LayerAxes
