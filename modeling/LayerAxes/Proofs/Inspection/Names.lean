import LayerAxes.Proofs.Inspection.Listing

/-!
# Dimensions found by their names

A dimension is asked for by its name without regard to ASCII case, and the first
dimension of such a name in its layer answers.  This module says which of the listed
dimensions answer under their own names, and what the others are answered by.
-/

namespace LayerAxes

namespace Text

theorem sameIgnoringAsciiCase_iff {a b : String} :
    sameIgnoringAsciiCase a b = true <->
      a.toList.map Char.toLower = b.toList.map Char.toLower :=
  beq_iff_eq

theorem sameIgnoringAsciiCase_self (a : String) : sameIgnoringAsciiCase a a = true :=
  sameIgnoringAsciiCase_iff.mpr rfl

theorem sameIgnoringAsciiCase_congr {a b : String} (h : sameIgnoringAsciiCase a b = true)
    (other : String) : sameIgnoringAsciiCase other a = sameIgnoringAsciiCase other b := by
  unfold sameIgnoringAsciiCase
  rw [sameIgnoringAsciiCase_iff.mp h]

end Text

namespace Dimension

/-- No dimension before this one has its name, whatever the case of the letters. -/
def FirstOfName (d : Dimension) (dimensions : List Dimension) : Prop :=
  exists before after, dimensions = before ++ d :: after ∧
    forall other, other ∈ before -> Text.sameIgnoringAsciiCase other.name d.name = false

theorem find?_name_eq_some_iff {dimensions : List Dimension} {name : String} {d : Dimension} :
    dimensions.find? (fun other => Text.sameIgnoringAsciiCase other.name name) = some d <->
      Text.sameIgnoringAsciiCase d.name name = true ∧ d.FirstOfName dimensions := by
  rw [List.find?_eq_some_iff_append]
  apply and_congr_right
  intro hName
  unfold FirstOfName
  simp [Text.sameIgnoringAsciiCase_congr hName]

theorem FirstOfName.unique {d other : Dimension} {dimensions : List Dimension}
    (h : d.FirstOfName dimensions) (hOther : other.FirstOfName dimensions)
    (hName : Text.sameIgnoringAsciiCase d.name other.name = true) : d = other := by
  have hFound := find?_name_eq_some_iff.mpr ⟨hName, h⟩
  have hOtherFound := find?_name_eq_some_iff.mpr
    ⟨Text.sameIgnoringAsciiCase_self other.name, hOther⟩
  rw [hFound] at hOtherFound
  exact Option.some.inj hOtherFound

theorem exists_firstOfName {dimensions : List Dimension} {d : Dimension} (h : d ∈ dimensions) :
    exists first : Dimension, first.FirstOfName dimensions ∧
      Text.sameIgnoringAsciiCase first.name d.name = true := by
  have hFound : (dimensions.find? fun other =>
      Text.sameIgnoringAsciiCase other.name d.name).isSome = true :=
    List.find?_isSome.mpr ⟨d, h, Text.sameIgnoringAsciiCase_self d.name⟩
  rcases Option.isSome_iff_exists.mp hFound with ⟨first, hFirst⟩
  rcases find?_name_eq_some_iff.mp hFirst with ⟨hName, hFirstOfName⟩
  exact ⟨first, hFirstOfName, hName⟩

theorem FirstOfName.mem {d : Dimension} {dimensions : List Dimension}
    (h : d.FirstOfName dimensions) : d ∈ dimensions := by
  rcases h with ⟨before, after, rfl, _⟩
  exact List.mem_append_right _ List.mem_cons_self

theorem forall_firstOfName_iff {dimensions : List Dimension} (h : dimensions.Nodup) :
    (forall d, d ∈ dimensions -> d.FirstOfName dimensions) <->
      dimensions.Pairwise fun a b => Text.sameIgnoringAsciiCase a.name b.name = false := by
  constructor
  · intro hFirst
    apply List.Pairwise.imp_of_mem (R := fun a b => a ≠ b) ?_ h
    intro a b ha hb hDiffer
    apply Bool.eq_false_iff.mpr
    intro hSame
    exact hDiffer ((hFirst a ha).unique (hFirst b hb) hSame)
  · intro hPairwise d hd
    rcases List.append_of_mem hd with ⟨before, after, rfl⟩
    refine ⟨before, after, rfl, ?_⟩
    intro other hOther
    exact (List.pairwise_append.mp hPairwise).2.2 other hOther d List.mem_cons_self

end Dimension

namespace Inspector

variable {inspector : Inspector} {name : String} {dimensions : List Dimension}

theorem exists_of_dimensions_eq_ok (h : inspector.dimensions name = .ok dimensions) :
    exists (entry : LayerEntry) (store : Store), entry.layer.name = name ∧
      dimensions = (entry.layer.configured.filter fun dimension => dimension.2.enabled).map
        (Dimension.onStore inspector.settings name store) := by
  unfold Inspector.dimensions at h
  split at h
  · rename_i entry hEntry
    rcases entryDimensions_eq_ok_iff.mp h with ⟨store, _, hDimensions⟩
    have hName : entry.layer.name = name := by simpa using List.find?_some hEntry
    rw [hName] at hDimensions
    exact ⟨entry, store, hName, hDimensions⟩
  · cases h

theorem layer_of_mem_dimensions (h : inspector.dimensions name = .ok dimensions) {d : Dimension}
    (hd : d ∈ dimensions) : d.layer = name := by
  rcases exists_of_dimensions_eq_ok h with ⟨entry, store, _, rfl⟩
  rcases List.mem_map.mp hd with ⟨dimension, _, rfl⟩
  rfl

theorem nodup_dimensions (h : inspector.dimensions name = .ok dimensions) :
    dimensions.Nodup := by
  rcases exists_of_dimensions_eq_ok h with ⟨entry, store, _, rfl⟩
  rw [List.Nodup, List.pairwise_map]
  -- Names may be shared, but the axes come in a strict order.
  refine entry.layer.enables_filter.ordered.imp ?_
  intro a b hBefore hSame
  have hAxis : a.1 = b.1 := congrArg Dimension.axis hSame
  exact hBefore.asymm (hAxis ▸ hBefore)

theorem dimension_eq_ok_iff (h : inspector.dimensions name = .ok dimensions) {asked : String}
    {d : Dimension} :
    inspector.dimension name asked = .ok d <->
      Text.sameIgnoringAsciiCase d.name asked = true ∧ d.FirstOfName dimensions := by
  rw [← Dimension.find?_name_eq_some_iff]
  unfold dimension
  rw [h]
  show (pure dimensions >>= _) = _ <-> _
  rw [pure_bind]
  cases dimensions.find? fun other => Text.sameIgnoringAsciiCase other.name asked with
  | none =>
      constructor
      · intro hAnswer
        cases hAnswer
      · intro hSome
        cases hSome
  | some found =>
      constructor
      · intro hAnswer
        cases hAnswer
        rfl
      · intro hSome
        cases hSome
        rfl

/--
Asked for the dimension that a summary names, the inspector finds `d` and reports
the default value that is told of it.
-/
structure AnswersBy (inspector : Inspector) (asked : DimensionSummary) (d : Dimension)
    (told : DimensionSummary) : Prop where
  summarize_eq : summarize d = .ok told
  dimension_eq : inspector.dimension asked.layer asked.dimension = .ok d
  defaultValue_eq : inspector.defaultValue asked.layer asked.dimension none =
    .ok {
      layer := asked.layer
      dimension := told.dimension
      strategy := d.defaultSetting.strategy
      value := told.defaultValue }

theorem answersBy_of_dimension_eq_ok {asked told : DimensionSummary} {d : Dimension}
    (hTold : summarize d = .ok told)
    (h : inspector.dimension asked.layer asked.dimension = .ok d) :
    inspector.AnswersBy asked d told := by
  refine ⟨hTold, h, ?_⟩
  rcases Answer.exists_of_bind_eq_ok hTold with ⟨value, hValue, hReturn⟩
  cases hReturn
  unfold defaultValue
  rw [h]
  show (d.defaultValueWith d.defaultSetting >>= _) = _
  rw [show d.defaultValueWith d.defaultSetting = .ok value from hValue]
  rfl

theorem summarize_eq {d : Dimension} {summary : DimensionSummary}
    (h : summarize d = .ok summary) : summary.layer = d.layer ∧ summary.dimension = d.name := by
  rcases Answer.exists_of_bind_eq_ok h with ⟨value, _, hReturn⟩
  cases hReturn
  exact ⟨rfl, rfl⟩

section

variable (h : inspector.dimensions name = .ok dimensions) {part : List DimensionSummary}
  {d : Dimension} {summary : DimensionSummary}

include h

theorem dimension_summary_eq_ok_iff (hd : d ∈ dimensions) (hSummary : summarize d = .ok summary)
    (found : Dimension) :
    inspector.dimension summary.layer summary.dimension = .ok found <->
      Text.sameIgnoringAsciiCase found.name d.name = true ∧ found.FirstOfName dimensions := by
  rw [(summarize_eq hSummary).1, (summarize_eq hSummary).2, layer_of_mem_dimensions h hd]
  exact dimension_eq_ok_iff h

theorem answersBy_self_iff (hd : d ∈ dimensions) (hSummary : summarize d = .ok summary) :
    inspector.AnswersBy summary d summary <-> d.FirstOfName dimensions := by
  have hFound := dimension_summary_eq_ok_iff h hd hSummary d
  constructor
  · intro hAnswers
    exact (hFound.mp hAnswers.dimension_eq).2
  · intro hFirst
    exact answersBy_of_dimension_eq_ok hSummary
      (hFound.mpr ⟨Text.sameIgnoringAsciiCase_self d.name, hFirst⟩)

theorem exists_answersBy (hPart : dimensions.mapM summarize = .ok part) (hd : d ∈ dimensions)
    (hSummary : summarize d = .ok summary) :
    exists first told, told ∈ part ∧ first.FirstOfName dimensions ∧
      Text.sameIgnoringAsciiCase told.dimension summary.dimension = true ∧
      inspector.AnswersBy summary first told := by
  rcases Dimension.exists_firstOfName hd with ⟨first, hFirst, hName⟩
  rcases Answer.exists_of_mem_of_mapM_eq_ok hPart hFirst.mem with ⟨told, hTold, hFirstSummary⟩
  refine ⟨first, told, hTold, hFirst, ?_, answersBy_of_dimension_eq_ok hFirstSummary
    ((dimension_summary_eq_ok_iff h hd hSummary first).mpr ⟨hName, hFirst⟩)⟩
  rw [(summarize_eq hFirstSummary).2, (summarize_eq hSummary).2]
  exact hName

theorem forall₂_answersBy_self_iff (hPart : dimensions.mapM summarize = .ok part) :
    List.Forall₂ (fun d summary => inspector.AnswersBy summary d summary) dimensions part <->
      dimensions.Pairwise fun a b => Text.sameIgnoringAsciiCase a.name b.name = false := by
  have hAll := Answer.mapM_eq_ok_iff.mp hPart
  rw [← Dimension.forall_firstOfName_iff (nodup_dimensions h)]
  constructor
  · intro hAnswers
    have hFirst : List.Forall₂ (fun d summary => d.FirstOfName dimensions ∧
        summarize d = .ok summary) dimensions part := by
      apply forall₂_imp_of_mem hAnswers
      intro d hd summary hAnswer
      exact ⟨(answersBy_self_iff h hd hAnswer.summarize_eq).mp hAnswer, hAnswer.summarize_eq⟩
    exact ((List.forall₂_and_left _ _).mp hFirst).1
  · intro hFirst
    apply forall₂_imp_of_mem hAll
    intro d hd summary hSummary
    exact (answersBy_self_iff h hd hSummary).mpr (hFirst d hd)

end

/--
Each summary of a list is of a dimension of its layer, in their order, and asking for it
by its layer and its name is answered by the first dimension of that name.  This is the
dimension that was listed, with its own default value, exactly when no dimension before
it has the name, whatever the case of the letters; so all dimensions of a layer answer
for themselves exactly when no two of them share a name in that sense.
-/
theorem listed_dimensions_answer_iff (inspector : Inspector)
    {summaries : List DimensionSummary} (hList : inspector.list none = .ok summaries) :
    exists parts : List (List DimensionSummary),
      parts.flatten = summaries ∧
      List.Forall₂ (fun entry part => exists dimensions,
        inspector.dimensions entry.layer.name = .ok dimensions ∧
        List.Forall₂ (fun d summary =>
          summarize d = .ok summary ∧
          (inspector.AnswersBy summary d summary <-> d.FirstOfName dimensions) ∧
          exists first told, told ∈ part ∧ first.FirstOfName dimensions ∧
            Text.sameIgnoringAsciiCase told.dimension summary.dimension = true ∧
            inspector.AnswersBy summary first told) dimensions part ∧
        (List.Forall₂ (fun d summary => inspector.AnswersBy summary d summary) dimensions part <->
          dimensions.Pairwise fun a b => Text.sameIgnoringAsciiCase a.name b.name = false))
        inspector.file.layers parts := by
  rcases list_none_eq_ok_iff.mp hList with ⟨parts, hParts, hLayers⟩
  refine ⟨parts, hParts, hLayers.imp ?_⟩
  intro entry part hLayer
  rcases Answer.exists_of_bind_eq_ok hLayer with ⟨dimensions, hDimensions, hPart⟩
  refine ⟨dimensions, hDimensions, ?_, forall₂_answersBy_self_iff hDimensions hPart⟩
  have hAll := Answer.mapM_eq_ok_iff.mp hPart
  apply forall₂_imp_of_mem hAll
  intro d hd summary hSummary
  exact ⟨hSummary, answersBy_self_iff hDimensions hd hSummary,
    exists_answersBy hDimensions hPart hd hSummary⟩

def scene (first second : String) : Inspector where
  file := {
    settings := none
    layers := [{
      layer := {
        name := "scene"
        custom :=
          (NameMap.empty.insert first { defaultValue := some ⟨.fixed, some "day"⟩ }).insert
            second { defaultValue := some ⟨.fixed, some "night"⟩ } }
      store := .flat NameMap.empty }] }
  settings := {}

theorem scene_of_two_names_answers :
    exists dimensions,
      (scene "light" "style").dimensions "scene" = .ok dimensions ∧
      List.Forall₂ (fun d summary => (scene "light" "style").AnswersBy summary d summary)
        dimensions [
          ⟨"scene", "light", "flat_metadata", .list, some "day"⟩,
          ⟨"scene", "style", "flat_metadata", .list, some "night"⟩] := by
  have hList : (scene "light" "style").list none = .ok [
      ⟨"scene", "light", "flat_metadata", .list, some "day"⟩,
      ⟨"scene", "style", "flat_metadata", .list, some "night"⟩] :=
    Answer.eq_ok_of_toOption (by decide +kernel)
  rcases listed_dimensions_answer_iff (scene "light" "style") hList with
    ⟨parts, hParts, hLayers⟩
  cases hLayers with
  | cons hLayer hNone =>
      cases hNone
      rw [List.flatten_singleton] at hParts
      rcases hLayer with ⟨dimensions, hDimensions, _, hAnswers⟩
      rw [hParts] at hAnswers
      refine ⟨dimensions, hDimensions, hAnswers.mpr ?_⟩
      have hNames : (scene "light" "style").dimensions "scene" = .ok _ := rfl
      rw [hNames] at hDimensions
      cases hDimensions
      decide

/-- The second dimension is listed with its own default value, and answers with the first. -/
theorem second_style_answers_as_first :
    exists summaries,
      (scene "Style" "style").list none = .ok summaries ∧
      ⟨"scene", "style", "flat_metadata", .list, some "night"⟩ ∈ summaries ∧
      (scene "Style" "style").defaultValue "scene" "style" none =
        .ok ⟨"scene", "Style", .fixed, some "day"⟩ :=
  ⟨[⟨"scene", "Style", "flat_metadata", .list, some "day"⟩,
      ⟨"scene", "style", "flat_metadata", .list, some "night"⟩],
    Answer.eq_ok_of_toOption (by decide +kernel), by simp,
    Answer.eq_ok_of_toOption (by decide +kernel)⟩

end Inspector
end LayerAxes
