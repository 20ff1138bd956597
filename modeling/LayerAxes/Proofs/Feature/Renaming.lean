import LayerAxes.Error
import LayerAxes.Feature.Filter

/-!
# Renamed filters

A filter on published properties is answered as a filter on columns.  The two
accept the same products when the products, seen under the published names, show
what their columns hold.  A null counts as a missing value on either side.
-/

namespace LayerAxes

namespace Feature

theorem get?_bind_text? (row : Feature) (name : String) :
    (row.get? name).bind Attribute.text? = (row.present? name).bind Attribute.text? := by
  unfold present?
  cases row.get? name with
  | none => rfl
  | some a => cases a <;> rfl

theorem get?_bind_envelope? (row : Feature) (name : String) :
    (row.get? name).bind Attribute.envelope? = (row.present? name).bind Attribute.envelope? := by
  unfold present?
  cases row.get? name with
  | none => rfl
  | some a => cases a <;> rfl

/-- A row shows under some names what another row of the same identifier holds in columns. -/
structure Shows (view row : Feature) (column? : String -> Option String)
    (names : List String) : Prop where
  id_eq : view.id = row.id
  present?_eq : forall name, name ∈ names -> forall column, column? name = some column ->
    view.present? name = row.present? column

theorem Shows.mono {view row : Feature} {column? : String -> Option String}
    {names fewer : List String} (h : view.Shows row column? names) (hFewer : fewer ⊆ names) :
    view.Shows row column? fewer where
  id_eq := h.id_eq
  present?_eq name hName := h.present?_eq name (hFewer hName)

end Feature

namespace Filter

/-!
# The properties of a filter
-/

mutual

def properties : Filter -> List String
  | everything => []
  | nothing => []
  | compare property _ _ => [property]
  | between property _ _ => [property]
  | like property _ => [property]
  | isNull property => [property]
  | touches property _ => [property]
  | ids _ => []
  | all filters => propertiesOfList filters
  | any filters => propertiesOfList filters
  | not filter => properties filter

def propertiesOfList : List Filter -> List String
  | [] => []
  | f :: fs => properties f ++ propertiesOfList fs

end

/-!
# Properties without a new name

Renaming goes through the properties of a filter from left to right and fails at
the first one that has no new name.
-/

def firstUnknown? (column? : String -> Option String) (names : List String) : Option String :=
  names.find? fun name => (column? name).isNone

/-- The answer fails at the first of some properties without a new name, or not at all. -/
def FailsAtUnknown {α : Type} (column? : String -> Option String) (names : List String)
    (answer : Except String α) : Prop :=
  match firstUnknown? column? names with
  | some property => answer = .error property
  | none => exists a, answer = .ok a

section

variable {column? : String -> Option String}

theorem firstUnknown?_eq_none_iff {names : List String} :
    firstUnknown? column? names = none <->
      forall name, name ∈ names -> (column? name).isSome := by
  unfold firstUnknown?
  rw [List.find?_eq_none]
  simp only [Option.isNone_iff_eq_none, Option.isSome_iff_ne_none, ne_eq]

theorem firstUnknown?_append (column? : String -> Option String) (names more : List String) :
    firstUnknown? column? (names ++ more) =
      (firstUnknown? column? names).or (firstUnknown? column? more) :=
  List.find?_append

namespace FailsAtUnknown

variable {α β : Type} {names more : List String} {answer : Except String α}

theorem ok (a : α) : FailsAtUnknown column? [] (.ok a) :=
  ⟨a, rfl⟩

theorem renameProperty (property : String) :
    FailsAtUnknown column? [property] (renameProperty column? property) := by
  unfold FailsAtUnknown firstUnknown? Filter.renameProperty
  rw [List.find?_singleton]
  cases column? property with
  | none => rfl
  | some column => exact ⟨column, rfl⟩

theorem bind {next : α -> Except String β} (h : FailsAtUnknown column? names answer)
    (hNext : forall a, FailsAtUnknown column? more (next a)) :
    FailsAtUnknown column? (names ++ more) (answer >>= next) := by
  unfold FailsAtUnknown at h ⊢
  rw [firstUnknown?_append]
  cases hFirst : firstUnknown? column? names with
  | some property =>
      rw [hFirst] at h
      rw [h]
      rfl
  | none =>
      rw [hFirst] at h
      rcases h with ⟨a, rfl⟩
      exact hNext a

theorem map (build : α -> β) (h : FailsAtUnknown column? names answer) :
    FailsAtUnknown column? names (do return build (<- answer)) := by
  have hBind := h.bind fun a => ok (build a)
  rw [List.append_nil] at hBind
  exact hBind

theorem eq_error_iff (h : FailsAtUnknown column? names answer) {property : String} :
    answer = .error property <-> firstUnknown? column? names = some property := by
  unfold FailsAtUnknown at h
  cases hFirst : firstUnknown? column? names with
  | some own =>
      rw [hFirst] at h
      rw [h, Except.error.injEq, Option.some.injEq]
  | none =>
      rw [hFirst] at h
      rcases h with ⟨a, rfl⟩
      simp only [reduceCtorEq]

theorem eq_ok_iff (h : FailsAtUnknown column? names answer) :
    (exists a, answer = .ok a) <-> forall name, name ∈ names -> (column? name).isSome := by
  rw [← firstUnknown?_eq_none_iff]
  unfold FailsAtUnknown at h
  cases hFirst : firstUnknown? column? names with
  | some own =>
      rw [hFirst] at h
      rw [h]
      simp only [reduceCtorEq, exists_false]
  | none =>
      rw [hFirst] at h
      simp only [h]

end FailsAtUnknown

mutual

theorem failsAtUnknown_rename (f : Filter) :
    FailsAtUnknown column? f.properties (rename column? f) := by
  cases f with
  | everything | nothing | ids listed => exact .ok _
  | compare property operator operand =>
      exact (FailsAtUnknown.renameProperty property).map (compare · operator operand)
  | between property lower upper =>
      exact (FailsAtUnknown.renameProperty property).map (between · lower upper)
  | like property pattern => exact (FailsAtUnknown.renameProperty property).map (like · pattern)
  | isNull property => exact (FailsAtUnknown.renameProperty property).map isNull
  | touches property envelope =>
      exact (FailsAtUnknown.renameProperty property).map (touches · envelope)
  | all filters => exact (failsAtUnknown_renameList filters).map all
  | any filters => exact (failsAtUnknown_renameList filters).map any
  | not filter => exact (failsAtUnknown_rename filter).map not

theorem failsAtUnknown_renameList (fs : List Filter) :
    FailsAtUnknown column? (propertiesOfList fs) (renameList column? fs) := by
  cases fs with
  | nil => exact .ok _
  | cons f fs =>
      exact (failsAtUnknown_rename f).bind fun g => (failsAtUnknown_renameList fs).map (g :: ·)

end

/-!
# Renaming

Five sorts of filter read one property each.  They are renamed in the same way,
by a filter `build` that waits for the new name.
-/

theorem column?_eq_some_of_renameProperty_eq_ok {property : String} (build : String -> Filter)
    {g : Filter} (h : (do return build (<- renameProperty column? property)) = Except.ok g) :
    exists column, column? property = some column ∧ g = build column := by
  rcases Answer.exists_of_bind_eq_ok h with ⟨column, hColumn, hReturn⟩
  cases hReturn
  refine ⟨column, ?_, rfl⟩
  unfold renameProperty at hColumn
  split at hColumn
  · rename_i hSome
    cases hColumn
    exact hSome
  · cases hColumn

variable {view row : Feature}

theorem present?_eq_of_renameProperty_eq_ok {property : String} (build : String -> Filter)
    {g : Filter} (hView : view.Shows row column? [property])
    (h : (do return build (<- renameProperty column? property)) = Except.ok g) :
    exists column, g = build column ∧ view.present? property = row.present? column := by
  rcases column?_eq_some_of_renameProperty_eq_ok build h with ⟨column, hColumn, hBuild⟩
  exact ⟨column, hBuild, hView.present?_eq property List.mem_cons_self column hColumn⟩

mutual

theorem evaluate_of_rename_eq_ok (f : Filter) {g : Filter} (h : rename column? f = .ok g)
    (hView : view.Shows row column? f.properties) : evaluate row g = evaluate view f := by
  cases f with
  | everything => cases h; rfl
  | nothing => cases h; rfl
  | compare property operator operand =>
      rcases present?_eq_of_renameProperty_eq_ok (compare · operator operand) hView h
        with ⟨column, rfl, hPresent⟩
      rw [evaluate, evaluate, hPresent]
  | between property lower upper =>
      rcases present?_eq_of_renameProperty_eq_ok (between · lower upper) hView h
        with ⟨column, rfl, hPresent⟩
      rw [evaluate, evaluate, hPresent]
  | like property pattern =>
      rcases present?_eq_of_renameProperty_eq_ok (like · pattern) hView h
        with ⟨column, rfl, hPresent⟩
      rw [evaluate, evaluate, Feature.get?_bind_text?, Feature.get?_bind_text?, hPresent]
  | isNull property =>
      rcases present?_eq_of_renameProperty_eq_ok isNull hView h
        with ⟨column, rfl, hPresent⟩
      rw [evaluate, evaluate, hPresent]
  | touches property envelope =>
      rcases present?_eq_of_renameProperty_eq_ok (touches · envelope) hView h
        with ⟨column, rfl, hPresent⟩
      rw [evaluate, evaluate, Feature.get?_bind_envelope?, Feature.get?_bind_envelope?, hPresent]
  | ids listed =>
      cases h
      rw [evaluate, evaluate, hView.id_eq]
  | all filters =>
      rcases Answer.exists_of_bind_eq_ok h with ⟨gs, hFilters, hReturn⟩
      cases hReturn
      rw [evaluate, evaluate, (evaluate_of_renameList_eq_ok filters hFilters hView).1]
  | any filters =>
      rcases Answer.exists_of_bind_eq_ok h with ⟨gs, hFilters, hReturn⟩
      cases hReturn
      rw [evaluate, evaluate, (evaluate_of_renameList_eq_ok filters hFilters hView).2]
  | not filter =>
      rcases Answer.exists_of_bind_eq_ok h with ⟨inner, hFilter, hReturn⟩
      cases hReturn
      rw [evaluate, evaluate, evaluate_of_rename_eq_ok filter hFilter hView]

theorem evaluate_of_renameList_eq_ok (fs : List Filter) {gs : List Filter}
    (h : renameList column? fs = .ok gs)
    (hView : view.Shows row column? (propertiesOfList fs)) :
    evaluateAll row gs = evaluateAll view fs ∧ evaluateAny row gs = evaluateAny view fs := by
  cases fs with
  | nil =>
      cases h
      exact ⟨rfl, rfl⟩
  | cons f fs =>
      rcases Answer.exists_of_bind_eq_ok h with ⟨g, hFirst, hMore⟩
      rcases Answer.exists_of_bind_eq_ok hMore with ⟨rest, hRest, hReturn⟩
      cases hReturn
      have hHead := evaluate_of_rename_eq_ok f hFirst
        (hView.mono (List.subset_append_left _ _))
      have hTail := evaluate_of_renameList_eq_ok fs hRest
        (hView.mono (List.subset_append_right _ _))
      rw [evaluateAll, evaluateAll, evaluateAny, evaluateAny, hHead, hTail.1, hTail.2]
      exact ⟨rfl, rfl⟩

end

end

end Filter
end LayerAxes
