import LayerAxes.Proofs.Feature.Renaming

/-!
# Renaming and conjunction

The conjunction of two filters rearranges them: a filter that accepts everything is
left out, and a list of filters takes up what comes after it.  Renaming changes
neither of these shapes.  So it makes no difference whether filters are renamed
before or after they are put together, down to the property in the error.
-/

namespace LayerAxes
namespace Filter

/-!
# Forms of a conjunction
-/

def isList : Filter -> Bool
  | all _ => true
  | _ => false

theorem eq_everything_of_isEverything {f : Filter} (h : f.isEverything = true) :
    f = everything := by
  cases f <;> first | rfl | cases h

theorem exists_eq_all_of_isList {f : Filter} (h : f.isList = true) : exists fs, f = all fs := by
  cases f <;> first | exact ⟨_, rfl⟩ | cases h

theorem and_everything (f : Filter) : f.and everything = f := by
  cases f <;> rfl

theorem all_and {g : Filter} (fs : List Filter) (hKept : g.isEverything = false)
    (hNoList : g.isList = false) : (all fs).and g = all (fs ++ [g]) := by
  cases g
  case everything => cases hKept
  case all => cases hNoList
  all_goals rfl

theorem and_eq_pair {f g : Filter} (hf : f.isEverything = false) (hg : g.isEverything = false)
    (hNoList : f.isList = false) : f.and g = all [f, g] := by
  cases f
  case everything => cases hf
  case all => cases hNoList
  all_goals
    cases g
    case everything => cases hg
    all_goals rfl

theorem forms_of_pair (f g : Filter) :
    f = everything ∨ g = everything ∨ (exists fs gs, f = all fs ∧ g = all gs) ∨
      (exists fs, f = all fs ∧ g.isEverything = false ∧ g.isList = false) ∨
      (f.isEverything = false ∧ g.isEverything = false ∧ f.isList = false) := by
  cases hf : f.isEverything with
  | true => exact Or.inl (eq_everything_of_isEverything hf)
  | false =>
      cases hg : g.isEverything with
      | true => exact Or.inr (Or.inl (eq_everything_of_isEverything hg))
      | false =>
          cases hFirst : f.isList with
          | false => exact Or.inr (Or.inr (Or.inr (Or.inr ⟨rfl, rfl, rfl⟩)))
          | true =>
              rcases exists_eq_all_of_isList hFirst with ⟨fs, hAll⟩
              cases hSecond : g.isList with
              | false => exact Or.inr (Or.inr (Or.inr (Or.inl ⟨fs, hAll, rfl, rfl⟩)))
              | true =>
                  rcases exists_eq_all_of_isList hSecond with ⟨gs, hMore⟩
                  exact Or.inr (Or.inr (Or.inl ⟨fs, gs, hAll, hMore⟩))

/-!
# Evaluation
-/

section

variable (row : Feature)

theorem evaluateAll_append (fs gs : List Filter) :
    evaluateAll row (fs ++ gs) = (evaluateAll row fs && evaluateAll row gs) := by
  induction fs with
  | nil => rfl
  | cons f fs ih =>
      rw [List.cons_append, evaluateAll, evaluateAll, ih, Bool.and_assoc]

theorem evaluateAll_singleton (f : Filter) : evaluateAll row [f] = evaluate row f := by
  rw [evaluateAll, evaluateAll, Bool.and_true]

theorem evaluate_and (f g : Filter) :
    evaluate row (f.and g) = (evaluate row f && evaluate row g) := by
  rcases forms_of_pair f g with rfl | rfl | ⟨fs, gs, rfl, rfl⟩ | ⟨fs, rfl, hKept, hNoList⟩ |
    ⟨hf, hg, hNoList⟩
  · exact (Bool.true_and _).symm
  · rw [and_everything]
    exact (Bool.and_true _).symm
  · exact evaluateAll_append row fs gs
  · rw [all_and fs hKept hNoList, evaluate, evaluate, evaluateAll_append, evaluateAll_singleton]
  · rw [and_eq_pair hf hg hNoList, evaluate, evaluateAll, evaluateAll_singleton]

theorem evaluate_foldl_and (f : Filter) (fs : List Filter) :
    evaluate row (fs.foldl and f) = (evaluate row f && fs.all (evaluate row)) := by
  induction fs generalizing f with
  | nil => exact (Bool.and_true _).symm
  | cons g fs ih =>
      rw [List.foldl_cons, ih, evaluate_and, Bool.and_assoc, List.all_cons]

end

/-!
# Renaming
-/

section

variable (column? : String -> Option String)

theorem renameList_append (fs gs : List Filter) :
    renameList column? (fs ++ gs) = (do
      let first <- renameList column? fs
      let second <- renameList column? gs
      return first ++ second) := by
  induction fs with
  | nil =>
      rw [List.nil_append, renameList]
      cases renameList column? gs <;> rfl
  | cons f fs ih =>
      rw [List.cons_append, renameList, renameList, ih]
      cases rename column? f with
      | error e => rfl
      | ok first =>
          cases renameList column? fs with
          | error e => rfl
          | ok rest => cases renameList column? gs <;> rfl

variable {column?} in
/-- Renaming neither makes nor removes a filter that accepts everything, or a list. -/
theorem form_of_rename_eq_ok {f g : Filter} (h : rename column? f = .ok g) :
    g.isEverything = f.isEverything ∧ g.isList = f.isList := by
  cases f with
  | everything | nothing | ids listed =>
      cases h
      exact ⟨rfl, rfl⟩
  | _ =>
      rcases Answer.exists_of_bind_eq_ok h with ⟨_, _, hReturn⟩
      cases hReturn
      exact ⟨rfl, rfl⟩

theorem rename_and (f g : Filter) :
    rename column? (f.and g) = (do
      let first <- rename column? f
      let second <- rename column? g
      return first.and second) := by
  rcases forms_of_pair f g with rfl | rfl | ⟨fs, gs, rfl, rfl⟩ | ⟨fs, rfl, hKept, hNoList⟩ |
    ⟨hf, hg, hNoList⟩
  · show rename column? g = rename column? g >>= fun second => pure (everything.and second)
    cases rename column? g <;> rfl
  · rw [and_everything]
    cases rename column? f with
    | error e => rfl
    | ok first => exact congrArg Except.ok (and_everything first).symm
  · show rename column? (all (fs ++ gs)) = _
    rw [rename, rename, rename, renameList_append]
    cases renameList column? fs with
    | error e => rfl
    | ok first => cases renameList column? gs <;> rfl
  · rw [all_and fs hKept hNoList, rename, rename, renameList_append, renameList, renameList]
    cases renameList column? fs with
    | error e => rfl
    | ok first =>
        cases hSecond : rename column? g with
        | error e => rfl
        | ok second =>
            rcases form_of_rename_eq_ok hSecond with ⟨hSameKept, hSameList⟩
            exact congrArg Except.ok
              (all_and first (hSameKept.trans hKept) (hSameList.trans hNoList)).symm
  · rw [and_eq_pair hf hg hNoList, rename, renameList, renameList, renameList]
    cases hFirst : rename column? f with
    | error e => rfl
    | ok first =>
        cases hSecond : rename column? g with
        | error e => rfl
        | ok second =>
            rcases form_of_rename_eq_ok hFirst with ⟨hFirstKept, hFirstList⟩
            rcases form_of_rename_eq_ok hSecond with ⟨hSecondKept, _⟩
            exact congrArg Except.ok (and_eq_pair (hFirstKept.trans hf) (hSecondKept.trans hg)
              (hFirstList.trans hNoList)).symm

end

/--
Renaming fails at the first property without a new name.  A renamed filter accepts a
row when the filter accepts a view that shows, under each of its properties, what
the row holds under the new name.  Conjunctions are renamed by their parts, and they
accept the rows that all of their parts accept.
-/
theorem renaming_keeps_meaning (column? : String -> Option String) (f : Filter) :
    ((exists g, rename column? f = .ok g) <->
      forall name, name ∈ f.properties -> (column? name).isSome) ∧
    (forall property, rename column? f = .error property <->
      firstUnknown? column? f.properties = some property) ∧
    (forall g, rename column? f = .ok g -> forall view row : Feature,
      view.Shows row column? f.properties -> evaluate row g = evaluate view f) ∧
    (forall other, rename column? (f.and other) = (do
      let first <- rename column? f
      let second <- rename column? other
      return first.and second)) ∧
    forall (filters : List Filter) (row : Feature),
      evaluate row (conjunction filters) = filters.all (evaluate row) := by
  have hFails : FailsAtUnknown column? f.properties (rename column? f) := failsAtUnknown_rename f
  refine ⟨hFails.eq_ok_iff, fun property => hFails.eq_error_iff, ?_, rename_and column? f, ?_⟩
  · intro g hRename view row hView
    exact evaluate_of_rename_eq_ok f hRename hView
  · intro filters row
    exact evaluate_foldl_and row everything filters

end Filter
end LayerAxes
