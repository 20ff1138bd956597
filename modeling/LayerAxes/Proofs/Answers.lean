import LayerAxes.Error
import Mathlib.Data.List.Forall2

/-!
# Lists of answers

A list is answered when each of its items is, and then the items of any part of
it are answered too.
-/

namespace LayerAxes

theorem forall₂_imp_of_mem {α β : Type} {R S : α -> β -> Prop} {items : List α}
    {results : List β} (hAll : List.Forall₂ R items results)
    (h : forall a, a ∈ items -> forall b, R a b -> S a b) : List.Forall₂ S items results := by
  refine ((List.forall₂_and_left _ _).mpr ⟨fun a ha => ha, hAll⟩).imp ?_
  rintro a b ⟨ha, hab⟩
  exact h a ha b hab

namespace Answer

variable {ε α β : Type} {f : α -> Except ε β}

theorem eq_ok_of_toOption {answer : Except ε α} {a : α}
    (h : answer.toOption = some a) : answer = .ok a := by
  cases answer with
  | error e => cases h
  | ok b =>
      cases h
      rfl

theorem mapM_eq_ok_iff {items : List α} {results : List β} :
    items.mapM f = .ok results <-> List.Forall₂ (fun a b => f a = .ok b) items results := by
  induction items generalizing results with
  | nil =>
      rw [List.mapM_nil, List.forall₂_nil_left_iff]
      constructor
      · intro h
        cases h
        rfl
      · rintro rfl
        rfl
  | cons a items ih =>
      rw [List.mapM_cons]
      constructor
      · intro h
        rcases exists_of_bind_eq_ok h with ⟨b, hb, hMore⟩
        rcases exists_of_bind_eq_ok hMore with ⟨rest, hRest, hReturn⟩
        cases hReturn
        exact List.Forall₂.cons hb (ih.mp hRest)
      · intro h
        cases h with
        | cons hb hRest =>
            rw [hb, ih.mpr hRest]
            rfl

theorem length_of_mapM_eq_ok {items : List α} {results : List β}
    (h : items.mapM f = .ok results) : results.length = items.length :=
  (mapM_eq_ok_iff.mp h).length_eq.symm

theorem mapM_eq_ok_map {items : List α} {g : α -> β}
    (h : forall a, a ∈ items -> f a = .ok (g a)) : items.mapM f = .ok (items.map g) := by
  apply mapM_eq_ok_iff.mpr
  rw [List.forall₂_map_right_iff, List.forall₂_same]
  exact h

theorem exists_of_mem_of_mapM_eq_ok {items : List α} {results : List β}
    (h : items.mapM f = .ok results) {a : α} (ha : a ∈ items) :
    exists b, b ∈ results ∧ f a = .ok b := by
  have hAll := mapM_eq_ok_iff.mp h
  induction hAll with
  | nil => cases ha
  | @cons first result items results hFirst hRest ih =>
      rcases List.mem_cons.mp ha with rfl | hLater
      · exact ⟨result, List.mem_cons_self, hFirst⟩
      · rcases ih (mapM_eq_ok_iff.mpr hRest) hLater with ⟨b, hb, hAnswer⟩
        exact ⟨b, List.mem_cons_of_mem _ hb, hAnswer⟩

theorem exists_of_mem_results {items : List α} {results : List β}
    (h : items.mapM f = .ok results) {b : β} (hb : b ∈ results) :
    exists a, a ∈ items ∧ f a = .ok b := by
  have hAll := mapM_eq_ok_iff.mp h
  rcases List.mem_iff_getElem.mp hb with ⟨i, hi, rfl⟩
  have hItem : i < items.length := by
    rw [← length_of_mapM_eq_ok h]
    exact hi
  exact ⟨items[i], List.getElem_mem hItem, hAll.get hItem hi⟩

theorem exists_of_mapM_eq_error {items : List α} {e : ε}
    (h : items.mapM f = .error e) : exists a, a ∈ items ∧ f a = .error e := by
  induction items with
  | nil => cases h
  | cons a items ih =>
      rw [List.mapM_cons] at h
      cases hFirst : f a with
      | error own =>
          rw [hFirst] at h
          cases h
          exact ⟨a, List.mem_cons_self, hFirst⟩
      | ok b =>
          rw [hFirst] at h
          cases hRest : items.mapM f with
          | error own =>
              rw [hRest] at h
              cases h
              rcases ih hRest with ⟨other, hOther, hError⟩
              exact ⟨other, List.mem_cons_of_mem _ hOther, hError⟩
          | ok rest =>
              rw [hRest] at h
              cases h

theorem exists_mapM_eq_ok {items : List α}
    (h : forall a, a ∈ items -> exists b, f a = .ok b) :
    exists results, items.mapM f = .ok results := by
  cases hItems : items.mapM f with
  | ok results => exact ⟨results, rfl⟩
  | error e =>
      rcases exists_of_mapM_eq_error hItems with ⟨a, ha, hError⟩
      rcases h a ha with ⟨b, hb⟩
      rw [hError] at hb
      cases hb

theorem exists_mapM_eq_ok_of_sublist {part items : List α} {results : List β}
    (hPart : part.Sublist items) (h : items.mapM f = .ok results) :
    exists picked, part.mapM f = .ok picked ∧ picked.Sublist results := by
  induction hPart generalizing results with
  | slnil => exact ⟨results, h, List.Sublist.refl _⟩
  | cons a hPart ih =>
      cases mapM_eq_ok_iff.mp h with
      | cons _ hRest =>
          rcases ih (mapM_eq_ok_iff.mpr hRest) with ⟨picked, hPicked, hSublist⟩
          exact ⟨picked, hPicked, hSublist.cons _⟩
  | cons_cons a hPart ih =>
      cases mapM_eq_ok_iff.mp h with
      | cons hFirst hRest =>
          rcases ih (mapM_eq_ok_iff.mpr hRest) with ⟨picked, hPicked, hSublist⟩
          exact ⟨_ :: picked, mapM_eq_ok_iff.mpr (.cons hFirst (mapM_eq_ok_iff.mp hPicked)),
            hSublist.cons_cons _⟩

theorem mapM_eq_map_mapM {γ δ : Type} {g : γ -> Except ε δ} {turn : δ -> β} {items : List α}
    {others : List γ} (h : List.Forall₂ (fun c a => f a = (g c).map turn) others items) :
    items.mapM f = (others.mapM g).map (List.map turn) := by
  induction h with
  | nil => rfl
  | @cons c a others items hFirst hRest ih =>
      rw [List.mapM_cons, List.mapM_cons, hFirst, ih]
      cases g c with
      | error e => rfl
      | ok d => cases others.mapM g <;> rfl

/-!
# Reasons to fail
-/

def FailsOnlyWith (allowed : ε -> Prop) (answer : Except ε α) : Prop :=
  forall e, answer = .error e -> allowed e

theorem FailsOnlyWith.bind {allowed : ε -> Prop} {answer : Except ε α}
    {next : α -> Except ε β} (h : FailsOnlyWith allowed answer)
    (hNext : forall a, answer = .ok a -> FailsOnlyWith allowed (next a)) :
    FailsOnlyWith allowed (answer >>= next) := by
  intro e he
  cases hAnswer : answer with
  | error own =>
      rw [hAnswer] at he
      cases he
      exact h _ hAnswer
  | ok a =>
      rw [hAnswer] at he
      exact hNext a hAnswer e he

/-!
# Answers within runs
-/

theorem attempt_eq_ok_iff {answer : Answer α} {a : α} :
    answer.attempt = .ok a <-> answer = .ok a := by
  cases answer <;> simp [attempt]

end Answer
end LayerAxes
