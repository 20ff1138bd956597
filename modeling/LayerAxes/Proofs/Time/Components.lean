import LayerAxes.Time.Duration
import Mathlib.Data.List.Basic

/-!
# Components of a duration

A text is cut into components in one way only, and the components spell the text.
So a text that is spelled by items is spelled by no others.
-/

namespace LayerAxes
namespace Duration

def Letterless (cs : List Char) : Prop :=
  forall c, c ∈ cs -> isUnit c = false

instance (cs : List Char) : Decidable (Letterless cs) :=
  List.decidableBAll _ cs

/-- An amount that is not empty and has no letters, and the letter of its unit. -/
structure IsComponent (component : List Char × Char) : Prop where
  amount_ne_nil : component.1 ≠ []
  amount_letterless : Letterless component.1
  unit_letter : isUnit component.2 = true

def spell (component : List Char × Char) : List Char :=
  component.1 ++ [component.2]

theorem components?_cons (amount : List Char) (c : Char) (cs : List Char) :
    components? amount (c :: cs) =
      if isUnit c then
        if amount.isEmpty then none
        else (components? [] cs).map fun rest => (amount.reverse, c) :: rest
      else components? (c :: amount) cs := by
  cases amount with
  | nil => rfl
  | cons d amount => rfl

theorem components?_letterless {front : List Char} (h : Letterless front)
    (amount cs : List Char) :
    components? amount (front ++ cs) = components? (front.reverse ++ amount) cs := by
  induction front generalizing amount with
  | nil => rfl
  | cons c front ih =>
      have hFirst : isUnit c = false := h c List.mem_cons_self
      have hRest : Letterless front := fun d hd => h d (List.mem_cons_of_mem _ hd)
      rw [List.cons_append, components?_cons, hFirst, if_neg Bool.false_ne_true, ih hRest,
        List.reverse_cons, List.append_assoc]
      rfl

theorem components?_flatMap_spell {parts : List (List Char × Char)}
    (h : forall c, c ∈ parts -> IsComponent c) :
    components? [] (parts.flatMap spell) = some parts := by
  induction parts with
  | nil => rfl
  | cons c parts ih =>
      have hOwn := h c List.mem_cons_self
      have hRest := ih fun d hd => h d (List.mem_cons_of_mem _ hd)
      have hSome : (c.1.reverse ++ []).isEmpty = false := by
        simpa using hOwn.amount_ne_nil
      rw [List.flatMap_cons, spell, List.append_assoc,
        components?_letterless hOwn.amount_letterless, List.singleton_append, components?_cons,
        hOwn.unit_letter, if_pos rfl, hSome, if_neg Bool.false_ne_true, hRest, List.append_nil,
        List.reverse_reverse]
      rfl

theorem spells_of_components?_eq_some {amount cs : List Char} {parts : List (List Char × Char)}
    (hAmount : Letterless amount) (h : components? amount cs = some parts) :
    parts.flatMap spell = amount.reverse ++ cs ∧ forall c, c ∈ parts -> IsComponent c := by
  induction cs generalizing amount parts with
  | nil =>
      cases amount with
      | nil =>
          cases h
          exact ⟨rfl, fun c hc => absurd hc List.not_mem_nil⟩
      | cons d amount => cases h
  | cons c cs ih =>
      rw [components?_cons] at h
      by_cases hUnit : isUnit c = true
      · rw [if_pos hUnit] at h
        rcases Option.ite_none_left_eq_some.mp h with ⟨hSome, hMap⟩
        rcases Option.map_eq_some_iff.mp hMap with ⟨rest, hRest, rfl⟩
        have hEmpty : Letterless [] := fun d hd => absurd hd List.not_mem_nil
        rcases ih hEmpty hRest with ⟨hSpell, hComponents⟩
        constructor
        · rw [List.flatMap_cons, hSpell, spell]
          simp
        · intro part hPart
          rcases List.mem_cons.mp hPart with rfl | hLater
          · exact {
              amount_ne_nil := by simpa using hSome
              amount_letterless := fun d hd => hAmount d (List.mem_reverse.mp hd)
              unit_letter := hUnit }
          · exact hComponents part hLater
      · rw [if_neg hUnit] at h
        have hLonger : Letterless (c :: amount) := by
          intro d hd
          rcases List.mem_cons.mp hd with rfl | hOld
          · exact Bool.eq_false_iff.mpr hUnit
          · exact hAmount d hOld
        rcases ih hLonger h with ⟨hSpell, hComponents⟩
        refine ⟨?_, hComponents⟩
        rw [hSpell, List.reverse_cons, List.append_assoc]
        rfl

theorem components?_eq_some_iff {cs : List Char} {parts : List (List Char × Char)} :
    components? [] cs = some parts <->
      parts.flatMap spell = cs ∧ forall c, c ∈ parts -> IsComponent c := by
  constructor
  · intro h
    exact spells_of_components?_eq_some (fun c hc => absurd hc List.not_mem_nil) h
  · rintro ⟨rfl, hComponents⟩
    exact components?_flatMap_spell hComponents

/-!
# Items
-/

variable {ι : Type} {component : ι -> List Char × Char}

theorem components?_map (hComponent : forall i, IsComponent (component i)) (items : List ι) :
    components? [] ((items.map component).flatMap spell) = some (items.map component) := by
  apply components?_flatMap_spell
  intro c hc
  rcases List.mem_map.mp hc with ⟨i, _, rfl⟩
  exact hComponent i

theorem map_component_eq_of_spell_eq (hComponent : forall i, IsComponent (component i))
    {items others : List ι}
    (h : (items.map component).flatMap spell = (others.map component).flatMap spell) :
    items.map component = others.map component := by
  have hOwn := components?_map hComponent items
  rw [h, components?_map hComponent others] at hOwn
  exact (Option.some.inj hOwn).symm

end Duration
end LayerAxes
