import LayerAxes.Domain.Order
import LayerAxes.Proofs.Order.StableSort
import LayerAxes.Proofs.Order.Value
import Mathlib.Data.List.Destutter

/-!
# Listed domains

A domain can be listed exactly when its values are of one kind.  Sorting is then
the stable sorting of the order of values, and of neighbours in the same place
only the first is kept.  The ends of the list do not move when values are
dropped.
-/

namespace LayerAxes

open Std

def Direction.opposite : Direction -> Direction
  | ascending => descending
  | descending => ascending

namespace Value

def placeIn (direction : Direction) (a b : Value) : Ordering :=
  direction.orient (compare a b)

def OneKind (values : List Value) : Prop :=
  forall v, v ∈ values -> forall w, w ∈ values -> v.kind = w.kind

def Differ (a b : Value) : Prop :=
  compare a b ≠ .eq

instance : DecidableRel Differ := fun a b =>
  inferInstanceAs (Decidable (compare a b ≠ .eq))

instance (values : List Value) : Decidable (OneKind values) :=
  inferInstanceAs (Decidable (forall v, v ∈ values -> forall w, w ∈ values -> v.kind = w.kind))

instance (direction : Direction) : TransCmp (placeIn direction) := by
  cases direction with
  | ascending => exact inferInstanceAs (TransCmp (compare : Value -> Value -> Ordering))
  | descending =>
      have hEq : placeIn .descending = fun a b => compare b a := by
        funext a b
        exact OrientedCmp.eq_swap.symm
      rw [hEq]
      infer_instance

theorem placeIn_eq_eq_iff {direction : Direction} {a b : Value} :
    placeIn direction a b = .eq <-> compare a b = .eq := by
  cases direction with
  | ascending => exact Iff.rfl
  | descending =>
      show (compare a b).swap = .eq <-> _
      exact Ordering.swap_eq_eq

theorem placeIn_opposite (direction : Direction) (a b : Value) :
    placeIn direction.opposite a b = (placeIn direction a b).swap := by
  cases direction with
  | ascending => rfl
  | descending => exact (Ordering.swap_swap ..).symm

theorem OneKind.mono {values fewer : List Value} (h : OneKind values) (hFewer : fewer ⊆ values) :
    OneKind fewer := by
  intro v hv w hw
  exact h v (hFewer hv) w (hFewer hw)

/-!
# Comparing
-/

theorem compareIn_eq_ok {a b : Value} (direction : Direction) (h : a.kind = b.kind) :
    compareIn direction a b = .ok (placeIn direction a b) := by
  have hSome := compareSameKind?_eq_some_iff.mpr ⟨h, rfl⟩
  unfold compareIn
  rw [hSome]
  rfl

theorem compareIn_eq_error {a b : Value} (direction : Direction) (h : a.kind ≠ b.kind) :
    compareIn direction a b = .error (mixedKinds a b) := by
  unfold compareIn
  cases hCompare : compareSameKind? a b with
  | none => rfl
  | some o => exact absurd (compareSameKind?_eq_some_iff.mp hCompare).1 h

/-!
# Sorting
-/

theorem forM_compareIn_eq_ok_iff {direction : Direction} {first : Value} {rest : List Value} :
    (rest.forM fun v => discard (compareIn direction first v)) = .ok () <->
      forall v, v ∈ rest -> first.kind = v.kind := by
  induction rest with
  | nil => exact ⟨fun _ v hv => absurd hv List.not_mem_nil, fun _ => rfl⟩
  | cons v rest ih =>
      show (discard (compareIn direction first v) >>= fun _ =>
        rest.forM fun v => discard (compareIn direction first v)) = .ok () <-> _
      rw [List.forall_mem_cons, ← ih]
      by_cases hKind : first.kind = v.kind
      · rw [compareIn_eq_ok direction hKind]
        constructor
        · intro hRest
          exact ⟨hKind, hRest⟩
        · rintro ⟨_, hRest⟩
          exact hRest
      · rw [compareIn_eq_error direction hKind]
        constructor
        · intro hError
          cases hError
        · rintro ⟨hSame, _⟩
          exact absurd hSame hKind

theorem oneKind_cons_iff {first : Value} {rest : List Value} :
    OneKind (first :: rest) <-> forall v, v ∈ rest -> first.kind = v.kind := by
  constructor
  · intro h v hv
    exact h first List.mem_cons_self v (List.mem_cons_of_mem _ hv)
  · intro h
    have hFirst : forall v, v ∈ first :: rest -> first.kind = v.kind :=
      List.forall_mem_cons.mpr ⟨rfl, h⟩
    intro v hv w hw
    exact (hFirst v hv).symm.trans (hFirst w hw)

theorem sort_eq_ok_iff {direction : Direction} {values sorted : List Value} :
    sort direction values = .ok sorted <->
      OneKind values ∧ values.mergeSort (precedes direction) = sorted := by
  cases values with
  | nil =>
      constructor
      · intro h
        cases h
        exact ⟨fun v hv => absurd hv List.not_mem_nil, List.mergeSort_nil⟩
      · rintro ⟨_, hSorted⟩
        rw [← hSorted, List.mergeSort_nil]
        rfl
  | cons first rest =>
      rw [oneKind_cons_iff, ← @forM_compareIn_eq_ok_iff direction]
      constructor
      · intro h
        rcases Answer.exists_of_bind_eq_ok h with ⟨_, hChecks, hReturn⟩
        cases hReturn
        exact ⟨hChecks, rfl⟩
      · rintro ⟨hChecks, hSorted⟩
        rw [sort, hChecks, hSorted]
        rfl

theorem sort_eq_self {direction : Direction} {values : List Value} (hKind : OneKind values)
    (hOrdered : values.Pairwise fun a b => precedes direction a b = true) :
    sort direction values = .ok values :=
  sort_eq_ok_iff.mpr ⟨hKind, List.mergeSort_of_pairwise hOrdered⟩

theorem stableOrder_of_sort_eq_ok {direction : Direction} {values sorted : List Value}
    (h : sort direction values = .ok sorted) :
    StableOrder (placeIn direction) values sorted := by
  rcases sort_eq_ok_iff.mp h with ⟨_, rfl⟩
  exact StableOrder.mergeSort (placeIn direction) values

theorem oneKind_of_sort_eq_ok {direction : Direction} {values sorted : List Value}
    (h : sort direction values = .ok sorted) : OneKind sorted :=
  (sort_eq_ok_iff.mp h).1.mono (stableOrder_of_sort_eq_ok h).perm.subset

/-!
# Dropping repeated values
-/

theorem dedupAfter_eq_ok {direction : Direction} {last : Value} {values : List Value}
    (h : OneKind (last :: values)) :
    exists rest, dedupAfter direction last values = .ok rest ∧
      last :: rest = values.destutter' Differ last := by
  induction values generalizing last with
  | nil => exact ⟨[], rfl, rfl⟩
  | cons v values ih =>
      have hKind : last.kind = v.kind :=
        h last List.mem_cons_self v (List.mem_cons_of_mem _ List.mem_cons_self)
      unfold dedupAfter
      rw [compareIn_eq_ok direction hKind]
      by_cases hPlace : compare last v = .eq
      · have hSkip : OneKind (last :: values) :=
          h.mono (List.cons_subset_cons _ (List.subset_cons_self _ _))
        rcases ih hSkip with ⟨rest, hRest, hEq⟩
        refine ⟨rest, ?_, ?_⟩
        · rw [← hRest]
          exact if_pos (placeIn_eq_eq_iff.mpr hPlace)
        · rw [List.destutter'_cons_neg _ (not_not.mpr hPlace), hEq]
      · have hTail : OneKind (v :: values) := h.mono (List.subset_cons_self _ _)
        rcases ih hTail with ⟨rest, hRest, hEq⟩
        refine ⟨v :: rest, ?_, ?_⟩
        · refine (if_neg (fun heq => hPlace (placeIn_eq_eq_iff.mp heq))).trans ?_
          rw [hRest]
          rfl
        · rw [List.destutter'_cons_pos _ hPlace, hEq]

theorem dedup_eq_ok {direction : Direction} {values : List Value} (h : OneKind values) :
    dedup direction values = .ok (values.destutter Differ) := by
  cases values with
  | nil => rfl
  | cons v values =>
      rcases @dedupAfter_eq_ok direction _ _ h with ⟨rest, hRest, hEq⟩
      rw [dedup, hRest, List.destutter_cons', ← hEq]
      rfl

/-!
# The ends of a list
-/

theorem head?_destutter' (first : Value) (values : List Value) :
    (values.destutter' Differ first).head? = some first := by
  induction values with
  | nil => rfl
  | cons v values ih =>
      by_cases h : Differ first v
      · rw [List.destutter'_cons_pos _ h]
        rfl
      · rw [List.destutter'_cons_neg _ h, ih]

theorem head?_destutter (values : List Value) :
    (values.destutter Differ).head? = values.head? := by
  cases values with
  | nil => rfl
  | cons first values => exact head?_destutter' first values

theorem exists_getLast?_destutter' (first : Value) (values : List Value) {last : Value}
    (hLast : (first :: values).getLast? = some last) :
    exists kept, (values.destutter' Differ first).getLast? = some kept ∧
      compare kept last = .eq := by
  induction values generalizing first with
  | nil =>
      cases hLast
      exact ⟨first, rfl, ReflOrd.compare_self⟩
  | cons v values ih =>
      rw [List.getLast?_cons_cons] at hLast
      by_cases h : Differ first v
      · rcases ih v hLast with ⟨kept, hKept, hPlace⟩
        refine ⟨kept, ?_, hPlace⟩
        rw [List.destutter'_cons_pos _ h, List.getLast?_cons, hKept]
        rfl
      · have hSame : compare first v = .eq := not_not.mp h
        rw [List.destutter'_cons_neg _ h]
        cases values with
        | nil =>
            cases hLast
            exact ⟨first, rfl, hSame⟩
        | cons w values =>
            apply ih
            rw [List.getLast?_cons_cons] at hLast ⊢
            exact hLast

theorem exists_getLast?_destutter {values : List Value} {last : Value}
    (hLast : values.getLast? = some last) :
    exists kept, (values.destutter Differ).getLast? = some kept ∧ compare kept last = .eq := by
  cases values with
  | nil => cases hLast
  | cons first values => exact exists_getLast?_destutter' first values hLast

end Value
end LayerAxes
