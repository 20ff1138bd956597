import LayerAxes.Domain.Value

/-!
# The order of domain values

Numbers, times and texts are ordered linearly.  Extents are ordered by their
bounds and values by their kinds first, which are orders too, except that an
instant and the range between equal bounds take the same place.
-/

namespace LayerAxes

open Std

/-!
# Points of an axis
-/

namespace Binary64

theorem totalPlace_injective {x y : Binary64} (h : x.totalPlace = y.totalPlace) : x = y := by
  rcases x with ⟨negativeX, rankX, hx⟩
  rcases y with ⟨negativeY, rankY, hy⟩
  cases negativeX <;> cases negativeY <;> simp [totalPlace] at h ⊢ <;> omega

instance : TransOrd Binary64 :=
  inferInstanceAs (TransCmp (compareOn totalPlace))

instance : LawfulEqOrd Binary64 where
  eq_of_compare h := totalPlace_injective (LawfulEqOrd.eq_of_compare h)

end Binary64

namespace Timestamp

instance : TransOrd Timestamp :=
  inferInstanceAs (TransCmp (compareLex (compareOn seconds) (compareOn nanos)))

instance : LawfulEqOrd Timestamp where
  eq_of_compare {a b} h := by
    rcases Ordering.then_eq_eq.mp h with ⟨hSeconds, hNanos⟩
    rcases a with ⟨seconds, nanos, _⟩
    rcases b with ⟨_, _, _⟩
    cases LawfulEqOrd.eq_of_compare hSeconds
    cases LawfulEqOrd.eq_of_compare hNanos
    rfl

end Timestamp

/-!
# Extents
-/

namespace Extent

variable {α : Type} [Ord α]

instance [TransOrd α] : TransCmp (compareBounds (α := α)) :=
  inferInstanceAs (TransCmp (compareLex (compareOn lower) (compareOn upper)))

theorem compareBounds_eq_swap [OrientedOrd α] (a b : Extent α) :
    a.compareBounds b = (b.compareBounds a).swap := by
  unfold compareBounds
  rw [Ordering.swap_then, ← OrientedOrd.eq_swap, ← OrientedOrd.eq_swap]

theorem isLE_compareBounds_trans [TransOrd α] {a b c : Extent α}
    (hab : (a.compareBounds b).isLE = true) (hbc : (b.compareBounds c).isLE = true) :
    (a.compareBounds c).isLE = true :=
  TransCmp.isLE_trans hab hbc

theorem compareBounds_eq_eq_iff [LawfulEqOrd α] {a b : Extent α} :
    a.compareBounds b = .eq <-> a.lower = b.lower ∧ a.upper = b.upper := by
  simp [compareBounds, Ordering.then_eq_eq]

theorem compareBounds_instant (x y : α) :
    (instant x).compareBounds (instant y) = compare x y := by
  show (compare x y).then (compare x y) = compare x y
  cases compare x y <;> rfl

end Extent

/-!
# Values
-/

namespace Value

instance : OrientedOrd Value where
  eq_swap {a b} := by
    cases a with
    | time e =>
        cases b with
        | time f => exact e.compareBounds_eq_swap f
        | number f => rfl
        | text f => rfl
    | number e =>
        cases b with
        | time f => rfl
        | number f => exact e.compareBounds_eq_swap f
        | text f => rfl
    | text e =>
        cases b with
        | time f => rfl
        | number f => rfl
        | text f => exact e.compareBounds_eq_swap f

instance : TransOrd Value where
  isLE_trans {a b c} hab hbc := by
    cases a <;> cases b <;> cases c
    all_goals
      first
      | exact Extent.isLE_compareBounds_trans hab hbc
      | contradiction
      | rfl

theorem kind_lower (v : Value) : v.lower.kind = v.kind := by
  cases v <;> rfl

theorem compareSameKind?_eq_some_iff {a b : Value} {o : Ordering} :
    compareSameKind? a b = some o <-> a.kind = b.kind ∧ compare a b = o := by
  cases a <;> cases b
  all_goals
    constructor
    · intro h
      first
      | exact ⟨rfl, Option.some.inj h⟩
      | cases h
    · rintro ⟨hKind, hCompare⟩
      first
      | exact congrArg some hCompare
      | cases hKind

theorem compare_eq_then {a b : Value} (h : a.kind = b.kind) :
    compare a b = (compare a.lower b.lower).then (compare a.upper b.upper) := by
  cases a <;> cases b <;> simp only [kind, reduceCtorEq] at h
  all_goals
    show Extent.compareBounds _ _ = ((Extent.compareBounds _ _).then (Extent.compareBounds _ _))
    rw [Extent.compareBounds_instant, Extent.compareBounds_instant]
    rfl

theorem isLE_compare_iff {a b : Value} (h : a.kind = b.kind) :
    (compare a b).isLE = true <->
      (compare a.lower b.lower).isLE = true ∧
        (compare a.lower b.lower = .lt ∨ (compare a.upper b.upper).isLE = true) := by
  rw [compare_eq_then h]
  exact Ordering.isLE_then_iff_and

theorem kind_eq_of_compare_eq_eq {a b : Value} (h : compare a b = .eq) : a.kind = b.kind := by
  cases a <;> cases b
  all_goals
    first
    | rfl
    | cases h

theorem bounds_eq_of_compare_eq_eq {a b : Value} (h : compare a b = .eq) :
    a.lower = b.lower ∧ a.upper = b.upper := by
  have hKind := kind_eq_of_compare_eq_eq h
  cases a <;> cases b <;> simp only [kind, reduceCtorEq] at hKind
  all_goals
    have hBounds := Extent.compareBounds_eq_eq_iff.mp h
    simp only [lower, upper, hBounds, and_self]

end Value
end LayerAxes
