import LayerAxes.Proofs.Order.Distinct

/-!
# Kinds, bounds and the order of values

The order of values asks for their kinds, then for their lower and then for their upper
bounds.  It is a total preorder, and its ties are the values of one kind with the same
bounds.  So an instant is told apart by no comparison from the range that begins and ends
with it.
-/

namespace LayerAxes

open Std

namespace Value

variable {a b : Value}

/-!
# Values of one kind and of two
-/

theorem compareSameKind?_eq_ite (a b : Value) :
    compareSameKind? a b = if a.kind = b.kind then some (compare a b) else none := by
  split
  · rename_i hKind
    exact compareSameKind?_eq_some_iff.mpr ⟨hKind, rfl⟩
  · rename_i hKind
    rw [Option.eq_none_iff_forall_ne_some]
    intro o hSome
    exact hKind (compareSameKind?_eq_some_iff.mp hSome).1

theorem compare_of_kind_ne (h : a.kind ≠ b.kind) : compare a b = compare a.kind b.kind := by
  show (compareSameKind? a b).getD (compare a.kind b.kind) = _
  rw [compareSameKind?_eq_ite, if_neg h]
  rfl

theorem same_iff_bounds : a.same b = true <-> a.lower = b.lower ∧ a.upper = b.upper := by
  rw [same_iff]
  constructor
  · exact bounds_eq_of_compare_eq_eq
  · rintro ⟨hLower, hUpper⟩
    have hKind : a.kind = b.kind := by
      rw [← a.kind_lower, hLower, b.kind_lower]
    have hSelf : forall v : Value, compare v v = .eq := fun v => ReflCmp.compare_self
    rw [compare_eq_then hKind, hLower, hUpper, hSelf, hSelf]
    rfl

/-!
# Instants and ranges
-/

/-- No comparison with any value, on either side, tells the two values apart. -/
def ComparesLike (a b : Value) : Prop :=
  forall v, compare a v = compare b v ∧ compare v a = compare v b ∧
    compareSameKind? a v = compareSameKind? b v ∧ compareSameKind? v a = compareSameKind? v b ∧
    a.same v = b.same v ∧ v.same a = v.same b

theorem comparesLike_iff : a.ComparesLike b <-> a.same b = true := by
  constructor
  · intro h
    rw [(h b).2.2.2.2.1]
    exact same_self b
  · intro hSame v
    have hTie := same_iff.mp hSame
    have hKind := kind_eq_of_compare_eq_eq hTie
    have hLeft : compare a v = compare b v := TransCmp.congr_left hTie
    have hRight : compare v a = compare v b := TransCmp.congr_right hTie
    refine ⟨hLeft, hRight, ?_, ?_, same_congr_left hSame v, ?_⟩
    · rw [compareSameKind?_eq_ite, compareSameKind?_eq_ite, hKind, hLeft]
    · rw [compareSameKind?_eq_ite, compareSameKind?_eq_ite, hKind, hRight]
    · unfold same
      rw [hRight]

/--
The comparison of values is a total preorder on all of them, inverted ranges and bounds
that are no number included.  It asks for the kind, then for the lower and then for the
upper bound.  Its ties are the values with the same bounds, so that an instant compares
like the range that begins and ends with it.
-/
theorem values_are_preordered_by_bounds :
    (forall a : Value, compare a a = .eq) ∧
    (forall a b : Value, compare b a = (compare a b).swap) ∧
    (forall a b c : Value, (compare a b).isLE = true -> (compare b c).isLE = true ->
      (compare a c).isLE = true) ∧
    (forall a b : Value, a.same b = true <-> compare a b = .eq) ∧
    Equivalence (fun a b : Value => a.same b = true) ∧
    (forall a b : Value, a.same b = true <-> a.lower = b.lower ∧ a.upper = b.upper) ∧
    (forall a b : Value,
      compareSameKind? a b = if a.kind = b.kind then some (compare a b) else none) ∧
    (forall a b : Value, a.kind ≠ b.kind -> compare a b = compare a.kind b.kind) ∧
    [Kind.temporal, .numeric, .text].Pairwise (fun k l => compare k l = .lt) ∧
    (forall a b : Value, a.kind = b.kind ->
      compare a b = (compare a.lower b.lower).then (compare a.upper b.upper)) ∧
    (forall t, ComparesLike (time (.instant t)) (time (.range t t))) ∧
    (forall x, ComparesLike (number (.instant x)) (number (.range x x))) ∧
    forall s, ComparesLike (text (.instant s)) (text (.range s s)) := by
  refine ⟨fun a => ReflCmp.compare_self, fun a b => OrientedCmp.eq_swap,
    fun a b c => TransCmp.isLE_trans, fun a b => same_iff, ?_, fun a b => same_iff_bounds,
    compareSameKind?_eq_ite, fun a b => compare_of_kind_ne, by decide,
    fun a b => compare_eq_then, ?_, ?_, ?_⟩
  · exact ⟨same_self, same_symm, same_trans⟩
  · intro t
    exact comparesLike_iff.mpr (same_iff_bounds.mpr ⟨rfl, rfl⟩)
  · intro x
    exact comparesLike_iff.mpr (same_iff_bounds.mpr ⟨rfl, rfl⟩)
  · intro s
    exact comparesLike_iff.mpr (same_iff_bounds.mpr ⟨rfl, rfl⟩)

example : [-Binary64.nan, -Binary64.infinity, -Binary64.zero, Binary64.zero, Binary64.infinity,
    Binary64.nan].Pairwise
      (fun x y => compare (number (.instant x)) (number (.instant y)) = .lt) := by
  decide

end Value
end LayerAxes
