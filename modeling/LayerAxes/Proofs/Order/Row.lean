import LayerAxes.Feature.Query
import LayerAxes.Proofs.Order.StableSort
import LayerAxes.Proofs.Order.Value

/-!
# The order of rows

Attributes are sorted into groups, and within a group by value.  A criterion
puts rows without a value last in both directions, and a list of criteria
compares lexicographically.  All of these are orders in which different rows may
take the same place.
-/

namespace LayerAxes

open Std

/-!
# Attributes
-/

namespace Attribute

def bool? : Attribute -> Option Bool
  | bool b => some b
  | _ => none

theorem totalCompare_eq_then (a b : Attribute) :
    a.totalCompare b =
      (compare a.group b.group).then
        ((compare a.bool? b.bool?).then (compare a.value? b.value?)) := by
  cases a <;> cases b
  case bool.bool a b => cases a <;> cases b <;> rfl
  all_goals rfl

instance : TransCmp totalCompare := by
  have hEq : totalCompare =
      compareLex (compareOn group) (compareLex (compareOn bool?) (compareOn value?)) := by
    funext a b
    exact totalCompare_eq_then a b
  rw [hEq]
  infer_instance

def groups : List (Attribute -> Bool) :=
  [fun a => a.bool?.isSome, fun a => a.value?.isSome, fun a => a.envelope?.isSome,
    fun a => a.feature?.isSome, isNull]

theorem countP_groups (a : Attribute) : groups.countP (fun inGroup => inGroup a) = 1 := by
  cases a <;> rfl

theorem group_eq_of_getElem_groups {a : Attribute} {i : Nat} (hi : i < groups.length)
    (h : groups[i] a = true) : a.group = i := by
  have hNumber : i = 0 ∨ i = 1 ∨ i = 2 ∨ i = 3 ∨ i = 4 := by
    change i < 5 at hi
    omega
  rcases hNumber with rfl | rfl | rfl | rfl | rfl
  all_goals
    cases a
    all_goals
      first
      | rfl
      | cases h

theorem totalCompare_of_group_lt {a b : Attribute} (h : a.group < b.group) :
    a.totalCompare b = .lt := by
  rw [totalCompare_eq_then, Nat.compare_eq_lt.mpr h]
  rfl

theorem pairwise_groups :
    groups.Pairwise fun first later => forall a b, first a = true -> later b = true ->
      a.totalCompare b = .lt := by
  rw [List.pairwise_iff_getElem]
  intro i j hi hj hLess a b ha hb
  apply totalCompare_of_group_lt
  rw [group_eq_of_getElem_groups hi ha, group_eq_of_getElem_groups hj hb]
  exact hLess

end Attribute

/-!
# Criteria
-/

namespace Direction

variable {α : Type} {cmp : α -> α -> Ordering} [TransCmp cmp]

instance transCmp_orient (direction : Direction) :
    TransCmp fun a b => direction.orient (cmp a b) := by
  cases direction with
  | ascending => exact inferInstanceAs (TransCmp cmp)
  | descending =>
      have hEq : (fun a b => Direction.descending.orient (cmp a b)) = fun a b => cmp b a := by
        funext a b
        exact OrientedCmp.eq_swap.symm
      rw [hEq]
      infer_instance

end Direction

namespace SortKey

def compareCells (key : SortKey) (x y : Attribute) : Ordering :=
  key.direction.orient (x.totalCompare y)

instance (key : SortKey) : TransCmp key.compareCells :=
  inferInstanceAs (TransCmp fun x y : Attribute => key.direction.orient (x.totalCompare y))

theorem compareRows_eq (key : SortKey) (a b : Feature) :
    key.compareRows a b =
      match a.present? key.property, b.present? key.property with
      | some x, some y => key.compareCells x y
      | some _, none => .lt
      | none, some _ => .gt
      | none, none => .eq :=
  rfl

instance (key : SortKey) : OrientedCmp key.compareRows where
  eq_swap {a b} := by
    rw [compareRows_eq, compareRows_eq]
    cases a.present? key.property with
    | none => cases b.present? key.property <;> rfl
    | some x =>
        cases b.present? key.property with
        | none => rfl
        | some y =>
            show key.compareCells x y = (key.compareCells y x).swap
            exact OrientedCmp.eq_swap

instance (key : SortKey) : TransCmp key.compareRows where
  isLE_trans {a b c} hab hbc := by
    rw [compareRows_eq] at *
    cases ha : a.present? key.property <;> cases hb : b.present? key.property <;>
      cases hc : c.present? key.property <;> simp only [ha, hb, hc] at hab hbc ⊢
    all_goals
      first
      | rfl
      | contradiction
      | exact TransCmp.isLE_trans hab hbc

end SortKey

instance transCmp_compareRows (keys : List SortKey) : TransCmp (compareRows keys) := by
  induction keys with
  | nil => exact { eq_swap := rfl, isLE_trans := fun _ _ => rfl }
  | cons key keys ih =>
      exact inferInstanceAs (TransCmp (compareLex key.compareRows (compareRows keys)))

theorem compareRows_append (earlier later : List SortKey) (a b : Feature) :
    compareRows (earlier ++ later) a b =
      (compareRows earlier a b).then (compareRows later a b) := by
  induction earlier with
  | nil => rfl
  | cons key earlier ih =>
      show (key.compareRows a b).then (compareRows (earlier ++ later) a b) = _
      rw [ih, ← Ordering.then_assoc]
      rfl

theorem SortKey.compareRows_of_missing {key : SortKey} {a b : Feature}
    (ha : (a.present? key.property).isSome) (hb : b.present? key.property = none) :
    key.compareRows a b = .lt := by
  rcases Option.isSome_iff_exists.mp ha with ⟨x, hx⟩
  rw [compareRows_eq, hx, hb]

/--
Any criteria put rows in a total preorder.  In whichever direction, a row with a
value for a criterion comes before a row without, unless an earlier criterion
tells the two apart.  Values are ordered by group first, and each is in one group.
-/
theorem rows_are_preordered (keys : List SortKey) :
    (forall a, compareRows keys a a = .eq) ∧
    (forall a b, compareRows keys b a = (compareRows keys a b).swap) ∧
    (forall a b c, (compareRows keys a b).isLE = true -> (compareRows keys b c).isLE = true ->
      (compareRows keys a c).isLE = true) ∧
    (forall earlier key later, keys = earlier ++ key :: later -> forall a b,
      compareRows earlier a b = .eq -> (a.present? key.property).isSome ->
        b.present? key.property = none -> compareRows keys a b = .lt) ∧
    (Attribute.groups.Pairwise fun first later =>
      forall a b, first a = true -> later b = true -> a.totalCompare b = .lt) ∧
    forall a, Attribute.groups.countP (fun inGroup => inGroup a) = 1 := by
  refine ⟨fun a => ReflCmp.compare_self, fun a b => OrientedCmp.eq_swap,
    fun a b c => TransCmp.isLE_trans, ?_, Attribute.pairwise_groups, Attribute.countP_groups⟩
  rintro earlier key later rfl a b hEarlier ha hb
  rw [compareRows_append, hEarlier]
  show (key.compareRows a b).then (compareRows later a b) = .lt
  rw [SortKey.compareRows_of_missing ha hb]
  rfl

theorem stableOrder_sortRows (keys : List SortKey) (rows : List Feature) :
    StableOrder (compareRows keys) rows (sortRows keys rows) :=
  StableOrder.mergeSort (compareRows keys) rows

theorem sortRows_nil (rows : List Feature) : sortRows [] rows = rows := by
  apply List.mergeSort_of_pairwise
  apply List.pairwise_of_forall
  intro a b
  rfl

theorem filter_sortRows (keys : List SortKey) (p : Feature -> Bool) (rows : List Feature) :
    (sortRows keys rows).filter p = sortRows keys (rows.filter p) :=
  StableOrder.filter_mergeSort (compareRows keys) p rows

end LayerAxes
