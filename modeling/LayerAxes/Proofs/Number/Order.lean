import LayerAxes.Proofs.Order.Value

/-!
# The order of numbers

The comparison of numbers holds for no value that is not a number, and on the
others it compares their places.  So the lesser of two numbers is one of them and
below both, and numbers in the total order are in order as numbers, too.
-/

namespace LayerAxes
namespace Binary64

variable {x y z : Binary64}

theorem isNaN_of_isFinite (h : x.isFinite = true) : x.isNaN = false :=
  decide_eq_false (Nat.lt_asymm (of_decide_eq_true h))

theorem rank_le_of_isNaN_eq_false (h : x.isNaN = false) : x.rank ≤ infinityRank :=
  Nat.not_lt.mp (of_decide_eq_false h)

theorem le_trans (hxy : x ≤ y) (hyz : y ≤ z) : x ≤ z :=
  ⟨hxy.1, hyz.2.1, Int.le_trans hxy.2.2 hyz.2.2⟩

theorem le_self (hx : x.isNaN = false) : x ≤ x :=
  ⟨hx, hx, Int.le_refl _⟩

theorem le_of_lt (h : x < y) : x ≤ y :=
  ⟨h.1, h.2.1, Int.le_of_lt h.2.2⟩

theorem lt_of_le_of_lt (hxy : x ≤ y) (hyz : y < z) : x < z :=
  ⟨hxy.1, hyz.2.1, Int.lt_of_le_of_lt hxy.2.2 hyz.2.2⟩

theorem not_lt_of_le (h : x ≤ y) : ¬ y < x :=
  fun hLT => Int.not_lt.mpr h.2.2 hLT.2.2

theorem le_of_not_lt (hx : x.isNaN = false) (hy : y.isNaN = false) (h : ¬ y < x) : x ≤ y :=
  ⟨hx, hy, Int.not_lt.mp fun hPlace => h ⟨hy, hx, hPlace⟩⟩

theorem lt_of_not_le (hx : x.isNaN = false) (hy : y.isNaN = false) (h : ¬ y ≤ x) : x < y :=
  ⟨hx, hy, Int.not_le.mp fun hPlace => h ⟨hy, hx, hPlace⟩⟩

/-!
# The lesser and the greater of two numbers
-/

theorem lesser_eq_or (x y : Binary64) : x.lesser y = x ∨ x.lesser y = y := by
  unfold lesser
  split
  · exact Or.inr rfl
  · split
    · exact Or.inr rfl
    · exact Or.inl rfl

theorem lesser_self (x : Binary64) : x.lesser x = x := by
  rcases lesser_eq_or x x with hEq | hEq
  · exact hEq
  · exact hEq

theorem lesser_le (hx : x.isNaN = false) (hy : y.isNaN = false) :
    x.lesser y ≤ x ∧ x.lesser y ≤ y := by
  unfold lesser
  rw [hx, if_neg Bool.false_ne_true]
  by_cases hLT : y < x
  · rw [if_pos hLT]
    exact ⟨le_of_lt hLT, le_self hy⟩
  · rw [if_neg hLT]
    exact ⟨le_self hx, le_of_not_lt hx hy hLT⟩

theorem le_greater (hx : x.isNaN = false) (hy : y.isNaN = false) :
    x ≤ x.greater y ∧ y ≤ x.greater y := by
  unfold greater
  rw [hx, if_neg Bool.false_ne_true]
  by_cases hLT : x < y
  · rw [if_pos hLT]
    exact ⟨le_of_lt hLT, le_self hy⟩
  · rw [if_neg hLT]
    exact ⟨le_self hx, le_of_not_lt hy hx hLT⟩

theorem greater_eq_or (x y : Binary64) : x.greater y = x ∨ x.greater y = y := by
  unfold greater
  split
  · exact Or.inr rfl
  · split
    · exact Or.inr rfl
    · exact Or.inl rfl

theorem le_lesser (hx : z ≤ x) (hy : z ≤ y) : z ≤ x.lesser y := by
  rcases lesser_eq_or x y with hEq | hEq
  · rw [hEq]
    exact hx
  · rw [hEq]
    exact hy

theorem greater_le (hx : x ≤ z) (hy : y ≤ z) : x.greater y ≤ z := by
  rcases greater_eq_or x y with hEq | hEq
  · rw [hEq]
    exact hx
  · rw [hEq]
    exact hy

theorem sameNumber_of_le_of_le (hxy : x ≤ y) (hyx : y ≤ x) : x.sameNumber y = true := by
  unfold sameNumber
  rw [hxy.1, hxy.2.1, beq_iff_eq.mpr (Int.le_antisymm hxy.2.2 hyx.2.2)]
  rfl

theorem exists_between_iff {a b c d : Binary64} :
    (exists x, (a ≤ x ∧ x ≤ b) ∧ c ≤ x ∧ x ≤ d) <-> (a ≤ b ∧ c ≤ d) ∧ a ≤ d ∧ c ≤ b := by
  constructor
  · rintro ⟨x, ⟨hAX, hXB⟩, hCX, hXD⟩
    exact ⟨⟨le_trans hAX hXB, le_trans hCX hXD⟩, le_trans hAX hXD, le_trans hCX hXB⟩
  · rintro ⟨⟨hAB, hCD⟩, hAD, hCB⟩
    rcases le_greater hAB.1 hCD.1 with ⟨hA, hC⟩
    exact ⟨a.greater c, ⟨hA, greater_le hAB hCB⟩, hC, greater_le hAD hCD⟩

/-!
# The total order
-/

theorem isFinite_of_place_eq (hy : y.isFinite = true) (h : x.place = y.place) :
    x.isFinite = true := by
  have hRank : x.rank = y.rank := by
    unfold place at h
    split at h <;> split at h <;> omega
  unfold isFinite at hy ⊢
  rw [hRank]
  exact hy

theorem negative_of_isLE_compare (hx : x.isNaN = true) (hy : y.isNaN = false)
    (h : (compare x y).isLE = true) : x.negative = true := by
  have hPlaces : x.totalPlace ≤ y.totalPlace := Std.isLE_compare.mp h
  have hAbove : infinityRank < x.rank := of_decide_eq_true hx
  have hBelow := rank_le_of_isNaN_eq_false hy
  cases hSign : x.negative with
  | true => rfl
  | false =>
      unfold totalPlace at hPlaces
      rw [hSign, if_neg Bool.false_ne_true] at hPlaces
      split at hPlaces <;> omega

theorem isNaN_of_isLE_compare (hy : y.isNaN = true) (hNegative : y.negative = true)
    (h : (compare x y).isLE = true) : x.isNaN = true := by
  have hPlaces : x.totalPlace ≤ y.totalPlace := Std.isLE_compare.mp h
  have hAbove : infinityRank < y.rank := of_decide_eq_true hy
  unfold totalPlace at hPlaces
  rw [if_pos hNegative] at hPlaces
  refine decide_eq_true ?_
  split at hPlaces <;> omega

theorem le_of_isLE_compare (hx : x.isFinite = true) (hy : y.isFinite = true)
    (h : (compare x y).isLE = true) : x ≤ y := by
  have hPlaces : x.totalPlace ≤ y.totalPlace := Std.isLE_compare.mp h
  refine ⟨isNaN_of_isFinite hx, isNaN_of_isFinite hy, ?_⟩
  clear hx hy h
  rcases x with ⟨negativeX, rankX, _⟩
  rcases y with ⟨negativeY, rankY, _⟩
  cases negativeX <;> cases negativeY <;> simp [totalPlace, place] at hPlaces ⊢ <;> omega

end Binary64
end LayerAxes
