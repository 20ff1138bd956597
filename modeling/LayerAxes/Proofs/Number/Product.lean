import LayerAxes.Proofs.Number.Difference

/-!
# Products with whole numbers

A product is rounded once.  What it is rounded to is off by at most a 2^53rd part of
the exact product, and by nothing at all if the exact product is a number itself.
-/

namespace LayerAxes
namespace Binary64

/-!
# How far rounding goes
-/

theorem roundHalfEven_bounds (num : Nat) {den : Nat} (hDen : 0 < den) :
    2 * num ≤ 2 * (roundHalfEven num den * den) + den ∧
      2 * (roundHalfEven num den * den) ≤ 2 * num + den := by
  have hParts := Nat.div_add_mod num den
  have hRest := Nat.mod_lt num hDen
  rw [Nat.mul_comm] at hParts
  unfold roundHalfEven
  dsimp only
  split
  · omega
  · split
    · rw [Nat.add_one_mul (num / den) den]
      omega
    · have hParity : num / den % 2 = 0 ∨ num / den % 2 = 1 := Nat.mod_two_eq_zero_or_one _
      rw [Nat.add_mul (num / den)]
      rcases hParity with hEven | hOdd
      · rw [hEven, Nat.zero_mul]
        omega
      · rw [hOdd, Nat.one_mul]
        omega

section

variable {n : Nat}

theorem rankUnits_nearestRank (h : nearestRank n 1 < infinityRank) :
    rankUnits (nearestRank n 1) = roundHalfEven n (2 ^ (n.log2 - 52)) * 2 ^ (n.log2 - 52) := by
  have hUpper := roundHalfEven_shifted_le n 1
  have hLower := @le_roundHalfEven_shifted n 1
  have hRank : nearestRank n 1 =
      (n.log2 - 52) * binadeSize + roundHalfEven n (2 ^ (n.log2 - 52)) := by
    unfold nearestRank at h ⊢
    dsimp only at h ⊢
    rw [Nat.div_one, Nat.one_mul, Nat.pow_eq] at h ⊢
    exact Nat.min_eq_right (Nat.le_of_lt (Nat.lt_of_not_le fun hLE => by omega))
  rw [Nat.div_one, Nat.one_mul] at hUpper hLower
  rw [hRank]
  generalize n.log2 - 52 = shift at hUpper hLower ⊢
  generalize roundHalfEven n (2 ^ shift) = bits at hUpper hLower ⊢
  by_cases hShort : bits < binadeSize
  · have hNone : shift = 0 := Nat.eq_zero_of_not_pos fun hShift => by
      have := hLower hShift
      omega
    rw [hNone, Nat.zero_mul, Nat.zero_add, pow_zero, Nat.mul_one, rankUnits, if_pos hShort]
  · by_cases hFull : bits = 2 * binadeSize
    · -- rounding up has filled the binade, so that the next one begins
      have hNext : shift * binadeSize + 2 * binadeSize = (shift + 1) * binadeSize + binadeSize := by
        ring
      rw [hFull, hNext, rankUnits_binade (Nat.le_refl _) (by decide), pow_succ]
      ring
    · exact rankUnits_binade (Nat.not_lt.mp hShort) (by omega)

theorem nearestRank_distance (h : nearestRank n 1 < infinityRank) :
    2 ^ 53 * ((rankUnits (nearestRank n 1) : Int) - n).natAbs ≤ n := by
  have hBounds := roundHalfEven_bounds n (Nat.two_pow_pos (n.log2 - 52))
  rw [rankUnits_nearestRank h]
  by_cases hShort : n.log2 - 52 = 0
  · rw [hShort, pow_zero] at hBounds ⊢
    omega
  · have hNonzero : n ≠ 0 := by
      rintro rfl
      exact hShort rfl
    have hLow : 2 ^ 52 * 2 ^ (n.log2 - 52) ≤ n := by
      rw [← pow_add, Nat.add_sub_cancel' (by omega)]
      exact Nat.log2_self_le hNonzero
    omega

end

/-!
# Products
-/

variable {x : Binary64}

@[simp]
theorem negative_ofUnits (negative : Bool) (num den : Nat) :
    (ofUnits negative num den).negative = negative :=
  rfl

theorem ofUnits_mul_right (negative : Bool) (num den : Nat) {k : Nat} (hk : 0 < k) :
    ofUnits negative (num * k) (den * k) = ofUnits negative num den := by
  unfold ofUnits
  simp only [nearestRank_mul_right num den hk]

theorem mul_ofInt {n : Nat} (hx : x.isFinite = true) (hn : n < 2 ^ 53) :
    x * ofInt n = ofUnits x.negative (n * x.units) 1 := by
  rcases ofInt_exact (n := (n : Int)) (by simpa using hn) with ⟨hFinite, hSigned⟩
  have hSign : (ofInt n).negative = false := by
    show decide ((n : Int) < 0) = false
    exact decide_eq_false (by omega)
  have hUnits : (ofInt n).units = n * unitsPerOne := by
    unfold signedUnits at hSigned
    rw [hSign, if_neg Bool.false_ne_true] at hSigned
    exact_mod_cast hSigned
  have hNotInfinite : forall y : Binary64, y.isFinite = true -> y.isInfinite = false :=
    fun y hy => beq_eq_false_iff_ne.mpr (Nat.ne_of_lt (of_decide_eq_true hy))
  have hMul : x * ofInt n =
      ofUnits (x.negative != (ofInt n).negative) (x.units * (ofInt n).units) unitsPerOne := by
    show mul x (ofInt n) = _
    unfold mul
    rw [isNaN_of_isFinite hx, isNaN_of_isFinite hFinite, hNotInfinite x hx, hNotInfinite _ hFinite]
    rfl
  calc
    x * ofInt n = ofUnits (x.negative != false) (n * x.units * unitsPerOne) (1 * unitsPerOne) := by
      rw [hMul, hSign, hUnits, Nat.one_mul, ← Nat.mul_assoc, Nat.mul_comm x.units]
    _ = ofUnits x.negative (n * x.units) 1 := by
      rw [ofUnits_mul_right _ _ _ unitsPerOne_pos, Bool.bne_false]

theorem units_mul_ofInt_distance {n : Nat} (hx : x.isFinite = true) (hn : n < 2 ^ 53)
    (hProduct : (x * ofInt n).isFinite = true) :
    2 ^ 53 * (((x * ofInt n).units : Int) - (n * x.units : Nat)).natAbs ≤ n * x.units := by
  rw [mul_ofInt hx hn] at hProduct ⊢
  exact nearestRank_distance (of_decide_eq_true hProduct)

theorem units_mul_ofInt_of_exact {n : Nat} {y : Binary64} (hx : x.isFinite = true)
    (hn : n < 2 ^ 53) (hy : y.isFinite = true) (hExact : y.units = n * x.units) :
    (x * ofInt n).units = n * x.units := by
  have hRank : nearestRank (n * x.units) 1 = y.rank := by
    rw [← hExact]
    exact nearestRank_rankUnits (Nat.le_of_lt (of_decide_eq_true hy))
  rw [mul_ofInt hx hn]
  show rankUnits (nearestRank (n * x.units) 1) = n * x.units
  rw [hRank]
  exact hExact

end Binary64
end LayerAxes
