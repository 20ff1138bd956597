import LayerAxes.Number.Shortest
import LayerAxes.Proofs.Number.Rounding
import LayerAxes.Proofs.Text.Digits

/-!
# The decimal of a number

A decimal keeps its rank when zeros move between its digits and its exponent, and
so the decimal selected for a number reads back to it.  A decimal of a grid is
checked before it is taken, and the exact one, taken when no grid has any, needs
no rounding.
-/

namespace LayerAxes
namespace Decimal

open Binary64 Text

/-!
# Zeros at the end
-/

theorem rank_of_digits_eq_zero {d : Decimal} (h : d.digits = 0) : d.rank = 0 := by
  unfold rank
  simp [h]

theorem nearestRank_mul_pow (n factor k : Nat) (e : Int) :
    nearestRank (fraction ⟨n * 10 ^ k, e - k⟩ factor).1 (fraction ⟨n * 10 ^ k, e - k⟩ factor).2 =
      nearestRank (fraction ⟨n, e⟩ factor).1 (fraction ⟨n, e⟩ factor).2 := by
  have hExponents : k + (e - k).toNat + (-e).toNat = e.toNat + (-(e - k)).toNat := by omega
  apply nearestRank_congr (Nat.pow_pos (by decide)) (Nat.pow_pos (by decide))
  show n * 10 ^ k * factor * 10 ^ (e - k).toNat * 10 ^ (-e).toNat =
    n * factor * 10 ^ e.toNat * 10 ^ (-(e - k)).toNat
  calc
    n * 10 ^ k * factor * 10 ^ (e - k).toNat * 10 ^ (-e).toNat
        = n * factor * 10 ^ (k + (e - k).toNat + (-e).toNat) := by ring
    _ = n * factor * 10 ^ e.toNat * 10 ^ (-(e - k)).toNat := by
      rw [hExponents]
      ring

theorem rank_mul_pow {n : Nat} (hn : 0 < n) (k : Nat) (e : Int) :
    rank ⟨n * 10 ^ k, e - k⟩ = rank ⟨n, e⟩ := by
  have hSize : ((Text.digits (n * 10 ^ k)).length : Int) + (e - k) =
      (Text.digits n).length + e := by
    rw [length_digits_mul_pow hn]
    omega
  have hScaled : n * 10 ^ k ≠ 0 := Nat.ne_of_gt (Nat.mul_pos hn (Nat.pow_pos (by decide)))
  unfold rank
  dsimp only
  rw [hSize, nearestRank_mul_pow]
  simp only [hScaled, Nat.ne_of_gt hn]

theorem rank_strip (fuel : Nat) (d : Decimal) : (strip fuel d).rank = d.rank := by
  induction fuel generalizing d with
  | zero => rfl
  | succ fuel ih =>
      rw [strip]
      by_cases hEnd : d.digits % 10 = 0
      · rw [if_pos hEnd, ih]
        by_cases hZero : d.digits = 0
        · rw [rank_of_digits_eq_zero hZero, rank_of_digits_eq_zero (by simp [hZero])]
        · have hFront : 0 < d.digits / 10 := by omega
          have hDigits : d.digits / 10 * 10 ^ 1 = d.digits := by omega
          have hMoved := rank_mul_pow hFront 1 (d.exponent + 1)
          rw [hDigits, Nat.cast_one, Int.add_sub_cancel] at hMoved
          exact hMoved.symm
      · rw [if_neg hEnd]

/-!
# The selected decimal
-/

variable {rank : Nat}

theorem nearer_eq_or (tie : Tie) (num den low : Nat) :
    nearer tie num den low = low ∨ nearer tie num den low = low + 1 := by
  unfold nearer
  split
  · exact Or.inl rfl
  · exact Or.inr rfl
  · cases tie with
    | up => exact Or.inr rfl
    | even =>
        dsimp only
        omega

theorem rank_onGrid? {tie : Tie} {exponent : Int} {d : Decimal}
    (h : onGrid? tie rank exponent = some d) : d.rank = rank := by
  unfold onGrid? at h
  generalize rankUnits rank * Nat.pow 10 (-exponent).toNat = num at h
  generalize unitsPerOne * Nat.pow 10 exponent.toNat = den at h
  dsimp only at h
  split at h
  · rename_i hLow hHigh
    cases h
    rcases nearer_eq_or tie num den (num / den) with hNear | hNear
    · rw [hNear]
      exact beq_iff_eq.mp hLow
    · rw [hNear]
      exact beq_iff_eq.mp hHigh
  · rename_i hLow _
    cases h
    exact beq_iff_eq.mp hLow
  · rename_i _ hHigh
    cases h
    exact beq_iff_eq.mp hHigh
  · cases h

/-- With as many twos as fives the units are whole multiples of a power of ten. -/
theorem nearestRank_fives (units : Nat) {k : Nat} {e : Int} (h : e = -k) :
    nearestRank (fraction ⟨units * Nat.pow 5 k, e⟩ (Nat.pow 2 k)).1
      (fraction ⟨units * Nat.pow 5 k, e⟩ (Nat.pow 2 k)).2 = nearestRank units 1 := by
  have hTen : 5 ^ k * 2 ^ k = 10 ^ k := (mul_pow 5 2 k).symm
  have hWhole : e.toNat = 0 := by omega
  have hPlaces : (-e).toNat = k := by omega
  apply nearestRank_congr (Nat.pow_pos (by decide)) Nat.one_pos
  show units * 5 ^ k * 2 ^ k * 10 ^ e.toNat * 1 = units * 10 ^ (-e).toNat
  rw [hWhole, hPlaces, pow_zero, Nat.mul_one, Nat.mul_one, Nat.mul_assoc, hTen]

theorem length_digits_exact (hPos : 0 < rank) (hFinite : rank < infinityRank) :
    750 < (Text.digits (exact rank).digits).length ∧
      (Text.digits (exact rank).digits).length ≤ 1383 := by
  have hUnits := rankUnits_pos hPos
  have hBound : rankUnits rank < 2 ^ 53 * 2 ^ 2045 := rankUnits_lt hFinite
  have hLeast : 10 ^ 750 ≤ Nat.pow 5 1074 := by decide +kernel
  have hMost : 2 ^ 53 * 2 ^ 2045 * Nat.pow 5 1074 ≤ 10 ^ 1383 := by decide +kernel
  unfold exact
  dsimp only
  generalize Nat.pow 5 1074 = fives at *
  have hFives : 0 < fives := Nat.lt_of_lt_of_le (Nat.pow_pos (by decide)) hLeast
  rw [lt_length_digits_iff (Nat.mul_pos hUnits hFives), length_digits_le_iff (by decide)]
  constructor
  · exact Nat.le_trans hLeast (Nat.le_mul_of_pos_left _ hUnits)
  · exact Nat.lt_of_lt_of_le (Nat.mul_lt_mul_of_pos_right hBound hFives) hMost

theorem rank_exact (hPos : 0 < rank) (hFinite : rank < infinityRank) :
    (exact rank).rank = rank := by
  have hRatio : nearestRank ((exact rank).fraction unitsPerOne).1
      ((exact rank).fraction unitsPerOne).2 = rank := by
    unfold exact unitsPerOne
    generalize hPower : (1074 : Nat) = power
    have hExponent : (-1074 : Int) = -power := by omega
    rw [nearestRank_fives (rankUnits rank) hExponent]
    exact nearestRank_rankUnits (Nat.le_of_lt hFinite)
  rcases length_digits_exact hPos hFinite with ⟨hLow, hHigh⟩
  have hExponent : (exact rank).exponent = -1074 := rfl
  have hDigits : (exact rank).digits ≠ 0 := by
    intro hZero
    rw [hZero] at hLow
    exact absurd hLow (by decide)
  unfold Decimal.rank
  dsimp only
  rw [hExponent, if_neg (by simp [hDigits]; omega), if_neg (by omega)]
  exact hRatio

theorem rank_shortest (tie : Tie) (hPos : 0 < rank) (hFinite : rank < infinityRank) :
    (shortest tie rank).rank = rank := by
  unfold shortest
  dsimp only
  rw [rank_strip]
  cases hFound : (List.range 17).findSome? fun (n : Nat) =>
      onGrid? tie rank (leadingPower (rankUnits rank) unitsPerOne - n) with
  | none => exact rank_exact hPos hFinite
  | some d =>
      rcases List.exists_of_findSome?_eq_some hFound with ⟨n, _, hGrid⟩
      exact rank_onGrid? hGrid

end Decimal
end LayerAxes
