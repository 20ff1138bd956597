import LayerAxes.Number.Arithmetic
import Mathlib.Tactic.Ring

/-!
# Rounding

What a quotient is rounded to depends on its value alone and grows with it, and a
number of any rank up to the infinite one is rounded to itself.
-/

namespace LayerAxes
namespace Binary64

/-!
# Quotients
-/

theorem roundHalfEven_mul_right (num den : Nat) {k : Nat} (hk : 0 < k) :
    roundHalfEven (num * k) (den * k) = roundHalfEven num den := by
  unfold roundHalfEven
  dsimp only
  rw [Nat.mul_div_mul_right num den hk, Nat.mul_mod_mul_right, ← Nat.mul_assoc]
  simp only [Nat.mul_lt_mul_right hk]

theorem roundHalfEven_mul_self (num : Nat) {k : Nat} (hk : 0 < k) :
    roundHalfEven (num * k) k = num := by
  have hOne : roundHalfEven num 1 = num := by
    simp [roundHalfEven, Nat.mod_one]
  have hScaled := roundHalfEven_mul_right num 1 hk
  rw [Nat.one_mul, hOne] at hScaled
  exact hScaled

theorem nearestRank_mul_right (num den : Nat) {k : Nat} (hk : 0 < k) :
    nearestRank (num * k) (den * k) = nearestRank num den := by
  unfold nearestRank
  dsimp only
  rw [Nat.mul_div_mul_right num den hk, Nat.mul_right_comm den k, roundHalfEven_mul_right _ _ hk]

theorem nearestRank_congr {num den num' den' : Nat} (hDen : 0 < den) (hDen' : 0 < den')
    (h : num * den' = num' * den) : nearestRank num den = nearestRank num' den' := by
  calc
    nearestRank num den = nearestRank (num * den') (den * den') :=
      (nearestRank_mul_right num den hDen').symm
    _ = nearestRank (num' * den) (den' * den) := by
      rw [h, Nat.mul_comm den]
    _ = nearestRank num' den' := nearestRank_mul_right num' den' hDen

/-!
# Rounding keeps the order
-/

theorem le_roundHalfEven (num den : Nat) : num / den ≤ roundHalfEven num den := by
  unfold roundHalfEven
  dsimp only
  split
  · exact Nat.le_refl _
  · split
    · exact Nat.le_succ _
    · exact Nat.le_add_right _ _

theorem roundHalfEven_le_succ (num den : Nat) : roundHalfEven num den ≤ num / den + 1 := by
  unfold roundHalfEven
  dsimp only
  split
  · exact Nat.le_succ _
  · split
    · exact Nat.le_refl _
    · exact Nat.add_le_add_left (Nat.le_of_lt_succ (Nat.mod_lt _ Nat.two_pos)) _

section

variable {num num' : Nat} (den : Nat)

theorem roundHalfEven_mono (h : num ≤ num') : roundHalfEven num den ≤ roundHalfEven num' den := by
  rcases Nat.lt_or_eq_of_le (Nat.div_le_div_right (c := den) h) with hLess | hSame
  · calc
      roundHalfEven num den ≤ num / den + 1 := roundHalfEven_le_succ num den
      _ ≤ num' / den := hLess
      _ ≤ roundHalfEven num' den := le_roundHalfEven num' den
  · have hRest : num % den ≤ num' % den := by
      have hParts := Nat.div_add_mod num den
      have hParts' := Nat.div_add_mod num' den
      rw [hSame] at hParts
      omega
    unfold roundHalfEven
    dsimp only
    rw [hSame]
    split_ifs <;> omega

theorem roundHalfEven_shifted_le (num den : Nat) :
    roundHalfEven num (den * 2 ^ ((num / den).log2 - 52)) ≤ 2 * binadeSize := by
  have hSize : 2 * binadeSize = 2 ^ 53 := rfl
  have hBits : num / den < 2 ^ 53 * 2 ^ ((num / den).log2 - 52) := by
    rw [← pow_add]
    exact Nat.lt_of_lt_of_le Nat.lt_log2_self (Nat.pow_le_pow_right Nat.two_pos (by omega))
  have hShort : num / (den * 2 ^ ((num / den).log2 - 52)) < 2 ^ 53 := by
    rw [← Nat.div_div_eq_div_mul]
    exact Nat.div_lt_of_lt_mul (by rwa [Nat.mul_comm])
  rw [hSize]
  exact Nat.le_trans (roundHalfEven_le_succ _ _) hShort

theorem le_roundHalfEven_shifted (h : 0 < (num / den).log2 - 52) :
    binadeSize ≤ roundHalfEven num (den * 2 ^ ((num / den).log2 - 52)) := by
  have hSize : binadeSize = 2 ^ 52 := rfl
  have hNonzero : num / den ≠ 0 := by
    intro hZero
    rw [hZero] at h
    exact absurd h (by decide)
  have hBits : 2 ^ 52 * 2 ^ ((num / den).log2 - 52) ≤ num / den := by
    rw [← pow_add, Nat.add_sub_cancel' (by omega)]
    exact Nat.log2_self_le hNonzero
  refine Nat.le_trans ?_ (le_roundHalfEven _ _)
  rw [← Nat.div_div_eq_div_mul, hSize, Nat.le_div_iff_mul_le (Nat.two_pow_pos _)]
  exact hBits

theorem nearestRank_mono (h : num ≤ num') : nearestRank num den ≤ nearestRank num' den := by
  have hShift : (num / den).log2 - 52 ≤ (num' / den).log2 - 52 := by
    apply Nat.sub_le_sub_right
    by_cases hZero : num / den = 0
    · rw [hZero]
      exact Nat.zero_le _
    · have hQuotient : num / den ≤ num' / den := Nat.div_le_div_right h
      have hPositive := Nat.lt_of_lt_of_le (Nat.pos_of_ne_zero hZero) hQuotient
      rw [Nat.le_log2 (Nat.ne_of_gt hPositive)]
      exact Nat.le_trans (Nat.log2_self_le hZero) hQuotient
  unfold nearestRank
  dsimp only
  rw [Nat.pow_eq, Nat.pow_eq]
  refine min_le_min_left infinityRank ?_
  rcases Nat.lt_or_eq_of_le hShift with hLess | hSame
  · -- the greater quotient lies in a later binade, which begins where the earlier ones end
    have hUpper := roundHalfEven_shifted_le num den
    have hLower := le_roundHalfEven_shifted den (Nat.lt_of_le_of_lt (Nat.zero_le _) hLess)
    have hBinade := Nat.mul_le_mul_right binadeSize (Nat.succ_le_of_lt hLess)
    rw [Nat.succ_mul] at hBinade
    omega
  · rw [hSame]
    exact Nat.add_le_add_left (roundHalfEven_mono _ h) _

end

/-!
# Numbers that need no rounding
-/

theorem log2_mul_two_pow {m : Nat} (e : Nat) (hLow : 2 ^ 52 ≤ m) (hHigh : m < 2 ^ 53) :
    (m * 2 ^ e).log2 = 52 + e := by
  have hPos : 0 < m * 2 ^ e := Nat.mul_pos (by omega) (Nat.two_pow_pos e)
  rw [Nat.log2_eq_iff (Nat.ne_of_gt hPos)]
  constructor
  · rw [pow_add]
    exact Nat.mul_le_mul_right _ hLow
  · have hNext : 52 + e + 1 = 53 + e := by omega
    rw [hNext, pow_add]
    exact Nat.mul_lt_mul_of_pos_right hHigh (Nat.two_pow_pos e)

variable {rank : Nat}

theorem rankUnits_eq (h : binadeSize ≤ rank) :
    rankUnits rank = (binadeSize + rank % binadeSize) * 2 ^ (rank / binadeSize - 1) :=
  if_neg (Nat.not_lt.mpr h)

theorem nearestRank_rankUnits (h : rank ≤ infinityRank) :
    nearestRank (rankUnits rank) 1 = rank := by
  have hSize : binadeSize = 2 ^ 52 := rfl
  by_cases hFirst : rank < binadeSize
  · have hUnits : rankUnits rank = rank := if_pos hFirst
    have hLog : rank.log2 - 52 = 0 := by
      by_cases hZero : rank = 0
      · rw [hZero]
        rfl
      · rw [hSize] at hFirst
        exact Nat.sub_eq_zero_of_le (Nat.le_of_lt ((Nat.log2_lt hZero).mpr hFirst))
    have hExact := roundHalfEven_mul_self rank Nat.one_pos
    rw [Nat.mul_one] at hExact
    unfold nearestRank
    dsimp only
    rw [hUnits, Nat.div_one, hLog, Nat.zero_mul, Nat.zero_add]
    show min infinityRank (roundHalfEven rank 1) = rank
    rw [hExact]
    exact Nat.min_eq_right h
  · -- The leading bits are the place within the binade, and the shift is the binade.
    have hLater := Nat.not_lt.mp hFirst
    have hPlace : rank % binadeSize < binadeSize := Nat.mod_lt _ (by decide)
    have hLog := log2_mul_two_pow (rank / binadeSize - 1)
      (m := binadeSize + rank % binadeSize) (by omega) (by omega)
    have hBinade : 1 ≤ rank / binadeSize := (Nat.one_le_div_iff (by decide)).mpr hLater
    have hRank :
        (rank / binadeSize - 1) * binadeSize + (binadeSize + rank % binadeSize) = rank := by
      have hParts := Nat.div_add_mod rank binadeSize
      have hOne : (rank / binadeSize - 1) * binadeSize + binadeSize =
          binadeSize * (rank / binadeSize) := by
        rw [← Nat.succ_mul, Nat.mul_comm, Nat.succ_eq_add_one, Nat.sub_add_cancel hBinade]
      omega
    unfold nearestRank
    dsimp only
    rw [rankUnits_eq hLater, Nat.div_one, hLog, Nat.add_sub_cancel_left, Nat.one_mul, Nat.pow_eq,
      roundHalfEven_mul_self _ (Nat.two_pow_pos _), hRank]
    exact Nat.min_eq_right h

theorem rankUnits_pos (h : 0 < rank) : 0 < rankUnits rank := by
  by_cases hFirst : rank < binadeSize
  · rw [rankUnits, if_pos hFirst]
    exact h
  · have hSize : 0 < binadeSize := by decide
    rw [rankUnits_eq (Nat.not_lt.mp hFirst)]
    exact Nat.mul_pos (Nat.add_pos_left hSize _) (Nat.two_pow_pos _)

theorem rankUnits_lt {e : Nat} (h : rank < binadeSize * (e + 2)) :
    rankUnits rank < 2 ^ 53 * 2 ^ e := by
  by_cases hFirst : rank < binadeSize
  · rw [rankUnits, if_pos hFirst]
    have hSize : binadeSize < 2 ^ 53 := by decide
    exact Nat.lt_of_lt_of_le (Nat.lt_trans hFirst hSize)
      (Nat.le_mul_of_pos_right _ (Nat.two_pow_pos e))
  · have hLast : rank / binadeSize < e + 2 := Nat.div_lt_of_lt_mul h
    have hPlace : binadeSize + rank % binadeSize < 2 ^ 53 := by
      have hMod : rank % binadeSize < binadeSize := Nat.mod_lt _ (by decide)
      have hSize : binadeSize = 2 ^ 52 := rfl
      omega
    rw [rankUnits_eq (Nat.not_lt.mp hFirst)]
    calc
      (binadeSize + rank % binadeSize) * 2 ^ (rank / binadeSize - 1)
          < 2 ^ 53 * 2 ^ (rank / binadeSize - 1) :=
            Nat.mul_lt_mul_of_pos_right hPlace (Nat.two_pow_pos _)
      _ ≤ 2 ^ 53 * 2 ^ e :=
            Nat.mul_le_mul_left _ (Nat.pow_le_pow_right (by decide) (by omega))

end Binary64
end LayerAxes
