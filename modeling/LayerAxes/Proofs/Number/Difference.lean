import LayerAxes.Proofs.Number.Order
import LayerAxes.Proofs.Number.Rounding

/-!
# Differences of numbers

A number stands for a whole multiple of the least positive one, and for a single
place: only the two zeros are the same multiple.  A difference is rounded once, and
what is rounded is at least the least positive number unless the places are equal.
So the difference between a number and a finite one is a number, and it is zero
only between equal numbers.

Integers below 2^53 need no rounding, and all others are rounded in their order.
-/

namespace LayerAxes
namespace Binary64

/-!
# Numbers as multiples
-/

section

variable {x y : Binary64}

theorem rankUnits_eq_zero_iff {rank : Nat} : rankUnits rank = 0 <-> rank = 0 := by
  constructor
  · intro hUnits
    by_contra hRank
    exact Nat.ne_of_gt (rankUnits_pos (Nat.pos_of_ne_zero hRank)) hUnits
  · rintro rfl
    rfl

theorem units_eq_iff (hx : x.isNaN = false) (hy : y.isNaN = false) :
    x.units = y.units <-> x.rank = y.rank := by
  constructor
  · intro hUnits
    calc
      x.rank = nearestRank x.units 1 :=
        (nearestRank_rankUnits (rank_le_of_isNaN_eq_false hx)).symm
      _ = nearestRank y.units 1 := by rw [hUnits]
      _ = y.rank := nearestRank_rankUnits (rank_le_of_isNaN_eq_false hy)
  · exact congrArg rankUnits

theorem signedUnits_eq_iff (hx : x.isNaN = false) (hy : y.isNaN = false) :
    x.signedUnits = y.signedUnits <-> x.place = y.place := by
  have hUnits := units_eq_iff hx hy
  have hxZero : x.units = 0 <-> x.rank = 0 := rankUnits_eq_zero_iff
  have hyZero : y.units = 0 <-> y.rank = 0 := rankUnits_eq_zero_iff
  unfold signedUnits place
  cases x.negative <;> cases y.negative <;> simp only [if_true, Bool.false_eq_true, if_false] <;>
    omega

theorem signedUnits_neg (y : Binary64) : (-y).signedUnits = -y.signedUnits := by
  show (if !y.negative then -(y.units : Int) else y.units) =
    -(if y.negative then -(y.units : Int) else y.units)
  cases y.negative with
  | false => rfl
  | true => exact (Int.neg_neg _).symm

end

/-!
# Differences
-/

theorem nearestRank_pos {n : Nat} (h : 0 < n) : 0 < nearestRank n 1 := by
  have hInfinity : 0 < infinityRank := by decide
  have hRank : 0 < (n.log2 - 52) * binadeSize + roundHalfEven n (2 ^ (n.log2 - 52)) := by
    by_cases hShort : n.log2 - 52 = 0
    · have hExact := roundHalfEven_mul_self n Nat.one_pos
      rw [Nat.mul_one] at hExact
      rw [hShort, pow_zero, hExact]
      exact Nat.add_pos_right _ h
    · exact Nat.add_pos_left (Nat.mul_pos (Nat.pos_of_ne_zero hShort) (by decide)) _
  unfold nearestRank
  dsimp only
  rw [Nat.div_one, Nat.one_mul, Nat.pow_eq]
  exact Nat.lt_min.mpr ⟨hInfinity, hRank⟩

theorem isNaN_ofUnits (negative : Bool) (num den : Nat) :
    (ofUnits negative num den).isNaN = false :=
  decide_eq_false (Nat.not_lt.mpr (Nat.min_le_left _ _))

section

variable {x y : Binary64}

theorem sub_cases (hx : x.isNaN = false) (hy : y.isFinite = true) :
    (x.isInfinite = true ∧ x - y = x) ∨
      (x.signedUnits = y.signedUnits ∧ exists negative, x - y = zero.withSign negative) ∨
      (x.signedUnits ≠ y.signedUnits ∧ exists negative,
        x - y = ofUnits negative (x.signedUnits - y.signedUnits).natAbs 1) := by
  have hyNumber : (-y).isNaN = false := isNaN_of_isFinite hy
  have hyBelow : (-y).isInfinite = false :=
    beq_eq_false_iff_ne.mpr (Nat.ne_of_lt (of_decide_eq_true hy))
  have hSum : x.signedUnits + (-y).signedUnits = x.signedUnits - y.signedUnits := by
    rw [signedUnits_neg, ← Int.sub_eq_add_neg]
  show (_ ∧ add x (-y) = x) ∨ (_ ∧ exists negative, add x (-y) = _) ∨
    (_ ∧ exists negative, add x (-y) = _)
  unfold add
  rw [hx, hyNumber, hyBelow, hSum]
  cases hInfinite : x.isInfinite with
  | true => exact Or.inl ⟨rfl, rfl⟩
  | false =>
      by_cases hSame : x.signedUnits = y.signedUnits
      · have hZero : x.signedUnits - y.signedUnits = 0 := Int.sub_eq_zero.mpr hSame
        rw [hZero]
        exact Or.inr (Or.inl ⟨hSame, _, rfl⟩)
      · have hNonzero : x.signedUnits - y.signedUnits ≠ 0 := fun h => hSame (Int.sub_eq_zero.mp h)
        refine Or.inr (Or.inr ⟨hSame, decide (x.signedUnits - y.signedUnits < 0), ?_⟩)
        exact if_neg hNonzero

theorem isNaN_sub (hx : x.isNaN = false) (hy : y.isFinite = true) : (x - y).isNaN = false := by
  rcases sub_cases hx hy with ⟨_, hSub⟩ | ⟨_, _, hSub⟩ | ⟨_, _, hSub⟩
  · rw [hSub]
    exact hx
  · rw [hSub]
    rfl
  · rw [hSub]
    exact isNaN_ofUnits _ _ _

theorem isNaN_sub_of_isNaN (hx : x.isNaN = true) (y : Binary64) : (x - y).isNaN = true := by
  show (add x (-y)).isNaN = true
  unfold add
  rw [hx]
  rfl

theorem zero_lt_abs_sub (hx : x.isNaN = false) (hy : y.isFinite = true)
    (h : x.place ≠ y.place) : zero < (x - y).abs := by
  have hRank : 0 < (x - y).rank := by
    rcases sub_cases hx hy with ⟨hInfinite, hSub⟩ | ⟨hSame, _⟩ | ⟨hDiffer, _, hSub⟩
    · rw [hSub, beq_iff_eq.mp hInfinite]
      decide
    · exact absurd ((signedUnits_eq_iff hx (isNaN_of_isFinite hy)).mp hSame) h
    · rw [hSub]
      exact nearestRank_pos (Int.natAbs_pos.mpr fun hZero => hDiffer (Int.sub_eq_zero.mp hZero))
  exact ⟨rfl, isNaN_sub hx hy, Int.natCast_pos.mpr hRank⟩

end

/-!
# Integers
-/

theorem rankUnits_binade {m e : Nat} (hLow : binadeSize ≤ m) (hHigh : m < 2 * binadeSize) :
    rankUnits (e * binadeSize + m) = m * 2 ^ e := by
  have hSize : 0 < binadeSize := by decide
  have hRank : e * binadeSize + m = (m - binadeSize) + binadeSize * (e + 1) := by
    rw [Nat.mul_add, Nat.mul_one, Nat.mul_comm binadeSize e]
    omega
  have hPlace : m - binadeSize < binadeSize := by omega
  rw [rankUnits_eq (Nat.le_trans hLow (Nat.le_add_left _ _)), hRank, Nat.add_mul_mod_self_left,
    Nat.mod_eq_of_lt hPlace, Nat.add_mul_div_left _ _ hSize, Nat.div_eq_of_lt hPlace,
    Nat.zero_add, Nat.add_sub_cancel, Nat.add_sub_cancel' hLow]

theorem unitsPerOne_eq {power : Nat} (h : 1074 = power) : unitsPerOne = 2 ^ power := by
  unfold unitsPerOne
  rw [h, Nat.pow_eq]

theorem unitsPerOne_pos : 0 < unitsPerOne := by
  generalize hPower : 1074 = power
  rw [unitsPerOne_eq hPower]
  exact Nat.two_pow_pos power

theorem exists_rank_of_lt {n : Nat} (h : n < 2 ^ 53) :
    exists rank, rank < infinityRank ∧ rankUnits rank = n * unitsPerOne := by
  by_cases hZero : n = 0
  · exact ⟨0, by decide, by rw [hZero, Nat.zero_mul]; rfl⟩
  · have hBits : n.log2 < 53 := (Nat.log2_lt hZero).mpr h
    have hSize : binadeSize = 2 ^ 52 := rfl
    have hLeast : 2 ^ n.log2 * 2 ^ (52 - n.log2) = binadeSize := by
      rw [← pow_add, hSize, Nat.add_sub_cancel' (Nat.le_of_lt_succ hBits)]
    have hLow : binadeSize ≤ n * 2 ^ (52 - n.log2) := by
      rw [← hLeast]
      exact Nat.mul_le_mul_right _ (Nat.log2_self_le hZero)
    have hHigh : n * 2 ^ (52 - n.log2) < 2 * binadeSize := by
      rw [← hLeast, ← Nat.mul_assoc, ← pow_succ']
      exact Nat.mul_lt_mul_of_pos_right Nat.lt_log2_self (Nat.two_pow_pos _)
    have hUnits : unitsPerOne = 2 ^ (52 - n.log2) * 2 ^ (1022 + n.log2) := by
      rw [← pow_add]
      exact unitsPerOne_eq (by omega)
    refine ⟨(1022 + n.log2) * binadeSize + n * 2 ^ (52 - n.log2), ?_, ?_⟩
    · have hBinade : (1022 + n.log2) * binadeSize ≤ 1074 * binadeSize :=
        Nat.mul_le_mul_right _ (by omega)
      have hTop : 1076 * binadeSize < infinityRank := by decide
      omega
    · rw [rankUnits_binade hLow hHigh, hUnits, Nat.mul_assoc]

theorem ofInt_exact {n : Int} (h : n.natAbs < 2 ^ 53) :
    (ofInt n).isFinite = true ∧ (ofInt n).signedUnits = n * unitsPerOne := by
  rcases exists_rank_of_lt h with ⟨rank, hFinite, hUnits⟩
  have hRank : (ofInt n).rank = rank := by
    show nearestRank (n.natAbs * unitsPerOne) 1 = rank
    rw [← hUnits, nearestRank_rankUnits (Nat.le_of_lt hFinite)]
  have hSize : (ofInt n).units = n.natAbs * unitsPerOne := by
    unfold units
    rw [hRank, hUnits]
  constructor
  · rw [← hRank] at hFinite
    exact decide_eq_true hFinite
  · show (if decide (n < 0) then -((ofInt n).units : Int) else (ofInt n).units) = _
    rw [hSize, Nat.cast_mul]
    by_cases hNegative : n < 0
    · rw [decide_eq_true hNegative, if_pos rfl, ← Int.neg_mul,
        Int.ofNat_natAbs_of_nonpos (Int.le_of_lt hNegative), Int.neg_neg]
    · rw [decide_eq_false hNegative, if_neg Bool.false_ne_true,
        Int.natAbs_of_nonneg (Int.not_lt.mp hNegative)]

theorem place_ofInt_eq_iff {m n : Int} (hm : m.natAbs < 2 ^ 53) (hn : n.natAbs < 2 ^ 53) :
    (ofInt m).place = (ofInt n).place <-> m = n := by
  rcases ofInt_exact hm with ⟨hmFinite, hmUnits⟩
  rcases ofInt_exact hn with ⟨hnFinite, hnUnits⟩
  have hPositive : (unitsPerOne : Int) ≠ 0 := Nat.cast_ne_zero.mpr (Nat.ne_of_gt unitsPerOne_pos)
  rw [← signedUnits_eq_iff (isNaN_of_isFinite hmFinite) (isNaN_of_isFinite hnFinite), hmUnits,
    hnUnits]
  exact Int.mul_eq_mul_right_iff hPositive

theorem rank_ofInt_mono {m n : Int} (h : m.natAbs ≤ n.natAbs) : (ofInt m).rank ≤ (ofInt n).rank :=
  nearestRank_mono 1 (Nat.mul_le_mul_right unitsPerOne h)

theorem totalPlace_ofInt (n : Int) :
    (ofInt n).totalPlace = if n < 0 then -((ofInt n).rank : Int) - 1 else (ofInt n).rank := by
  show (if decide (n < 0) then _ else _) = _
  simp only [decide_eq_true_eq]

theorem isLE_compare_ofInt {m n : Int} (h : m ≤ n) :
    (compare (ofInt m) (ofInt n)).isLE = true := by
  show (compare (ofInt m).totalPlace (ofInt n).totalPlace).isLE = true
  rw [Std.isLE_compare, totalPlace_ofInt, totalPlace_ofInt]
  by_cases hNegative : n < 0
  · have hRank := rank_ofInt_mono (m := n) (n := m) (by omega)
    rw [if_pos (Int.lt_of_le_of_lt h hNegative), if_pos hNegative]
    omega
  · rw [if_neg hNegative]
    by_cases hSign : m < 0
    · rw [if_pos hSign]
      omega
    · have hRank := rank_ofInt_mono (m := m) (n := n) (by omega)
      rw [if_neg hSign]
      omega

/-- Integers compare as the numbers that they are rounded to, unless these are the same. -/
theorem compare_ofInt_cases (m n : Int) :
    compare (ofInt m) (ofInt n) = compare m n ∨ (m ≠ n ∧ ofInt m = ofInt n) := by
  have hTie : forall {a b : Int}, a ≤ b -> ofInt a ≠ ofInt b ->
      compare (ofInt a) (ofInt b) = .lt := by
    intro a b hOrdered hApart
    rcases Ordering.isLE_iff_eq_lt_or_eq_eq.mp (isLE_compare_ofInt hOrdered) with hLess | hEqual
    · exact hLess
    · exact absurd (Std.LawfulEqOrd.eq_of_compare hEqual) hApart
  by_cases hApart : ofInt m = ofInt n
  · by_cases hSame : m = n
    · rw [hSame]
      exact Or.inl (Std.ReflOrd.compare_self.trans Std.ReflOrd.compare_self.symm)
    · exact Or.inr ⟨hSame, hApart⟩
  · refine Or.inl ?_
    rcases Int.lt_trichotomy m n with hLess | rfl | hGreater
    · rw [hTie (Int.le_of_lt hLess) hApart, Std.compare_eq_lt.mpr hLess]
    · exact absurd rfl hApart
    · rw [Std.OrientedOrd.eq_swap, hTie (Int.le_of_lt hGreater) (Ne.symm hApart),
        Std.compare_eq_gt.mpr hGreater]
      rfl

end Binary64

theorem Timestamp.natAbs_millis_lt (t : Timestamp) : t.millis.natAbs < 2 ^ 53 := by
  rcases t.valid with ⟨hFirst, hLast, hNanos, _⟩
  unfold firstSecond at hFirst
  unfold lastSecond at hLast
  unfold nanosPerSecond at hNanos
  unfold millis
  omega

end LayerAxes
