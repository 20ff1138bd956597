import LayerAxes.Proofs.Time.Expression
import Mathlib.Algebra.Order.BigOperators.Group.List

/-!
# What durations stand for

A text with room for its milliseconds is read just if it is the text of an
expression with not too many months that is not empty; its parts are then the exact
sums over the items.

An amount of seconds is a binary number, and so is its product with a thousand.  Where
the product is exact, the milliseconds are the whole number nearest to it.  Else the
product is off by up to a 2^53rd part of itself, and the milliseconds are off by as much
beyond the half that rounding takes.
-/

namespace LayerAxes
namespace Duration

/-!
# Seconds
-/

namespace Seconds

open Binary64

def error (x : Seconds) (m : Nat) : Nat :=
  (((m * unitsPerOne : Nat) : Int) - (1000 * x.amount.units : Nat)).natAbs

def IsNearest (x : Seconds) (m : Nat) : Prop :=
  forall k, x.error m ≤ x.error k

/-- Off by no more than one half and the 2^53rd part of the exact milliseconds. -/
def IsClose (x : Seconds) (m : Nat) : Prop :=
  2 ^ 53 * (2 * x.error m) ≤ 2 ^ 53 * unitsPerOne + 2 * (1000 * x.amount.units)

variable {x : Seconds}

theorem isNearest_of_le {m : Nat} (h : 2 * x.error m ≤ unitsPerOne) : x.IsNearest m := by
  intro k
  unfold error at h ⊢
  rcases Nat.lt_trichotomy k m with hLess | rfl | hMore
  · have hUnit : (k + 1) * unitsPerOne ≤ m * unitsPerOne := Nat.mul_le_mul_right _ hLess
    rw [Nat.add_one_mul k unitsPerOne] at hUnit
    omega
  · exact Nat.le_refl _
  · have hUnit : (m + 1) * unitsPerOne ≤ k * unitsPerOne := Nat.mul_le_mul_right _ hMore
    rw [Nat.add_one_mul m unitsPerOne] at hUnit
    omega

theorem round_distance (x : Seconds) :
    2 * (((x.millis * unitsPerOne : Nat) : Int) - x.product.units).natAbs ≤ unitsPerOne := by
  have hPositive := unitsPerOne_pos
  have hParts := Nat.div_add_mod (2 * x.product.units + unitsPerOne) (2 * unitsPerOne)
  have hRest := Nat.mod_lt (2 * x.product.units + unitsPerOne) (Nat.mul_pos two_pos hPositive)
  rw [← millis_eq, Nat.mul_assoc, Nat.mul_comm unitsPerOne] at hParts
  omega

theorem isFinite_product (h : x.millis ≤ maxMillis) : x.product.isFinite = true := by
  have hNotNaN := rank_le_of_isNaN_eq_false x.isNaN_product
  have hNotInfinite : x.product.rank ≠ infinityRank := fun hRank =>
    Nat.not_lt.mpr h (maxMillis_lt_of_isInfinite (beq_iff_eq.mpr hRank))
  exact decide_eq_true (Nat.lt_of_le_of_ne hNotNaN hNotInfinite)

theorem isClose_millis (h : x.millis ≤ maxMillis) : x.IsClose x.millis := by
  have hRound := x.round_distance
  have hProduct := units_mul_ofInt_distance (n := 1000) x.finite (by decide)
    (isFinite_product h)
  change 2 ^ 53 * ((x.product.units : Int) - (1000 * x.amount.units : Nat)).natAbs ≤ _ at hProduct
  unfold IsClose error
  omega

theorem isNearest_millis {y : Binary64} (hFinite : y.isFinite = true)
    (hExact : y.units = 1000 * x.amount.units) : x.IsNearest x.millis := by
  have hRound := x.round_distance
  have hProduct : x.product.units = 1000 * x.amount.units :=
    units_mul_ofInt_of_exact x.finite (by decide) hFinite hExact
  rw [hProduct] at hRound
  exact isNearest_of_le hRound

end Seconds

/-!
# Sums without overflow
-/

theorem isZero_eq_false_iff {d : Duration} :
    d.isZero = false <-> d.months ≠ 0 ∨ d.millis.toInt ≠ 0 := by
  unfold isZero
  rw [Bool.and_eq_false_iff, beq_eq_false_iff_ne, beq_eq_false_iff_ne, Ne.eq_def d.millis,
    ← Int64.toInt_inj]
  rfl

namespace Expression

variable {e : Expression}

theorem share_millis_le {share : Share} (h : share ∈ e.shares) : share.millis ≤ e.millis :=
  List.le_sum_of_mem (List.mem_map_of_mem h)

theorem countedOf_shares (h : e.millis ≤ maxMillis) : countedOf e.shares = e.millis := by
  have hCounted : e.shares.map Share.counted = e.shares.map Share.millis := by
    apply List.map_congr_left
    intro share hShare
    exact Nat.min_eq_left (Nat.le_trans (share_millis_le hShare) h)
  exact congrArg List.sum hCounted

theorem seconds_millis_le {x : Seconds} (hx : .seconds x ∈ e.time) : x.millis ≤ e.millis :=
  share_millis_le (List.mem_append_right _ (List.mem_map_of_mem hx))

end Expression

/--
A text whose milliseconds fit in a word is read just if it follows the grammar, has not
too many months and is not empty.  Its parts are the exact sums of its items, and for
seconds the sum takes the nearest number of milliseconds, up to the error of one product.
-/
theorem reading_follows_grammar {s : String}
    (hFits : forall e : Expression, e.chars = s.toList -> e.millis ≤ maxMillis) :
    (forall d, parse? s = some d <->
      exists e : Expression, e.chars = s.toList ∧ e.months ≤ wholeLimit ∧
        (e.months ≠ 0 ∨ e.millis ≠ 0) ∧ d.months = e.months ∧ d.millis.toInt = e.millis) ∧
      forall e : Expression, e.chars = s.toList -> forall x, .seconds x ∈ e.time ->
        x.IsClose x.millis ∧
          forall y : Binary64, y.isFinite = true -> y.units = 1000 * x.amount.units ->
            x.IsNearest x.millis := by
  constructor
  · intro d
    rw [parse?_eq_some_iff]
    apply exists_congr
    intro e
    apply and_congr_right
    intro hText
    have hMillis := hFits e hText
    have hCounted := e.countedOf_shares hMillis
    have hTotal : totalOf e.shares = ⟨e.months, Int64.ofInt e.millis⟩ := by
      unfold totalOf
      rw [hCounted]
      rfl
    have hExact := toInt_ofInt_natCast hMillis
    rw [hTotal, isZero_eq_false_iff]
    constructor
    · rintro ⟨hRoom, rfl, hSome⟩
      rw [hExact] at hSome
      exact ⟨hRoom.months_le, by simpa using hSome, rfl, hExact⟩
    · rintro ⟨hMonths, hSome, hOwn, hSpan⟩
      have hSame : d = ⟨e.months, Int64.ofInt e.millis⟩ := by
        rcases d with ⟨months, millis⟩
        rw [Duration.mk.injEq, ← Int64.toInt_inj, hExact]
        exact ⟨hOwn, hSpan⟩
      rw [hOwn, hSpan]
      exact ⟨⟨hMonths, hCounted ▸ hMillis⟩, hSame, by simpa using hSome⟩
  · intro e hText x hx
    have hMillis : x.millis ≤ maxMillis := Nat.le_trans (e.seconds_millis_le hx) (hFits e hText)
    exact ⟨Seconds.isClose_millis hMillis, fun _ hFinite hExact =>
      Seconds.isNearest_millis hFinite hExact⟩

def Seconds.sixAndHalf : Seconds where
  chars := ['6', '.', '5']
  letterless := by decide
  amount := ⟨false, 0x401A000000000000, by decide⟩
  read := by decide +kernel
  finite := by decide
  zero_le := by decide

def Expression.everyUnit : Expression where
  date := [
    ⟨⟨['1'], by decide, by decide, by decide⟩, .year⟩,
    ⟨⟨['2'], by decide, by decide, by decide⟩, .month⟩,
    ⟨⟨['3'], by decide, by decide, by decide⟩, .day⟩]
  time := [
    .clock ⟨['4'], by decide, by decide, by decide⟩ .hour,
    .clock ⟨['5'], by decide, by decide, by decide⟩ .minute,
    .seconds Seconds.sixAndHalf]
  some_item := .inl (List.cons_ne_nil _ _)

theorem every_unit_is_read :
    (forall e : Expression, e.chars = "P1Y2M3DT4H5M6.5S".toList -> e.millis ≤ maxMillis) ∧
      parse? "P1Y2M3DT4H5M6.5S" = some ⟨14, 273906500⟩ ∧
      Seconds.sixAndHalf.IsClose 6500 := by
  have hText : Expression.everyUnit.chars = "P1Y2M3DT4H5M6.5S".toList := by decide
  have hSixAndHalf : Seconds.sixAndHalf.millis = 6500 := by decide +kernel
  have hMillis : Expression.everyUnit.millis = 273906500 := by decide +kernel
  have hFits : forall e : Expression, e.chars = "P1Y2M3DT4H5M6.5S".toList ->
      e.millis ≤ maxMillis := by
    intro e he
    rw [Expression.chars_injective (he.trans hText.symm), hMillis]
    decide
  rcases reading_follows_grammar hFits with ⟨hRead, hClose⟩
  refine ⟨hFits, ?_, ?_⟩
  · apply (hRead _).mpr
    refine ⟨Expression.everyUnit, hText, by decide, Or.inl (by decide), by decide, ?_⟩
    rw [hMillis]
    rfl
  · have hOwn := (hClose _ hText Seconds.sixAndHalf (by simp [Expression.everyUnit])).1
    rwa [hSixAndHalf] at hOwn

def Seconds.inexact : Seconds where
  chars := "9007199254740994".toList
  letterless := by decide
  amount := ⟨false, 0x4340000000000001, by decide⟩
  read := by decide +kernel
  finite := by decide
  zero_le := by decide

/-- The exact milliseconds would fit in a word, but others are read. -/
theorem large_seconds_are_not_exact :
    'P' :: 'T' :: (Seconds.inexact.chars ++ ['S']) = "PT9007199254740994S".toList ∧
      Seconds.inexact.error 9007199254740994000 = 0 ∧ 9007199254740994000 ≤ maxMillis ∧
      parse? "PT9007199254740994S" = some ⟨0, 9007199254740994048⟩ ∧
      ¬ Seconds.inexact.IsNearest 9007199254740994048 := by
  have hExact : Seconds.inexact.error 9007199254740994000 = 0 := by decide +kernel
  refine ⟨by decide, hExact, by decide, by decide +kernel, ?_⟩
  intro hNearest
  have hOff : Seconds.inexact.error 9007199254740994048 ≠ 0 := by decide +kernel
  exact hOff (Nat.eq_zero_of_le_zero (hExact ▸ hNearest 9007199254740994000))

end Duration
end LayerAxes
