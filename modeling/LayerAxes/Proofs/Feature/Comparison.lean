import LayerAxes.Proofs.Number.Difference
import LayerAxes.Proofs.Order.Row

/-!
# Filters and sorting

Filters compare two integers exactly, whereas sorting compares the numbers that they
are rounded to.  Everything else is compared in the same way by both.  As rounding
keeps the order, the two never contradict each other: at worst, sorting takes two
integers for equal that a filter tells apart.  Such integers have more than 53 bits.
-/

namespace LayerAxes

open Std

namespace Attribute

/-- Different integers that are rounded to one number. -/
def Merges : Attribute -> Attribute -> Prop
  | integer m, integer n => m ≠ n ∧ Binary64.ofInt m = Binary64.ofInt n
  | _, _ => False

theorem not_merges_of_natAbs_lt {m n : Int} (hm : m.natAbs < 2 ^ 53) (hn : n.natAbs < 2 ^ 53) :
    ¬ (integer m).Merges (integer n) := by
  rintro ⟨hApart, hNumber⟩
  exact hApart ((Binary64.place_ofInt_eq_iff hm hn).mp (congrArg Binary64.place hNumber))

/-!
# The two comparisons
-/

section

variable {a b : Attribute} {o : Ordering}

theorem totalCompare_of_value? {v w : Value} (ha : a.value? = some v) (hb : b.value? = some w) :
    a.totalCompare b = compare v w := by
  unfold totalCompare
  split
  · cases ha
  · rw [ha, hb]

theorem totalCompare_integers (m n : Int) :
    (integer m).totalCompare (integer n) = compare (Binary64.ofInt m) (Binary64.ofInt n) :=
  Extent.compareBounds_instant (Binary64.ofInt m) (Binary64.ofInt n)

theorem compare?_cases (h : a.compare? b = some o) :
    (exists m n, a = integer m ∧ b = integer n ∧ compare m n = o) ∨
      (a.totalCompare b = o ∧ ¬ a.Merges b) := by
  unfold compare? at h
  split at h
  · exact Or.inr ⟨Option.some.inj h, False.elim⟩
  · exact Or.inl ⟨_, _, rfl, rfl, Option.some.inj h⟩
  · rename_i hNotIntegers
    refine Or.inr ⟨?_, ?_⟩
    · split at h
      · rename_i v w ha hb
        rw [totalCompare_of_value? ha hb]
        exact (Value.compareSameKind?_eq_some_iff.mp h).2
      · cases h
    · intro hMerges
      unfold Merges at hMerges
      split at hMerges
      · exact hNotIntegers _ _ rfl rfl
      · exact hMerges

theorem totalCompare_cases_of_compare?_eq_some (h : a.compare? b = some o) :
    (a.totalCompare b = o ∧ ¬ a.Merges b) ∨
      (a.totalCompare b = .eq ∧ o ≠ .eq ∧ a.Merges b) := by
  rcases compare?_cases h with ⟨m, n, rfl, rfl, hExact⟩ | hAlike
  · rw [totalCompare_integers]
    by_cases hMerges : (integer m).Merges (integer n)
    · refine Or.inr ⟨?_, ?_, hMerges⟩
      · rw [hMerges.2]
        exact ReflOrd.compare_self
      · rw [← hExact]
        exact fun hEqual => hMerges.1 (LawfulEqOrd.eq_of_compare hEqual)
    · refine Or.inl ⟨?_, hMerges⟩
      rw [(Binary64.compare_ofInt_cases m n).resolve_right hMerges, hExact]
  · exact Or.inl hAlike

end

end Attribute

/-!
# Sorted columns
-/

theorem compareRows_ascending {a b : Feature} {property : String} {x y : Attribute}
    (hx : a.present? property = some x) (hy : b.present? property = some y) :
    compareRows [⟨property, .ascending⟩] a b = x.totalCompare y := by
  show (SortKey.compareRows _ a b).then .eq = _
  rw [SortKey.compareRows_eq, hx, hy]
  show (x.totalCompare y).then .eq = x.totalCompare y
  cases x.totalCompare y <;> rfl

theorem Filter.exists_of_evaluate_less {row : Feature} {property : String} {x : Attribute}
    (h : evaluate row (.compare property .less x) = true) :
    exists y, row.present? property = some y ∧ y.compare? x = some .lt := by
  rw [evaluate] at h
  split at h
  · rename_i y hy
    refine ⟨y, hy, ?_⟩
    unfold holds at h
    split at h
    · rename_i o hCompare
      cases o with
      | lt => exact hCompare
      | eq => cases h
      | gt => cases h
    · cases h
  · cases h

/--
Sorting answers what a filter answers, except that it takes integers for equal that
are rounded to one number.  So a row in a sorted column is less than one before it,
as filters compare, only if the two hold such integers.
-/
theorem sorting_follows_filters_iff (a b : Attribute) (property : String) (rows : List Feature) :
    (forall o, a.compare? b = some o ->
      (a.totalCompare b = o <-> ¬ a.Merges b) ∧ (a.Merges b -> a.totalCompare b = .eq)) ∧
    (forall m n : Int, m.natAbs < 2 ^ 53 -> n.natAbs < 2 ^ 53 ->
      ¬ Attribute.Merges (.integer m) (.integer n)) ∧
    (sortRows [⟨property, .ascending⟩] rows).Pairwise fun earlier later =>
      forall x, earlier.present? property = some x ->
        Filter.evaluate later (.compare property .less x) = true ->
        exists y, later.present? property = some y ∧ y.Merges x := by
  refine ⟨?_, fun m n => Attribute.not_merges_of_natAbs_lt, ?_⟩
  · intro o h
    rcases Attribute.totalCompare_cases_of_compare?_eq_some h with
      ⟨hAlike, hNot⟩ | ⟨hTie, hApart, hMerges⟩
    · exact ⟨⟨fun _ => hNot, fun _ => hAlike⟩, fun hMerges => absurd hMerges hNot⟩
    · refine ⟨⟨fun hAlike => ?_, fun hNot => absurd hMerges hNot⟩, fun _ => hTie⟩
      exact absurd (hAlike.symm.trans hTie) hApart
  · refine (stableOrder_sortRows _ rows).ordered.imp ?_
    intro earlier later hOrdered x hx hLess
    rcases Filter.exists_of_evaluate_less hLess with ⟨y, hy, hCompare⟩
    refine ⟨y, hy, ?_⟩
    rcases Attribute.totalCompare_cases_of_compare?_eq_some hCompare with
      ⟨hBefore, _⟩ | ⟨_, _, hMerges⟩
    · have hAfter : compareRows [⟨property, .ascending⟩] earlier later = .gt := by
        rw [OrientedCmp.gt_iff_lt, compareRows_ascending hy hx]
        exact hBefore
      rw [hAfter] at hOrdered
      cases hOrdered
    · exact hMerges

def largeCounts : List Feature :=
  [⟨"second", [("count", .integer 9007199254740993)]⟩,
    ⟨"first", [("count", .integer 9007199254740992)]⟩]

/-- The first integer of 54 bits and the next one are rounded to the same number. -/
theorem large_integers_keep_table_order :
    Attribute.compare? (.integer 9007199254740992) (.integer 9007199254740993) = some .lt ∧
      Attribute.totalCompare (.integer 9007199254740992) (.integer 9007199254740993) = .eq ∧
      sortRows [⟨"count", .ascending⟩] largeCounts = largeCounts ∧
      largeCounts.map (fun row =>
        Filter.evaluate row (.compare "count" .less (.integer 9007199254740993))) =
          [false, true] := by
  have hOrdered : largeCounts.Pairwise fun a b =>
      (compareRows [⟨"count", .ascending⟩] a b).isLE = true := by
    decide +kernel
  refine ⟨by decide, by decide +kernel, List.mergeSort_of_pairwise hOrdered, by decide⟩

end LayerAxes
