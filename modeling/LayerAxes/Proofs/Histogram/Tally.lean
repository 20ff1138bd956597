import LayerAxes.Dimension.Histogram
import Mathlib.Algebra.BigOperators.Group.List.Basic
import Mathlib.Algebra.GroupWithZero.Nat

/-!
# Tallies

A tally counts how many of some numbers fall on each place.  Numbers past the
last place count for the last place, so that no number is lost.
-/

namespace LayerAxes
namespace Histogram

def countAt (place : Nat -> Nat) (counts : Array Nat) (index : Nat) : Array Nat :=
  counts.modify (place index) (· + 1)

section

variable {place : Nat -> Nat} {counts : Array Nat} {indices : List Nat}

theorem size_foldl_countAt : (indices.foldl (countAt place) counts).size = counts.size := by
  induction indices generalizing counts with
  | nil => rfl
  | cons index indices ih =>
      rw [List.foldl_cons, ih]
      exact Array.size_modify

theorem getElem?_foldl_countAt (k : Nat) :
    (indices.foldl (countAt place) counts)[k]? =
      counts[k]?.map (· + indices.countP fun index => place index == k) := by
  induction indices generalizing counts with
  | nil => simp
  | cons index indices ih =>
      rw [List.foldl_cons, ih, countAt, Array.getElem?_modify, List.countP_cons]
      by_cases h : place index = k
      · simp only [h, if_true, beq_self_eq_true]
        cases counts[k]? with
        | none => rfl
        | some n => simp [Nat.add_assoc, Nat.add_comm 1]
      · simp [h]

theorem sum_modify {k : Nat} (h : k < counts.size) :
    (counts.modify k (· + 1)).toList.sum = counts.toList.sum + 1 := by
  have hCounts : counts.toList =
      counts.toList.take k ++ counts[k] :: counts.toList.drop (k + 1) := by
    rw [← Array.getElem_toList, List.cons_getElem_drop_succ, List.take_append_drop]
  rw [Array.toList_modify, List.modify_eq_take_cons_drop (by simpa using h)]
  conv_rhs => rw [hCounts]
  simp only [List.sum_append, List.sum_cons, Array.getElem_toList]
  omega

theorem sum_foldl_countAt (h : forall index, place index < counts.size) :
    (indices.foldl (countAt place) counts).toList.sum =
      counts.toList.sum + indices.length := by
  induction indices generalizing counts with
  | nil => rfl
  | cons index indices ih =>
      have hSize : (countAt place counts index).size = counts.size := Array.size_modify
      rw [List.foldl_cons, ih (by rw [hSize]; exact h), countAt, sum_modify (h index),
        List.length_cons]
      omega

theorem noCounts_eq_ok_iff {buckets : Nat} :
    noCounts buckets = .ok counts <->
      buckets ≤ roomLimit ∧ counts = Array.replicate buckets 0 := by
  unfold noCounts
  by_cases hMore : roomLimit < buckets
  · simp [if_pos hMore, Nat.not_le.mpr hMore]
  · simp [if_neg hMore, Nat.not_lt.mp hMore, eq_comm]

theorem noCounts_of_le {buckets : Nat} (h : buckets ≤ roomLimit) :
    noCounts buckets = .ok (Array.replicate buckets 0) :=
  noCounts_eq_ok_iff.mpr ⟨h, rfl⟩

end

theorem tally_eq (counts : Array Nat) (indices : List Nat) :
    tally counts indices =
      (indices.foldl (countAt fun index => min index (counts.size - 1)) counts).toList :=
  rfl

@[simp]
theorem length_tally (counts : Array Nat) (indices : List Nat) :
    (tally counts indices).length = counts.size := by
  rw [tally_eq, Array.length_toList, size_foldl_countAt]

theorem sum_tally_replicate {buckets : Nat} (hBuckets : 1 ≤ buckets) (indices : List Nat) :
    (tally (Array.replicate buckets 0) indices).sum = indices.length := by
  rw [tally_eq, sum_foldl_countAt]
  · simp
  · intro index
    rw [Array.size_replicate]
    omega

theorem tally_replicate_eq_map_countP (buckets : Nat) (indices : List Nat) :
    tally (Array.replicate buckets 0) indices = (List.range buckets).map fun k =>
      indices.countP fun index => min index (buckets - 1) == k := by
  apply List.ext_getElem?
  intro k
  rw [tally_eq, Array.getElem?_toList, getElem?_foldl_countAt, Array.size_replicate,
    List.getElem?_map]
  by_cases h : k < buckets
  · simp [h]
  · simp [h]

end Histogram
end LayerAxes
