import LayerAxes.Proofs.Answers
import LayerAxes.Proofs.Dimension.Reading
import LayerAxes.Proofs.Histogram.Tally

/-!
# Histograms count every value

Whichever bucket the arithmetic of a histogram picks for a value, the value is
counted in one that exists.  So the counts add up to the number of values, and
there are as many of them as the limit on buckets has been checked for.
-/

namespace LayerAxes
namespace Histogram

variable {values : List Value} {resolution : String} {limit : Nat} {h : Histogram}

/-- The counts of a histogram add up to the number of values, and keep to the limit. -/
def Conserves (values : List Value) (limit : Nat) (h : Histogram) : Prop :=
  h.total = values.length ∧
    (values ≠ [] -> 1 ≤ h.counts.length ∧ h.counts.length ≤ limit)

theorem checkLimit_eq_ok_iff {buckets : Nat} :
    checkLimit buckets limit = .ok () <-> buckets ≤ limit := by
  unfold checkLimit
  by_cases hMore : limit < buckets
  · rw [if_pos hMore]
    constructor
    · intro h
      cases h
    · intro hLE
      omega
  · rw [if_neg hMore]
    constructor
    · intro _
      omega
    · intro _
      rfl

theorem conserves_tally {buckets : Nat} {counts : Array Nat} {indices : List Nat}
    (domain : String) (hBuckets : 1 ≤ buckets) (hLimit : checkLimit buckets limit = .ok ())
    (hCounts : noCounts buckets = .ok counts) (hLength : indices.length = values.length) :
    Conserves values limit { domain, counts := tally counts indices } := by
  rcases noCounts_eq_ok_iff.mp hCounts with ⟨_, rfl⟩
  constructor
  · show (tally _ indices).foldr (· + ·) 0 = _
    rw [← List.sum_eq_foldr, sum_tally_replicate hBuckets, hLength]
  · intro _
    show 1 ≤ (tally _ indices).length ∧ (tally _ indices).length ≤ limit
    rw [length_tally, Array.size_replicate]
    exact ⟨hBuckets, checkLimit_eq_ok_iff.mp hLimit⟩

theorem conserves_of_ofNumbers_eq_ok (hBuild : ofNumbers values resolution limit = .ok h) :
    Conserves values limit h := by
  rcases Answer.exists_of_bind_eq_ok hBuild with ⟨width, _, hMore⟩
  rcases Answer.exists_of_bind_eq_ok hMore with ⟨extents, hExtents, hMore⟩
  rcases Answer.exists_of_bind_eq_ok hMore with ⟨_, hLimit, hMore⟩
  rcases Answer.exists_of_bind_eq_ok hMore with ⟨counts, hCounts, hMore⟩
  rcases Answer.exists_of_bind_eq_ok hMore with ⟨indices, hIndices, hReturn⟩
  rw [← Except.ok.inj hReturn]
  apply conserves_tally _ (Nat.le_max_left _ _) hLimit hCounts
  rw [Answer.length_of_mapM_eq_ok hIndices, Answer.length_of_mapM_eq_ok hExtents]

theorem conserves_of_ofTimes_eq_ok (hBuild : ofTimes values resolution limit = .ok h) :
    Conserves values limit h := by
  rcases Answer.exists_of_bind_eq_ok hBuild with ⟨step, _, hMore⟩
  rcases Answer.exists_of_bind_eq_ok hMore with ⟨extents, hExtents, hMore⟩
  have hLength := Answer.length_of_mapM_eq_ok hExtents
  cases extents with
  | nil =>
      have hEmpty : empty = h := Except.ok.inj hMore
      subst hEmpty
      have hNil : values = [] := List.length_eq_zero_iff.mp hLength.symm
      rw [hNil]
      exact ⟨rfl, fun hNe => absurd rfl hNe⟩
  | cons first rest =>
      rcases Answer.exists_of_bind_eq_ok hMore with ⟨edges, _, hMore⟩
      rcases Answer.exists_of_bind_eq_ok hMore with ⟨_, hLimit, hMore⟩
      rcases Answer.exists_of_bind_eq_ok hMore with ⟨counts, hCounts, hMore⟩
      rcases Answer.exists_of_bind_eq_ok hMore with ⟨indices, hIndices, hReturn⟩
      rw [← Except.ok.inj hReturn]
      apply conserves_tally _ (Nat.le_max_left _ _) hLimit hCounts
      rw [Answer.length_of_mapM_eq_ok hIndices, hLength]

theorem conserves_of_build_eq_ok (hBuild : build values resolution limit = .ok h) :
    Conserves values limit h := by
  cases values with
  | nil =>
      cases hBuild
      exact ⟨rfl, fun hNe => absurd rfl hNe⟩
  | cons v values =>
      cases v with
      | number extent => exact conserves_of_ofNumbers_eq_ok hBuild
      | time extent => exact conserves_of_ofTimes_eq_ok hBuild
      | text extent => cases hBuild

end Histogram

namespace Dimension

theorem exists_total_of_histogram_eq_ok {d : Dimension} {filter : Filter} {resolution : String}
    {h : Histogram} (hBuild : d.histogram filter resolution = .ok h) (direction : Direction) :
    exists domain, d.readAll filter direction = .ok domain ∧
      h.total = domain.values.length := by
  rcases Answer.exists_of_bind_eq_ok hBuild with ⟨domain, hAttempt, hHistogram⟩
  have hRead := Answer.attempt_eq_ok_iff.mp hAttempt
  rcases Reader.exists_readAll_eq_ok_in hRead direction with ⟨turned, hTurned, hPerm⟩
  refine ⟨turned, hTurned, ?_⟩
  rw [hPerm.length_eq]
  exact (Histogram.conserves_of_build_eq_ok hHistogram).1

end Dimension

namespace Histogram

/--
Every value of a domain is counted once, in at least one bucket and at most as
many buckets as are allowed; for a dimension these are the values that it reads.
-/
theorem counts_every_value_once :
    (forall values resolution limit h, build values resolution limit = .ok h ->
      h.total = values.length ∧
        (values ≠ [] -> 1 ≤ h.counts.length ∧ h.counts.length ≤ limit)) ∧
    forall (d : Dimension) filter resolution h, d.histogram filter resolution = .ok h ->
      forall direction, exists domain, d.readAll filter direction = .ok domain ∧
        h.total = domain.values.length := by
  constructor
  · intro values resolution limit h hBuild
    exact conserves_of_build_eq_ok hBuild
  · intro d filter resolution h hBuild direction
    exact Dimension.exists_total_of_histogram_eq_ok hBuild direction

theorem mixed_depths_are_counted_once :
    exists h, build [.number (.range (Binary64.ofInt 0) (Binary64.ofInt 4)),
        .number (.instant (Binary64.ofInt 1))] " 2" 100 = .ok h ∧
      h = { domain := "0.0/4.0/2", counts := [2, 0] } ∧ h.total = 2 ∧
      1 ≤ h.counts.length ∧ h.counts.length ≤ 100 := by
  have hBuild : build [.number (.range (Binary64.ofInt 0) (Binary64.ofInt 4)),
      .number (.instant (Binary64.ofInt 1))] " 2" 100 =
        .ok { domain := "0.0/4.0/2", counts := [2, 0] } := by
    decide +kernel
  rcases counts_every_value_once.1 _ _ _ _ hBuild with ⟨hTotal, hLength⟩
  exact ⟨_, hBuild, rfl, hTotal, hLength (List.cons_ne_nil _ _)⟩

end Histogram
end LayerAxes
