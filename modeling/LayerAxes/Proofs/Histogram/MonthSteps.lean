import LayerAxes.Proofs.Histogram.Temporal
import LayerAxes.Proofs.Time.Months

/-!
# Time buckets of months

A step of some months leads from edge to edge, each at the time of day of the first
one.  So the dates of the edges are those of stepping on month by month, which need not
be those of moving on from the first edge at once.
-/

namespace LayerAxes
namespace Histogram

open Timestamp

section

variable {start finish : Timestamp} {months k : Nat}

/-!
# The edges of buckets of months
-/

/--
The time that `k` steps lead to: the time of day is that of the start, and the day of
the month the least of the first day and the lengths of the months stepped on.
-/
structure IsMonthEdge (start : Timestamp) (months k : Nat) (e : Timestamp) : Prop where
  same_seconds : e.seconds % 86400 = start.seconds % 86400
  same_nanos : e.nanos = start.nanos
  month : e.civil.date.monthIndex = start.civil.date.monthIndex + (k * months : Nat)
  day : IsLeast {n | n = start.civil.date.day ∨
    exists j, 1 ≤ j ∧ j ≤ k ∧ n = start.civil.date.daysAfter (j * months)} e.civil.date.day

theorem addTo?_months (hMonths : 1 ≤ months) (t : Timestamp) :
    Duration.addTo? ⟨months, 0⟩ t = t.addMonths? months := by
  unfold Duration.addTo?
  dsimp only
  rw [if_neg (Nat.ne_of_gt hMonths)]
  cases hMoved : t.addMonths? months with
  | none => rfl
  | some u => exact addMillis?_zero u

theorem isSome_onDate?_stepped_iff (start : Timestamp) (months k : Nat) :
    (start.onDate? (start.civil.date.stepped months k)).isSome = true <->
      (start.civil.date.monthIndex + (k * months : Nat)) / 12 ≤ lastYear :=
  isSome_onDate?_iff (Date.exists_stepped start.exists_civil_date months k)
    (Date.monthIndex_stepped _ months k)

theorem isSome_addMonths?_iff (start : Timestamp) (months : Nat) :
    (start.addMonths? months).isSome = true <->
      (start.civil.date.monthIndex + months) / 12 ≤ lastYear :=
  isSome_onDate?_iff (Date.exists_addMonths start.exists_civil_date months)
    (Date.monthIndex_addMonths _ months)

theorem onDate?_stepped_succ_eq_none
    (h : start.onDate? (start.civil.date.stepped months k) = none) :
    start.onDate? (start.civil.date.stepped months (k + 1)) = none := by
  have hBefore := isSome_onDate?_stepped_iff start months k
  have hAfter := isSome_onDate?_stepped_iff start months (k + 1)
  rw [h] at hBefore
  have hPast := mt hBefore.mpr Bool.false_ne_true
  rw [Nat.add_one_mul k months] at hAfter
  rw [← Option.not_isSome_iff_eq_none, hAfter]
  omega

theorem edge?_months (hMonths : 1 ≤ months) (start : Timestamp) (k : Nat) :
    edge? ⟨months, 0⟩ start k = start.onDate? (start.civil.date.stepped months k) := by
  induction k with
  | zero => exact (onDate?_civil_date start).symm
  | succ k ih =>
      rw [edge?, ih]
      cases hEdge : start.onDate? (start.civil.date.stepped months k) with
      | none => exact (onDate?_stepped_succ_eq_none hEdge).symm
      | some e =>
          have hDate := Date.exists_stepped start.exists_civil_date months k
          rw [Option.bind_some, addTo?_months hMonths, addMonths?_eq,
            (parts_of_onDate?_eq_some hDate hEdge).1]
          exact onDate?_of_onDate?_eq_some hDate hEdge _

theorem edge?_months_eq_some_iff (hMonths : 1 ≤ months) {e : Timestamp} :
    edge? ⟨months, 0⟩ start k = some e <-> IsMonthEdge start months k e := by
  have hDate := Date.exists_stepped start.exists_civil_date months k
  have hDay := start.civil.date.isLeast_day_stepped months k
  rw [edge?_months hMonths]
  constructor
  · intro h
    rcases parts_of_onDate?_eq_some hDate h with ⟨hOwn, hSeconds, hNanos⟩
    constructor
    · exact hSeconds
    · exact hNanos
    · rw [hOwn, Date.monthIndex_stepped]
    · rw [hOwn]
      exact hDay
  · intro h
    have hOwn : e.civil.date = start.civil.date.stepped months k := by
      apply Date.eq_of_monthIndex_eq e.exists_civil_date hDate
      · rw [h.month, Date.monthIndex_stepped]
      · exact h.day.unique hDay
    rw [← hOwn, ← onDate?_civil_date e]
    unfold onDate?
    rw [h.same_seconds, h.same_nanos]

/-!
# Edges and single moves
-/

theorem isSome_edge?_months (hMonths : 1 ≤ months) (start : Timestamp) (k : Nat) :
    (edge? ⟨months, 0⟩ start k).isSome = (start.addMonths? (k * months)).isSome := by
  rw [edge?_months hMonths, Bool.eq_iff_iff, isSome_onDate?_stepped_iff, isSome_addMonths?_iff]

theorem addMonths?_eq_some_edge_iff (hMonths : 1 ≤ months) {e : Timestamp}
    (he : edge? ⟨months, 0⟩ start k = some e) :
    start.addMonths? (k * months) = some e <->
      forall j, 1 ≤ j -> j ≤ k ->
        min start.civil.date.day (start.civil.date.daysAfter (k * months)) ≤
          start.civil.date.daysAfter (j * months) := by
  have hDate := Date.exists_stepped start.exists_civil_date months k
  have hMove := Date.exists_addMonths start.exists_civil_date (k * months)
  rw [edge?_months hMonths] at he
  refine Iff.trans ?_ (Date.stepped_eq_addMonths_iff start.exists_civil_date)
  rw [addMonths?_eq]
  constructor
  · intro h
    rw [← (parts_of_onDate?_eq_some hMove h).1, (parts_of_onDate?_eq_some hDate he).1]
  · intro hSame
    rw [← hSame]
    exact he

theorem edge?_months_eq_addMonths? (hMonths : 1 ≤ months) (hDay : start.civil.date.day ≤ 28)
    (k : Nat) : edge? ⟨months, 0⟩ start k = start.addMonths? (k * months) := by
  rw [edge?_months hMonths, addMonths?_eq,
    Date.stepped_eq_addMonths start.exists_civil_date hDay]

/-!
# Buckets below the last
-/

theorem IsBucketCount.exists_edge {step : Duration} {n : Nat}
    (hn : IsBucketCount step start finish n) (hk : k + 1 < n) :
    exists lower upper, edge? step start k = some lower ∧
      edge? step start (k + 1) = some upper := by
  rcases hn with ⟨_, hOne⟩ | ⟨_, ⟨_, last, hLast, _⟩, _⟩
  · omega
  · rcases exists_edge?_of_le (Nat.le_of_lt hk) hLast with ⟨upper, hUpper⟩
    rcases exists_edge?_of_le (Nat.le_succ k) hUpper with ⟨lower, hLower⟩
    exact ⟨lower, upper, hLower, hUpper⟩

theorem inBucket_eq_decide {step : Duration} {n : Nat} (hk : k + 1 < n)
    {lower upper : Timestamp} (hLower : edge? step start k = some lower)
    (hUpper : edge? step start (k + 1) = some upper) (t : Timestamp) :
    inBucket step start finish n k t = decide (lower ≤ t ∧ t < upper) := by
  unfold inBucket
  rw [hLower, hUpper, if_pos hk, Option.any_some, Option.any_some, Bool.decide_and]

end

/--
Buckets of months go from edge to edge, and an edge has the least day of those that the
months stepped on allow.  It is the start moved on at once just if none of these months
is too short for that, as always for a day up to the 28th.
-/
theorem month_edges_have_least_day {extents : List (Extent Timestamp)}
    {start finish : Timestamp} {resolution : String} {months : Nat}
    (hSpans : Spans extents start finish)
    (hStep : Duration.parse? (trimmed resolution) = some ⟨months, 0⟩) :
    (forall k e, edge? ⟨months, 0⟩ start k = some e <-> IsMonthEdge start months k e) ∧
      (forall k, (edge? ⟨months, 0⟩ start k).isSome =
        (start.addMonths? (k * months)).isSome) ∧
      (forall k e, edge? ⟨months, 0⟩ start k = some e ->
        (start.addMonths? (k * months) = some e <->
          forall j, 1 ≤ j -> j ≤ k ->
            min start.civil.date.day (start.civil.date.daysAfter (k * months)) ≤
              start.civil.date.daysAfter (j * months))) ∧
      (start.civil.date.day ≤ 28 -> forall k,
        edge? ⟨months, 0⟩ start k = start.addMonths? (k * months)) ∧
      forall limit h, build (extents.map .time) resolution limit = .ok h ->
        forall k, k + 1 < h.counts.length ->
          exists lower upper, edge? ⟨months, 0⟩ start k = some lower ∧
            edge? ⟨months, 0⟩ start (k + 1) = some upper ∧
            h.counts[k]? =
              some (extents.countP fun e => decide (lower ≤ e.lower ∧ e.lower < upper)) := by
  have hForward := forward_of_parse?_eq_some hStep
  have hMonths : 1 ≤ months := by
    have hSome := hForward.1
    rw [Duration.isZero, Bool.and_eq_false_iff, beq_eq_false_iff_ne] at hSome
    rcases hSome with hNonzero | hNone
    · exact Nat.pos_of_ne_zero hNonzero
    · cases hNone
  refine ⟨fun k e => edge?_months_eq_some_iff hMonths, isSome_edge?_months hMonths start,
    fun k e he => addMonths?_eq_some_edge_iff hMonths he,
    fun hDay => edge?_months_eq_addMonths? hMonths hDay, ?_⟩
  intro limit h hBuild k hk
  rcases exists_bucketCount_of_build_eq_ok hSpans hStep hForward hBuild with
    ⟨n, hCount, hCounts⟩
  rw [hCounts, List.length_map, List.length_range] at hk
  rcases hCount.exists_edge hk with ⟨lower, upper, hLower, hUpper⟩
  refine ⟨lower, upper, hLower, hUpper, ?_⟩
  have hIn : forall t, inBucket ⟨months, 0⟩ start finish n k t =
      decide (lower ≤ t ∧ t < upper) :=
    inBucket_eq_decide hk hLower hUpper
  simp only [hCounts, List.getElem?_map, List.getElem?_range (Nat.lt_of_succ_lt hk),
    Option.map_some, hIn]

theorem months_from_thirtieth_of_january :
    let january : Timestamp := ⟨1706572800, 0, by decide⟩
    let march : Timestamp := ⟨1710028800, 0, by decide⟩
    let april : Timestamp := ⟨1713571200, 0, by decide⟩
    let edge : Timestamp := ⟨1711670400, 0, by decide⟩
    let values := [Value.time (.instant january), .time (.instant march),
      .time (.instant april)]
    IsMonthEdge january 1 2 edge ∧ january.addMonths? 2 ≠ some edge ∧
      exists h, build values "P1M" 100 = .ok h ∧ h.counts[1]? = some 1 := by
  intro january march april edge values
  have hBounds : temporalBounds (.instant january) [.instant march, .instant april] =
      (january, april) := by
    decide +kernel
  have hSpans : Spans [.instant january, .instant march, .instant april] january april := by
    have hFirst := spans_temporalBounds (.instant january) [.instant march, .instant april]
    rwa [hBounds] at hFirst
  have hStep : Duration.parse? (trimmed "P1M") = some ⟨1, 0⟩ := by decide +kernel
  have hBuild : build values "P1M" 100 = .ok {
      domain := "2024-01-30T00:00:00.000Z/2024-04-20T00:00:00.000Z/P1M"
      counts := [1, 1, 1] } := by
    decide +kernel
  have hFirst : edge? ⟨1, 0⟩ january 1 = some ⟨1709164800, 0, by decide⟩ := by decide +kernel
  have hSecond : edge? ⟨1, 0⟩ january 2 = some edge := by decide +kernel
  rcases month_edges_have_least_day hSpans hStep with ⟨hEdges, _, hAtOnce, _, hCounts⟩
  refine ⟨(hEdges 2 edge).mp hSecond, ?_, _, hBuild, ?_⟩
  · intro hMoved
    have hFebruary := (hAtOnce 2 edge hSecond).mp hMoved 1 (by decide) (by decide)
    exact absurd hFebruary (by decide +kernel)
  · rcases hCounts 100 _ hBuild 1 (by decide) with ⟨lower, upper, hLower, hUpper, hCount⟩
    cases hFirst.symm.trans hLower
    cases hSecond.symm.trans hUpper
    rw [hCount]
    decide +kernel

/--
Months from the last of January: the second edge is the 29th of March, though two months
at once lead to the 31st, and the 30th is counted one bucket later.
-/
theorem months_from_end_of_january_drift :
    let january : Timestamp := ⟨1706659200, 0, by decide⟩
    let march : Timestamp := ⟨1711756800, 0, by decide⟩
    let may : Timestamp := ⟨1715731200, 0, by decide⟩
    let values := [Value.time (.instant january), .time (.instant march), .time (.instant may)]
    january.addMonths? 1 = some ⟨1709164800, 0, by decide⟩ ∧
      january.addMonths? 2 = some ⟨1711843200, 0, by decide⟩ ∧
      edge? ⟨1, 0⟩ january 2 = some ⟨1711670400, 0, by decide⟩ ∧
      1709164800 ≤ march.seconds ∧ march.seconds < 1711843200 ∧
      build values "P1M" 100 = .ok {
        domain := "2024-01-31T00:00:00.000Z/2024-05-15T00:00:00.000Z/P1M"
        counts := [1, 0, 1, 1] } := by
  decide +kernel

end Histogram
end LayerAxes
