import LayerAxes.Proofs.Histogram.Conservation
import LayerAxes.Proofs.Histogram.Edges
import LayerAxes.Proofs.Time.Expression
import Mathlib.Order.Bounds.Basic

/-!
# Histograms of times

The buckets of times go from edge to edge, as many as it takes to reach the end of
the domain.  A histogram counts into each bucket the values that start in it, or is
refused because there are too many buckets or the calendar ends before the domain.
-/

namespace LayerAxes
namespace Histogram

/-!
# The span of a domain
-/

/-- The least lower bound and the greatest upper bound of some extents. -/
structure Spans (extents : List (Extent Timestamp)) (start finish : Timestamp) : Prop where
  start_least : IsLeast {t | t ∈ extents.map Extent.lower} start
  finish_greatest : IsGreatest {t | t ∈ extents.map Extent.upper} finish

section

variable {extents : List (Extent Timestamp)} {start finish : Timestamp}

theorem Spans.unique {start' finish' : Timestamp} (h : Spans extents start finish)
    (h' : Spans extents start' finish') : start = start' ∧ finish = finish' := by
  constructor
  · exact Std.le_antisymm (h.start_least.2 h'.start_least.1) (h'.start_least.2 h.start_least.1)
  · exact Std.le_antisymm (h'.finish_greatest.2 h.finish_greatest.1)
      (h.finish_greatest.2 h'.finish_greatest.1)

theorem Spans.snoc (h : Spans extents start finish) (e : Extent Timestamp) :
    Spans (extents ++ [e]) (start.earlier e.lower) (finish.later e.upper) := by
  constructor
  · rw [List.map_append]
    exact Timestamp.isLeast_earlier h.start_least e.lower
  · rw [List.map_append]
    exact Timestamp.isGreatest_later h.finish_greatest e.upper

theorem Spans.foldl (rest : List (Extent Timestamp)) (bounds : Timestamp × Timestamp)
    (h : Spans extents bounds.1 bounds.2) :
    let last := rest.foldl (fun bounds e =>
      (bounds.1.earlier e.lower, bounds.2.later e.upper)) bounds
    Spans (extents ++ rest) last.1 last.2 := by
  induction rest generalizing extents bounds with
  | nil =>
      rw [List.append_nil]
      exact h
  | cons e rest ih =>
      rw [List.append_cons]
      exact ih _ (h.snoc e)

theorem spans_temporalBounds (first : Extent Timestamp) (rest : List (Extent Timestamp)) :
    Spans (first :: rest) (temporalBounds first rest).1 (temporalBounds first rest).2 := by
  have hFirst : Spans [first] first.lower first.upper := by
    constructor
    · simp [IsLeast, lowerBounds, Std.le_refl]
    · simp [IsGreatest, upperBounds, Std.le_refl]
  exact Spans.foldl rest (first.lower, first.upper) hFirst

theorem Spans.within (h : Spans extents start finish)
    (hOrdered : forall e, e ∈ extents -> e.lower ≤ e.upper) {e : Extent Timestamp}
    (he : e ∈ extents) : start ≤ e.lower ∧ e.lower ≤ finish := by
  constructor
  · exact h.start_least.2 (List.mem_map_of_mem he)
  · exact Std.le_trans (hOrdered e he) (h.finish_greatest.2 (List.mem_map_of_mem he))

theorem Spans.start_le_finish (h : Spans extents start finish)
    (hOrdered : forall e, e ∈ extents -> e.lower ≤ e.upper) : start ≤ finish := by
  rcases List.mem_map.mp h.start_least.1 with ⟨e, he, hStart⟩
  rw [← hStart]
  exact (h.within hOrdered he).2

/-!
# The number of buckets
-/

variable {step : Duration} {limit : Nat}

/--
The number of buckets that it takes to reach the end of a domain: one for a single
instant, else the number of steps to the first edge that is not before the end.
-/
def IsBucketCount (step : Duration) (start finish : Timestamp) (n : Nat) : Prop :=
  (start = finish ∧ n = 1) ∨
    (start ≠ finish ∧
      IsLeast {k | 1 ≤ k ∧ exists e, edge? step start k = some e ∧ finish ≤ e} n)

theorem IsBucketCount.unique {n m : Nat} (hn : IsBucketCount step start finish n)
    (hm : IsBucketCount step start finish m) : n = m := by
  rcases hn with ⟨hInstant, hOne⟩ | ⟨hNe, hLeast⟩
  · rcases hm with ⟨_, hOwn⟩ | ⟨hNe, _⟩
    · rw [hOne, hOwn]
    · exact absurd hInstant hNe
  · rcases hm with ⟨hInstant, _⟩ | ⟨_, hOwn⟩
    · exact absurd hInstant hNe
    · exact hLeast.unique hOwn

theorem isBucketCount_max {last : Nat} {edges : Array Timestamp} {edge : Timestamp}
    (hLE : start ≤ finish) (hEdges : FirstEdges step start last edges edge)
    (hBelow : BelowUpTo step start finish last) (hEnd : ¬ edge < finish) :
    IsBucketCount step start finish (Nat.max 1 last) := by
  have hReached : finish ≤ edge := Std.not_lt.mp hEnd
  have hLast := hEdges.last_edge
  cases last with
  | zero =>
      cases hLast
      exact Or.inl ⟨Std.le_antisymm hLE hReached, rfl⟩
  | succ last =>
      rw [show Nat.max 1 (last + 1) = last + 1 from Nat.max_eq_right (Nat.succ_pos last)]
      refine Or.inr ⟨hBelow.start_ne_finish (Nat.succ_pos last), ?_, ?_⟩
      · exact ⟨Nat.succ_pos last, edge, hLast, hReached⟩
      · rintro k ⟨_, e, he, hAfter⟩
        exact hBelow.le_of_finish_le he hAfter

theorem lt_of_isBucketCount {n count : Nat} (hn : IsBucketCount step start finish n)
    (hBelow : BelowUpTo step start finish (count + 1)) : count < n := by
  rcases hn with ⟨hInstant, _⟩ | ⟨_, ⟨_, e, he, hReached⟩, _⟩
  · exact absurd hInstant (hBelow.start_ne_finish (Nat.succ_pos count))
  · exact hBelow.le_of_finish_le he hReached

theorem not_isBucketCount_of_edge?_eq_none {n count : Nat}
    (hBelow : BelowUpTo step start finish (count + 1))
    (hNone : edge? step start (count + 1) = none) : ¬ IsBucketCount step start finish n := by
  intro hn
  have hMore := lt_of_isBucketCount hn hBelow
  rcases hn with ⟨hInstant, _⟩ | ⟨_, ⟨_, e, he, _⟩, _⟩
  · exact hBelow.start_ne_finish (Nat.succ_pos count) hInstant
  · rw [edge?_eq_none_of_le hMore hNone] at he
    cases he

/-!
# Steps that are read
-/

theorem forward_of_parse?_eq_some {s : String} (h : Duration.parse? s = some step) :
    Forward step :=
  ⟨Duration.isZero_of_parse?_eq_some h, Duration.zero_le_millis_of_parse?_eq_some h⟩

/-!
# The buckets of times
-/

/--
A time lies in a bucket from its first edge up to the next one, which it does not
reach; the last bucket goes to the end of the domain and includes it.
-/
def inBucket (step : Duration) (start finish : Timestamp) (n k : Nat) (t : Timestamp) : Bool :=
  (edge? step start k).any (fun edge => edge ≤ t) &&
    if k + 1 < n then (edge? step start (k + 1)).any fun edge => t < edge else t ≤ finish

theorem inBucket_eq (hForward : Forward step) {last : Nat}
    {edges : Array Timestamp} {edge : Timestamp}
    (hEdges : FirstEdges step start last edges edge) {t : Timestamp} (hStart : start ≤ t)
    (hFinish : t ≤ finish) {k : Nat} (hk : k < Nat.max 1 last) :
    inBucket step start finish (Nat.max 1 last) k t =
      (min (temporalIndex edges t) (Nat.max 1 last - 1) == k) := by
  have hMax : Nat.max 1 last = max 1 last := rfl
  have hLE : k ≤ last := by omega
  rcases exists_edge?_of_le hLE hEdges.last_edge with ⟨e, he⟩
  have hReached := le_temporalIndex_iff hForward hEdges hStart hLE he
  unfold inBucket
  rw [he, Option.any_some, Bool.eq_iff_iff, Bool.and_eq_true, decide_eq_true_iff, ← hReached,
    beq_iff_eq]
  by_cases hInner : k + 1 < Nat.max 1 last
  · have hNext : k + 1 ≤ last := by omega
    rcases exists_edge?_of_le hNext hEdges.last_edge with ⟨e', he'⟩
    have hPassed := le_temporalIndex_iff hForward hEdges hStart hNext he'
    rw [if_pos hInner, he', Option.any_some, decide_eq_true_iff]
    have hBefore : t < e' <-> ¬ k + 1 ≤ temporalIndex edges t := by
      rw [hPassed, Std.not_le]
    rw [hBefore]
    omega
  · rw [if_neg hInner, decide_eq_true_iff, and_iff_left hFinish]
    omega

theorem FirstEdges.max_le_roomLimit (hForward : Forward step) {last : Nat}
    {edges : Array Timestamp} {edge : Timestamp}
    (hEdges : FirstEdges step start last edges edge) : Nat.max 1 last ≤ roomLimit := by
  have hOne : 1 ≤ roomLimit := by decide
  exact Nat.max_le.mpr ⟨hOne, le_roomLimit_of_edge?_eq_some hForward hEdges.last_edge⟩

def StartWithin (extents : List (Extent Timestamp)) (start finish : Timestamp) : Prop :=
  forall e, e ∈ extents -> start ≤ e.lower ∧ e.lower ≤ finish

theorem tally_temporalIndex_eq (hForward : Forward step)
    (hWithin : StartWithin extents start finish) {last : Nat} {edges : Array Timestamp}
    {edge : Timestamp} (hEdges : FirstEdges step start last edges edge) :
    tally (Array.replicate (Nat.max 1 last) 0)
        (extents.map fun e => temporalIndex edges e.lower) =
      (List.range (Nat.max 1 last)).map fun k =>
        extents.countP fun e => inBucket step start finish (Nat.max 1 last) k e.lower := by
  rw [tally_replicate_eq_map_countP]
  apply List.map_congr_left
  intro k hk
  rw [List.countP_map]
  apply List.countP_congr
  intro e he
  rcases hWithin e he with ⟨hStart, hFinish⟩
  rw [inBucket_eq hForward hEdges hStart hFinish (List.mem_range.mp hk)]
  rfl

/-!
# Histograms
-/

def trimmed (resolution : String) : String :=
  String.ofList (Text.trim resolution.toList)

theorem locateTime_eq_ok {edges : Array Timestamp} {t : Timestamp} (hStart : start ≤ t)
    (hFinish : t ≤ finish) : locateTime start finish edges t = .ok (temporalIndex edges t) := by
  apply if_neg
  rintro (hBefore | hAfter)
  · exact Std.not_lt.mpr hStart hBefore
  · exact Std.not_lt.mpr hFinish hAfter

theorem within_of_locateTime_eq_ok {edges : Array Timestamp} {t : Timestamp} {index : Nat}
    (h : locateTime start finish edges t = .ok index) : start ≤ t ∧ t ≤ finish := by
  unfold locateTime at h
  split at h
  · cases h
  · rename_i hInside
    rw [not_or, Std.not_lt, Std.not_lt] at hInside
    exact hInside

theorem mapM_locateTime (hWithin : StartWithin extents start finish) (edges : Array Timestamp) :
    extents.mapM (fun e => locateTime start finish edges e.lower) =
      .ok (extents.map fun e => temporalIndex edges e.lower) := by
  apply Answer.mapM_eq_ok_map
  intro e he
  rcases hWithin e he with ⟨hStart, hFinish⟩
  exact locateTime_eq_ok hStart hFinish

theorem within_of_mapM_locateTime_eq_ok {edges : Array Timestamp} {indices : List Nat}
    (h : extents.mapM (fun e => locateTime start finish edges e.lower) = .ok indices) :
    StartWithin extents start finish := by
  intro e he
  rcases Answer.exists_of_mem_of_mapM_eq_ok h he with ⟨index, _, hIndex⟩
  exact within_of_locateTime_eq_ok hIndex

theorem build_map_time_eq {resolution : String} (hSpans : Spans extents start finish)
    (hStep : Duration.parse? (trimmed resolution) = some step) :
    build (extents.map .time) resolution limit =
      (extendEdges step finish limit limit #[start] start).bind fun edges =>
        (checkLimit (Nat.max 1 (edges.size - 1)) limit).bind fun _ =>
          (noCounts (Nat.max 1 (edges.size - 1))).bind fun counts =>
            (extents.mapM fun e => locateTime start finish edges e.lower).bind fun indices =>
              .ok {
                domain := s!"{start.format}/{finish.format}/{trimmed resolution}"
                counts := tally counts indices } := by
  cases extents with
  | nil => cases hSpans.start_least.1
  | cons first rest =>
      rcases hSpans.unique (spans_temporalBounds first rest) with ⟨hStart, hFinish⟩
      have hBounds : temporalBounds first rest = (start, finish) :=
        Prod.ext hStart.symm hFinish.symm
      have hRead : readStep (trimmed resolution) = .ok step := by
        unfold readStep
        rw [Duration.parse?_eq_some_iff_parse.mp hStep]
      have hExtents : ((first :: rest).map Value.time).mapM temporalExtent =
          .ok (first :: rest) := by
        rw [Answer.mapM_eq_ok_iff, List.forall₂_map_left_iff, List.forall₂_same]
        intro e _
        rfl
      show ofTimes ((first :: rest).map .time) (trimmed resolution) limit = _
      unfold ofTimes
      rw [hRead, hExtents]
      dsimp only [bind, Except.bind]
      rw [hBounds]
      rfl

theorem exists_bucketCount_of_build_eq_ok {resolution : String} {h : Histogram}
    (hSpans : Spans extents start finish)
    (hStep : Duration.parse? (trimmed resolution) = some step) (hForward : Forward step)
    (hBuild : build (extents.map .time) resolution limit = .ok h) :
    exists n, IsBucketCount step start finish n ∧
      h.counts = (List.range n).map fun k =>
        extents.countP fun e => inBucket step start finish n k e.lower := by
  rw [build_map_time_eq hSpans hStep] at hBuild
  rcases Answer.exists_of_bind_eq_ok hBuild with ⟨edges, hFound, hMore⟩
  rcases Answer.exists_of_bind_eq_ok hMore with ⟨_, _, hMore⟩
  rcases Answer.exists_of_bind_eq_ok hMore with ⟨counts, hCounts, hMore⟩
  rcases Answer.exists_of_bind_eq_ok hMore with ⟨indices, hIndices, hReturn⟩
  rcases noCounts_eq_ok_iff.mp hCounts with ⟨_, rfl⟩
  rw [← Except.ok.inj hReturn]
  have hWithin := within_of_mapM_locateTime_eq_ok hIndices
  have hLE : start ≤ finish := by
    rcases List.mem_map.mp hSpans.start_least.1 with ⟨e, he, rfl⟩
    exact (hWithin e he).2
  rw [mapM_locateTime hWithin] at hIndices
  rw [← Except.ok.inj hIndices]
  have hOutcome := edgeOutcome_extendEdges step start finish limit
  rw [hFound] at hOutcome
  cases hOutcome with
  | @reached last _ edge _ hEdges hBelow hEnd =>
      refine ⟨Nat.max 1 last, isBucketCount_max hLE hEdges hBelow hEnd, ?_⟩
      dsimp only
      rw [hEdges.size, Nat.add_sub_cancel]
      exact tally_temporalIndex_eq hForward hWithin hEdges

/-- Why a domain is refused that has no bucket count within the limit. -/
def refusal (step : Duration) (start : Timestamp) (limit : Nat) : String :=
  if (edge? step start limit).isSome then s!"{limit + 1} buckets exceed the limit of {limit}"
  else "bucket edge overflows the calendar"

section

variable {resolution : String} (hSpans : Spans extents start finish)
  (hOrdered : forall e, e ∈ extents -> e.lower ≤ e.upper)

include hSpans hOrdered

theorem build_map_time (hStep : Duration.parse? (trimmed resolution) = some step) :
    build (extents.map .time) resolution limit =
      (extendEdges step finish limit limit #[start] start).bind fun edges =>
        (checkLimit (Nat.max 1 (edges.size - 1)) limit).bind fun _ =>
          (noCounts (Nat.max 1 (edges.size - 1))).bind fun counts =>
            .ok {
              domain := s!"{start.format}/{finish.format}/{trimmed resolution}"
              counts := tally counts (extents.map fun e => temporalIndex edges e.lower) } := by
  have hWithin : StartWithin extents start finish := fun e he => hSpans.within hOrdered he
  rw [build_map_time_eq hSpans hStep]
  simp only [mapM_locateTime hWithin, Except.bind]

theorem build_map_time_eq_ok (hStep : Duration.parse? (trimmed resolution) = some step)
    (hForward : Forward step) {n : Nat} (hCount : IsBucketCount step start finish n)
    (hLimit : n ≤ limit) :
    build (extents.map .time) resolution limit = .ok {
      domain := s!"{start.format}/{finish.format}/{trimmed resolution}"
      counts := (List.range n).map fun k =>
        extents.countP fun e => inBucket step start finish n k e.lower } := by
  have hLE := hSpans.start_le_finish hOrdered
  rw [build_map_time hSpans hOrdered hStep]
  have hOutcome := edgeOutcome_extendEdges step start finish limit
  generalize extendEdges step finish limit limit #[start] start = answer at hOutcome ⊢
  cases hOutcome with
  | reached hRoom hEdges hBelow hEnd =>
      have hn := hCount.unique (isBucketCount_max hLE hEdges hBelow hEnd)
      dsimp only [Except.bind]
      rw [hEdges.size, Nat.add_sub_cancel, ← hn, checkLimit_eq_ok_iff.mpr hLimit, hn,
        noCounts_of_le (hEdges.max_le_roomLimit hForward)]
      dsimp only
      rw [tally_temporalIndex_eq hForward (fun e he => hSpans.within hOrdered he) hEdges]
  | full hBelow =>
      have hMore := lt_of_isBucketCount hCount hBelow
      omega
  | overflow hRoom hBelow hNone =>
      exact absurd hCount (not_isBucketCount_of_edge?_eq_none hBelow hNone)

theorem build_map_time_eq_error (hStep : Duration.parse? (trimmed resolution) = some step)
    (hCount : forall n, IsBucketCount step start finish n -> limit < n) :
    build (extents.map .time) resolution limit =
      .error (.refused (.invalidParameter "resolution" (refusal step start limit))) := by
  have hLE := hSpans.start_le_finish hOrdered
  rw [build_map_time hSpans hOrdered hStep]
  have hOutcome := edgeOutcome_extendEdges step start finish limit
  generalize extendEdges step finish limit limit #[start] start = answer at hOutcome ⊢
  unfold refusal
  cases hOutcome with
  | @reached last edges edge hRoom hEdges hBelow hEnd =>
      have hMore := hCount _ (isBucketCount_max hLE hEdges hBelow hEnd)
      have hMax : Nat.max 1 last = max 1 last := rfl
      have hNone : limit = 0 := by omega
      have hOne : Nat.max 1 last = 1 := by omega
      subst hNone
      dsimp only [Except.bind]
      rw [hEdges.size, Nat.add_sub_cancel, hOne]
      rfl
  | full hBelow =>
      rcases hBelow limit (Nat.lt_succ_self limit) with ⟨e, he, _⟩
      rw [he]
      rfl
  | overflow hRoom hBelow hNone =>
      rw [edge?_eq_none_of_le hRoom hNone]
      rfl

end

end

/--
The buckets of times go from edge to edge, and each counts the values that start in
it.  A domain is refused just when it takes more buckets than are allowed or the
calendar ends before them; the edges are found within as many steps.
-/
theorem time_buckets_are_exact {extents : List (Extent Timestamp)} {resolution : String}
    {step : Duration} (hSome : extents ≠ [])
    (hOrdered : forall e, e ∈ extents -> e.lower ≤ e.upper)
    (hStep : Duration.parse? (trimmed resolution) = some step) (limit : Nat) :
    exists start finish, Spans extents start finish ∧
      (forall n, IsBucketCount step start finish n -> n ≤ limit ->
        build (extents.map .time) resolution limit = .ok {
          domain := s!"{start.format}/{finish.format}/{trimmed resolution}"
          counts := (List.range n).map fun k =>
            extents.countP fun e => inBucket step start finish n k e.lower }) ∧
      ((forall n, IsBucketCount step start finish n -> limit < n) ->
        build (extents.map .time) resolution limit =
          .error (.refused (.invalidParameter "resolution" (refusal step start limit)))) ∧
      exists taken, taken ≤ limit ∧
        EdgeRun step finish limit taken #[start] start
          (extendEdges step finish limit limit #[start] start) := by
  cases extents with
  | nil => exact absurd rfl hSome
  | cons first rest =>
      have hSpans := spans_temporalBounds first rest
      have hForward := forward_of_parse?_eq_some hStep
      refine ⟨_, _, hSpans, ?_, ?_, ?_⟩
      · intro n hCount hLimit
        exact build_map_time_eq_ok hSpans hOrdered hStep hForward hCount hLimit
      · intro hCount
        exact build_map_time_eq_error hSpans hOrdered hStep hCount
      · exact exists_edgeRun_extendEdges (Nat.add_comm 1 limit)

theorem months_of_different_length_are_counted :
    let january : Timestamp := ⟨1706659200, 0, by decide⟩
    let february : Timestamp := ⟨1709164800, 0, by decide⟩
    let march : Timestamp := ⟨1710460800, 0, by decide⟩
    let values := [Value.time (.instant february), .time (.range january february),
      .time (.instant march)]
    IsBucketCount ⟨1, 0⟩ january march 2 ∧
      build values " P1M" 2 = .ok {
        domain := "2024-01-31T00:00:00.000Z/2024-03-15T00:00:00.000Z/P1M"
        counts := [1, 2] } ∧
      build values " P1M" 1 =
        .error (.refused
          (.invalidParameter "resolution" "2 buckets exceed the limit of 1")) := by
  intro january february march values
  have hSpans : Spans [.instant february, .range january february, .instant march]
      january march := by
    constructor
    · constructor
      · show january ∈ [february, january, march]
        decide
      · show forall t, t ∈ [february, january, march] -> january ≤ t
        decide
    · constructor
      · show march ∈ [february, february, march]
        decide
      · show forall t, t ∈ [february, february, march] -> t ≤ march
        decide
  have hFirst : edge? ⟨1, 0⟩ january 1 = some february := by decide +kernel
  have hSecond : edge? ⟨1, 0⟩ january 2 = some ⟨1711670400, 0, by decide⟩ := by decide +kernel
  have hCount : IsBucketCount ⟨1, 0⟩ january march 2 := by
    refine Or.inr ⟨by decide, ⟨by decide, _, hSecond, by decide⟩, ?_⟩
    rintro k ⟨hPos, e, he, hReached⟩
    by_cases hOne : k = 1
    · rw [hOne, hFirst] at he
      cases he
      exact absurd hReached (by decide)
    · omega
  have hStep : Duration.parse? (trimmed " P1M") = some ⟨1, 0⟩ := by decide +kernel
  have hOrdered : forall e, e ∈ [Extent.instant february, .range january february,
      .instant march] -> e.lower ≤ e.upper := by
    decide
  have hExact := time_buckets_are_exact (List.cons_ne_nil _ _) hOrdered hStep
  refine ⟨hCount, ?_, ?_⟩
  · rcases hExact 2 with ⟨start, finish, hOwn, hCounted, _⟩
    rcases hOwn.unique hSpans with ⟨rfl, rfl⟩
    refine (hCounted 2 hCount (Nat.le_refl 2)).trans (congrArg Except.ok ?_)
    decide +kernel
  · rcases hExact 1 with ⟨start, finish, hOwn, _, hRefused, _⟩
    rcases hOwn.unique hSpans with ⟨rfl, rfl⟩
    have hText : refusal ⟨1, 0⟩ january 1 = "2 buckets exceed the limit of 1" := by
      decide +kernel
    rw [← hText]
    apply hRefused
    intro n hn
    rw [hn.unique hCount]
    exact Nat.lt_succ_self 1

end Histogram
end LayerAxes
