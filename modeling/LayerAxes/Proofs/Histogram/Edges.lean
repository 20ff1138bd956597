import LayerAxes.Dimension.Histogram
import LayerAxes.Proofs.Time.Advance

/-!
# Edges of time buckets

The edges of time buckets are the times that are reached by stepping on from the
start of the domain.  They are found one by one, until the end of the domain is
reached, the limit on buckets is passed or the calendar ends.  As every step goes
forward, each time of the domain lies in one bucket, and halving finds it.
-/

namespace LayerAxes
namespace Histogram

/-- The time some steps after the start, unless the calendar ends before. -/
def edge? (step : Duration) (start : Timestamp) : Nat -> Option Timestamp
  | 0 => some start
  | k + 1 => (edge? step start k).bind step.addTo?

def Forward (step : Duration) : Prop :=
  step.isZero = false ∧ 0 ≤ step.millis.toInt

section

variable {step : Duration} {start finish : Timestamp} {limit : Nat}

theorem exists_edge?_of_le {j k : Nat} (hLE : j ≤ k) {b : Timestamp}
    (hb : edge? step start k = some b) : exists a, edge? step start j = some a := by
  induction hLE generalizing b with
  | refl => exact ⟨b, hb⟩
  | step _ ih =>
      rcases Option.bind_eq_some_iff.mp hb with ⟨a, ha, _⟩
      exact ih ha

theorem edge?_eq_none_of_le {j k : Nat} (hLE : j ≤ k) (hNone : edge? step start j = none) :
    edge? step start k = none := by
  cases hEdge : edge? step start k with
  | none => rfl
  | some b =>
      rcases exists_edge?_of_le hLE hEdge with ⟨a, ha⟩
      rw [hNone] at ha
      cases ha

theorem edge?_lt (hForward : Forward step) {j k : Nat} (hLT : j < k) {a b : Timestamp}
    (ha : edge? step start j = some a) (hb : edge? step start k = some b) : a < b := by
  induction hLT generalizing b with
  | refl =>
      rw [edge?, ha] at hb
      exact Duration.lt_of_addTo?_eq_some hForward.1 hForward.2 hb
  | step _ ih =>
      rcases Option.bind_eq_some_iff.mp hb with ⟨c, hc, hStep⟩
      exact Std.lt_trans (ih hc) (Duration.lt_of_addTo?_eq_some hForward.1 hForward.2 hStep)

/-- Between edges there is a tick at least, so that the calendar has no room for too many. -/
theorem add_le_ticks_edge? (hForward : Forward step) {k : Nat} {e : Timestamp}
    (he : edge? step start k = some e) : start.ticks + k ≤ e.ticks := by
  induction k generalizing e with
  | zero =>
      cases he
      exact Int.le_of_eq (Int.add_zero _)
  | succ k ih =>
      rcases Option.bind_eq_some_iff.mp he with ⟨b, hb, hStep⟩
      have hBefore := ih hb
      have hTick := Duration.ticks_lt_of_addTo?_eq_some hForward.1 hForward.2 hStep
      omega

theorem le_roomLimit_of_edge?_eq_some (hForward : Forward step) {k : Nat} {e : Timestamp}
    (he : edge? step start k = some e) : k ≤ roomLimit := by
  have hTicks := add_le_ticks_edge? hForward he
  have hMost := Timestamp.ticks_sub_ticks_le start e
  unfold roomLimit
  omega

/-!
# Finding the edges
-/

/--
What the search for edges does without being told how many steps it may take:
`EdgeRun step finish limit taken edges edge answer` says that from the edges found,
the last of which is `edge`, it comes to the answer by stepping on `taken` times.
-/
inductive EdgeRun (step : Duration) (finish : Timestamp) (limit : Nat) :
    Nat -> Array Timestamp -> Timestamp -> Attempt (Array Timestamp) -> Prop where
  | reached {edges edge} (hEnd : ¬ edge < finish) :
      EdgeRun step finish limit 0 edges edge (.ok edges)
  | full {edges edge} (hMore : edge < finish) (hFull : limit < edges.size) :
      EdgeRun step finish limit 0 edges edge (.error (tooMany edges.size limit))
  | overflow {edges edge} (hMore : edge < finish) (hRoom : edges.size ≤ limit)
      (hStep : step.addTo? edge = none) :
      EdgeRun step finish limit 1 edges edge
        (.error (badResolution "bucket edge overflows the calendar"))
  | next {edges edge further taken answer} (hMore : edge < finish)
      (hRoom : edges.size ≤ limit) (hStep : step.addTo? edge = some further)
      (hRest : EdgeRun step finish limit taken (edges.push further) further answer) :
      EdgeRun step finish limit (taken + 1) edges edge answer

theorem exists_edgeRun_extendEdges {steps : Nat} {edges : Array Timestamp} {edge : Timestamp}
    (hSteps : edges.size + steps = limit + 1) :
    exists taken, taken ≤ steps ∧
      EdgeRun step finish limit taken edges edge
        (extendEdges step finish limit steps edges edge) := by
  induction steps generalizing edges edge with
  | zero =>
      unfold extendEdges
      by_cases hMore : edge < finish
      · rw [if_pos hMore]
        exact ⟨0, Nat.le_refl 0, .full hMore (by omega)⟩
      · rw [if_neg hMore]
        exact ⟨0, Nat.le_refl 0, .reached hMore⟩
  | succ steps ih =>
      unfold extendEdges
      by_cases hMore : edge < finish
      · rw [if_pos hMore]
        have hRoom : edges.size ≤ limit := by omega
        cases hStep : step.addTo? edge with
        | none => exact ⟨1, by omega, .overflow hMore hRoom hStep⟩
        | some further =>
            have hSize : (edges.push further).size + steps = limit + 1 := by
              rw [Array.size_push]
              omega
            rcases ih hSize with ⟨taken, hTaken, hRest⟩
            exact ⟨taken + 1, by omega, .next hMore hRoom hStep hRest⟩
      · rw [if_neg hMore]
        exact ⟨0, Nat.zero_le _, .reached hMore⟩

structure FirstEdges (step : Duration) (start : Timestamp) (last : Nat)
    (edges : Array Timestamp) (edge : Timestamp) : Prop where
  size : edges.size = last + 1
  at_place : forall k, k ≤ last -> edges[k]? = edge? step start k
  last_edge : edge? step start last = some edge

theorem firstEdges_start : FirstEdges step start 0 #[start] start where
  size := rfl
  at_place k hk := by
    cases Nat.le_zero.mp hk
    rfl
  last_edge := rfl

theorem FirstEdges.push {last : Nat} {edges : Array Timestamp} {edge further : Timestamp}
    (h : FirstEdges step start last edges edge) (hStep : step.addTo? edge = some further) :
    FirstEdges step start (last + 1) (edges.push further) further := by
  have hLast : edge? step start (last + 1) = some further := by
    rw [edge?, h.last_edge]
    exact hStep
  constructor
  · rw [Array.size_push, h.size]
  · intro k hk
    rw [Array.getElem?_push, h.size]
    by_cases hNew : k = last + 1
    · rw [if_pos hNew, hNew, hLast]
    · rw [if_neg hNew]
      exact h.at_place k (by omega)
  · exact hLast

def BelowUpTo (step : Duration) (start finish : Timestamp) (count : Nat) : Prop :=
  forall k, k < count -> exists e, edge? step start k = some e ∧ e < finish

theorem BelowUpTo.succ {count : Nat} {e : Timestamp}
    (h : BelowUpTo step start finish count) (he : edge? step start count = some e)
    (hMore : e < finish) : BelowUpTo step start finish (count + 1) := by
  intro k hk
  by_cases hLast : k = count
  · rw [hLast]
    exact ⟨e, he, hMore⟩
  · exact h k (by omega)

theorem BelowUpTo.start_ne_finish {count : Nat} (h : BelowUpTo step start finish count)
    (hSome : 0 < count) : start ≠ finish := by
  rcases h 0 hSome with ⟨e, he, hMore⟩
  cases he
  rintro rfl
  exact Std.lt_irrefl hMore

theorem BelowUpTo.le_of_finish_le {count k : Nat} {e : Timestamp}
    (h : BelowUpTo step start finish count) (he : edge? step start k = some e)
    (hReached : finish ≤ e) : count ≤ k := by
  by_cases hk : k < count
  · rcases h k hk with ⟨e', he', hMore⟩
    rw [he] at he'
    cases he'
    exact absurd hMore (Std.not_lt.mpr hReached)
  · exact Nat.not_lt.mp hk

inductive EdgeOutcome (step : Duration) (start finish : Timestamp) (limit : Nat) :
    Attempt (Array Timestamp) -> Prop where
  | reached {last edges edge} (hRoom : last ≤ limit)
      (hEdges : FirstEdges step start last edges edge)
      (hBelow : BelowUpTo step start finish last) (hEnd : ¬ edge < finish) :
      EdgeOutcome step start finish limit (.ok edges)
  | full (hBelow : BelowUpTo step start finish (limit + 1)) :
      EdgeOutcome step start finish limit (.error (tooMany (limit + 1) limit))
  | overflow {last} (hRoom : last < limit) (hBelow : BelowUpTo step start finish (last + 1))
      (hNone : edge? step start (last + 1) = none) :
      EdgeOutcome step start finish limit
        (.error (badResolution "bucket edge overflows the calendar"))

theorem edgeOutcome_of_edgeRun {taken last : Nat} {edges : Array Timestamp} {edge : Timestamp}
    {answer : Attempt (Array Timestamp)}
    (hRun : EdgeRun step finish limit taken edges edge answer)
    (hEdges : FirstEdges step start last edges edge)
    (hBelow : BelowUpTo step start finish last) (hLast : last ≤ limit) :
    EdgeOutcome step start finish limit answer := by
  induction hRun generalizing last with
  | reached hEnd => exact .reached hLast hEdges hBelow hEnd
  | full hMore hFull =>
      have hSize := hEdges.size
      have hEnd : last = limit := by omega
      rw [hSize, hEnd]
      rw [hEnd] at hBelow hEdges
      exact .full (hBelow.succ hEdges.last_edge hMore)
  | overflow hMore hRoom hStep =>
      have hSize := hEdges.size
      have hNone : edge? step start (last + 1) = none := by
        rw [edge?, hEdges.last_edge]
        exact hStep
      exact .overflow (by omega) (hBelow.succ hEdges.last_edge hMore) hNone
  | next hMore hRoom hStep hRest ih =>
      have hSize := hEdges.size
      exact ih (hEdges.push hStep) (hBelow.succ hEdges.last_edge hMore) (by omega)

theorem edgeOutcome_extendEdges (step : Duration) (start finish : Timestamp) (limit : Nat) :
    EdgeOutcome step start finish limit
      (extendEdges step finish limit limit #[start] start) := by
  have hSteps : (#[start] : Array Timestamp).size + limit = limit + 1 := Nat.add_comm 1 limit
  rcases exists_edgeRun_extendEdges hSteps with ⟨taken, _, hRun⟩
  apply edgeOutcome_of_edgeRun hRun firstEdges_start _ (Nat.zero_le limit)
  intro k hk
  omega

/-!
# Finding the bucket of a time
-/

section

variable {α : Type} {p : α -> Bool} {xs : Array α} {place : Nat}

/--
Halving finds the place where a property starts to fail.  That place stays between
the base of the part in question and its end.
-/
theorem firstFailure_eq (hPlace : forall k x, xs[k]? = some x -> (p x = true <-> k < place))
    {base size : Nat} (hSize : 1 ≤ size) (hFit : base + size ≤ xs.size)
    (hBase : base ≤ place) (hEnd : place ≤ base + size) :
    firstFailure p xs base size = place := by
  induction size using Nat.strongRecOn generalizing base with
  | ind size ih =>
      unfold firstFailure
      by_cases hMany : 1 < size
      · rw [dif_pos hMany]
        have hMiddle := Array.getElem?_eq_getElem (show base + size / 2 < xs.size by omega)
        have hSplit := hPlace _ _ hMiddle
        dsimp only
        rw [hMiddle]
        dsimp only
        by_cases hHolds : p xs[base + size / 2]
        · rw [if_pos hHolds]
          have hAfter := hSplit.mp hHolds
          exact ih _ (by omega) (by omega) (by omega) (by omega) (by omega)
        · rw [if_neg hHolds]
          have hBefore : ¬ base + size / 2 < place := fun h => hHolds (hSplit.mpr h)
          exact ih _ (by omega) (by omega) (by omega) (by omega) (by omega)
      · rw [dif_neg hMany]
        have hOne := Array.getElem?_eq_getElem (show base < xs.size by omega)
        have hSplit := hPlace _ _ hOne
        rw [hOne]
        dsimp only
        by_cases hHolds : p xs[base]
        · rw [if_pos hHolds]
          have hAfter := hSplit.mp hHolds
          omega
        · rw [if_neg hHolds]
          have hBefore : ¬ base < place := fun h => hHolds (hSplit.mpr h)
          omega

theorem exists_place {q : Nat -> Prop} (hDown : forall j k, j ≤ k -> q k -> q j) (n : Nat) :
    exists place, place ≤ n ∧ forall k, k < n -> (q k <-> k < place) := by
  induction n with
  | zero => exact ⟨0, Nat.le_refl 0, fun k hk => absurd hk (Nat.not_lt_zero k)⟩
  | succ n ih =>
      by_cases hLast : q n
      · refine ⟨n + 1, Nat.le_refl _, ?_⟩
        intro k hk
        exact ⟨fun _ => hk, fun _ => hDown k n (by omega) hLast⟩
      · rcases ih with ⟨place, hLE, hPlace⟩
        refine ⟨place, by omega, ?_⟩
        intro k hk
        by_cases hEnd : k = n
        · rw [hEnd]
          exact ⟨fun h => absurd h hLast, fun h => absurd hLE (by omega)⟩
        · exact hPlace k (by omega)

end

theorem le_temporalIndex_iff (hForward : Forward step) {last : Nat}
    {edges : Array Timestamp} {edge : Timestamp}
    (hEdges : FirstEdges step start last edges edge) {t : Timestamp} (hStart : start ≤ t)
    {k : Nat} (hk : k ≤ last) {e : Timestamp} (he : edge? step start k = some e) :
    k ≤ temporalIndex edges t <-> e ≤ t := by
  have hDown : forall j k, j ≤ k ->
      (exists e, edge? step start k = some e ∧ e ≤ t) ->
      exists e, edge? step start j = some e ∧ e ≤ t := by
    rintro j k hLE ⟨b, hb, hReached⟩
    rcases Nat.eq_or_lt_of_le hLE with rfl | hLT
    · exact ⟨b, hb, hReached⟩
    · rcases exists_edge?_of_le hLE hb with ⟨a, ha⟩
      exact ⟨a, ha, Std.le_trans (Std.le_of_lt (edge?_lt hForward hLT ha hb)) hReached⟩
  rcases exists_place hDown edges.size with ⟨place, hLE, hPlace⟩
  have hSize := hEdges.size
  have hFound : firstFailure (fun edge => edge ≤ t) edges 0 edges.size = place := by
    apply firstFailure_eq _ (by omega) (by omega) (Nat.zero_le _) (by omega)
    intro j x hx
    have hj : j < edges.size := (Array.getElem?_eq_some_iff.mp hx).1
    rw [hEdges.at_place j (by omega)] at hx
    rw [← hPlace j hj, hx, decide_eq_true_iff]
    simp
  have hFirst : 0 < place := (hPlace 0 (by omega)).mp ⟨start, rfl, hStart⟩
  have hOwn := hPlace k (by omega)
  rw [he] at hOwn
  unfold temporalIndex
  rw [hFound]
  constructor
  · intro hIndex
    rcases hOwn.mpr (by omega) with ⟨e', he', hReached⟩
    cases he'
    exact hReached
  · intro hReached
    have hBelow := hOwn.mp ⟨e, rfl, hReached⟩
    omega

end

end Histogram
end LayerAxes
