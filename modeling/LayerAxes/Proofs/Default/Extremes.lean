import LayerAxes.Dimension.Default
import LayerAxes.Proofs.Order.Distinct

/-!
# Least and greatest values

The least value of a domain is found in one pass, which keeps the value that came
first of all those in the least place.  Sorting and dropping repeated values puts
the same value at the front of the list.  The greatest value is the least one in
the other direction, where the list is reversed, and so it stands at the end.

A pass through values of two kinds fails at the first value of another kind, as
sorting does.
-/

namespace LayerAxes

open Std

namespace Value

/-!
# The value that leads a list
-/

/-- The value is the first of its place in the list, and no place comes before it. -/
structure Leads (direction : Direction) (values : List Value) (best : Value) : Prop where
  first : values.find? (fun w => w.same best) = some best
  unbeaten : forall v, v ∈ values -> ¬ Before direction v best

section

variable {direction : Direction} {values : List Value} {best : Value}

theorem leads_singleton (direction : Direction) (v : Value) : Leads direction [v] v := by
  constructor
  · rw [List.find?_cons, same_self]
  · intro w hw hBefore
    have hNot := hBefore.not_same
    rw [List.mem_singleton.mp hw, same_self] at hNot
    cases hNot

theorem Leads.mem (h : Leads direction values best) : best ∈ values :=
  List.mem_of_find?_eq_some h.first

theorem Leads.snoc_before (h : Leads direction values best) {v : Value}
    (hBefore : Before direction v best) : Leads direction (values ++ [v]) v := by
  constructor
  · have hNew : values.find? (fun w => w.same v) = none := by
      rw [List.find?_eq_none]
      intro w hw hSame
      exact h.unbeaten w hw ((TransCmp.congr_left (placeIn_eq_eq_iff.mpr (same_iff.mp hSame))).trans
        hBefore)
    rw [List.find?_append, hNew, List.find?_singleton, same_self]
    rfl
  · intro w hw hFirst
    rcases List.mem_append.mp hw with hEarlier | hLast
    · exact h.unbeaten w hEarlier (hFirst.trans hBefore)
    · exact (leads_singleton direction v).unbeaten w hLast hFirst

theorem Leads.snoc_not_before (h : Leads direction values best) {v : Value}
    (hNot : ¬ Before direction v best) : Leads direction (values ++ [v]) best := by
  constructor
  · rw [List.find?_append, h.first]
    rfl
  · intro w hw
    rcases List.mem_append.mp hw with hEarlier | hLast
    · exact h.unbeaten w hEarlier
    · rw [List.mem_singleton.mp hLast]
      exact hNot

theorem Leads.head?_distinct (h : Leads direction values best) {kept : List Value}
    (hKept : Distinct direction values kept) : kept.head? = some best := by
  have hMem : best ∈ kept := hKept.mem_iff.mpr h.first
  cases kept with
  | nil => cases hMem
  | cons first rest =>
      rcases List.mem_cons.mp hMem with rfl | hLater
      · rfl
      · have hBefore := List.rel_of_pairwise_cons hKept.increasing hLater
        exact absurd hBefore (h.unbeaten first (hKept.subset List.mem_cons_self))

end

theorem mixedKinds_congr {a b a' b' : Value} (ha : a.kind = a'.kind) (hb : b.kind = b'.kind) :
    mixedKinds a b = mixedKinds a' b' := by
  unfold mixedKinds
  rw [ha, hb]

theorem placeIn_opposite_eq_lt_iff {direction : Direction} {a b : Value} :
    placeIn direction.opposite a b = .lt <-> placeIn direction a b = .gt := by
  rw [placeIn_opposite, Ordering.swap_eq_lt]

end Value

namespace DefaultSetting

open Value

/-!
# One pass through a domain
-/

section

variable {direction : Direction} {best v : Value} {values : List Value}

theorem better_eq_ok (wanted : Ordering) (h : v.kind = best.kind) :
    better direction wanted best v =
      .ok (if placeIn direction v best = wanted then v else best) := by
  unfold better
  rw [compareIn_eq_ok direction h]
  rfl

theorem better_eq_error (wanted : Ordering) (h : v.kind ≠ best.kind) :
    better direction wanted best v = .error (mixedKinds v best) := by
  unfold better
  rw [compareIn_eq_error direction h]
  rfl

theorem exists_better_eq_ok (h : Leads direction values best) (hKind : v.kind = best.kind) :
    exists next, better direction .lt best v = .ok next ∧ Leads direction (values ++ [v]) next := by
  rw [better_eq_ok .lt hKind]
  by_cases hBefore : placeIn direction v best = .lt
  · rw [if_pos hBefore]
    exact ⟨v, rfl, h.snoc_before hBefore⟩
  · rw [if_neg hBefore]
    exact ⟨best, rfl, h.snoc_not_before hBefore⟩

/-- The best value of all is found, given the one that leads the values before. -/
theorem exists_foldlM_better_eq_ok (h : Leads direction values best) {rest : List Value}
    (hKind : OneKind (values ++ rest)) :
    exists last, rest.foldlM (better direction .lt) best = .ok last ∧
      Leads direction (values ++ rest) last := by
  induction rest generalizing values best with
  | nil =>
      rw [List.append_nil]
      exact ⟨best, rfl, h⟩
  | cons v rest ih =>
      have hSame : v.kind = best.kind :=
        hKind v (List.mem_append_right _ List.mem_cons_self) best
          (List.mem_append_left _ h.mem)
      rcases exists_better_eq_ok h hSame with ⟨next, hNext, hLeads⟩
      rw [List.append_cons] at hKind ⊢
      rcases ih hLeads hKind with ⟨last, hLast, hAll⟩
      refine ⟨last, ?_, hAll⟩
      rw [List.foldlM_cons, hNext]
      exact hLast

theorem foldlM_better_eq_error {wanted : Ordering} {other : Value}
    (h : values.find? (fun v => v.kind != best.kind) = some other) :
    values.foldlM (better direction wanted) best = .error (mixedKinds other best) := by
  induction values generalizing best with
  | nil => cases h
  | cons v values ih =>
      rw [List.find?_cons] at h
      rw [List.foldlM_cons]
      by_cases hKind : v.kind = best.kind
      · rw [hKind, bne_self_eq_false] at h
        have hNext : (if placeIn direction v best = wanted then v else best).kind = best.kind := by
          split
          · exact hKind
          · rfl
        rw [better_eq_ok wanted hKind]
        rw [← hNext] at h
        exact (ih h).trans (congrArg Except.error (mixedKinds_congr rfl hNext))
      · rw [bne_iff_ne.mpr hKind] at h
        cases h
        rw [better_eq_error wanted hKind]
        rfl

end

/-!
# Least and greatest
-/

section

variable {direction : Direction} {values : List Value}

theorem extreme_lt_eq_head? {kept : List Value} (hKind : OneKind values)
    (hKept : Distinct direction values kept) : extreme direction .lt values = .ok kept.head? := by
  cases values with
  | nil =>
      cases kept with
      | nil => rfl
      | cons v kept => cases hKept.subset List.mem_cons_self
  | cons v rest =>
      rcases exists_foldlM_better_eq_ok (leads_singleton direction v) hKind with
        ⟨last, hLast, hLeads⟩
      rw [extreme, hLast, hLeads.head?_distinct hKept]
      rfl

theorem better_gt_eq (direction : Direction) :
    better direction .gt = better direction.opposite .lt := by
  funext best v
  by_cases hKind : v.kind = best.kind
  · rw [better_eq_ok .gt hKind, better_eq_ok .lt hKind]
    simp only [placeIn_opposite_eq_lt_iff]
  · rw [better_eq_error .gt hKind, better_eq_error .lt hKind]

theorem extreme_gt_eq_getLast? {kept : List Value} (hKind : OneKind values)
    (hKept : Distinct direction values kept) :
    extreme direction .gt values = .ok kept.getLast? := by
  have hTurned : extreme direction .gt values = extreme direction.opposite .lt values := by
    cases values with
    | nil => rfl
    | cons v rest => rw [extreme, extreme, better_gt_eq]
  rw [hTurned, extreme_lt_eq_head? hKind hKept.reverse, List.head?_reverse]

theorem exists_extreme_eq_error (direction : Direction) (wanted : Ordering)
    (h : ¬ OneKind values) :
    exists first other, values.head? = some first ∧
      values.find? (fun v => v.kind != first.kind) = some other ∧
      extreme direction wanted values = .error (mixedKinds other first) := by
  rcases exists_sort_eq_error direction h with ⟨first, other, hFirst, hOther, _⟩
  refine ⟨first, other, hFirst, hOther, ?_⟩
  cases values with
  | nil => cases hFirst
  | cons v rest =>
      cases hFirst
      rw [List.find?_cons, bne_self_eq_false] at hOther
      rw [extreme, foldlM_better_eq_error hOther]
      rfl

end

/--
The answer is the end of the domain that `pick` takes from the list without
repeated values.  There is none just when the domain is empty, and an error just
when the domain cannot be sorted.
-/
structure IsEnd (pick : List Value -> Option Value) (direction : Direction) (values : List Value)
    (answer : Answer (Option Value)) : Prop where
  of_sorted : forall sorted, sort direction values = .ok sorted ->
    exists kept, dedup direction sorted = .ok kept ∧ answer = .ok (pick kept)
  none_iff : answer = .ok none <-> values = []
  unsupported_iff : (exists subject, answer = .error (.unsupportedSort subject)) <->
    exists e, sort direction values = .error e

section

variable {pick : List Value -> Option Value} {direction : Direction} {values : List Value}

theorem isEnd_of_oneKind {kept : List Value} (hKind : OneKind values)
    (hKept : dedup direction (values.mergeSort (precedes direction)) = .ok kept)
    (hNone : pick kept = none <-> values = []) :
    IsEnd pick direction values (.ok (pick kept)) := by
  have hSort := sort_eq_ok direction hKind
  refine ⟨?_, ?_, ?_⟩
  · intro sorted hSorted
    rw [hSort] at hSorted
    cases hSorted
    exact ⟨kept, hKept, rfl⟩
  · rw [Except.ok.injEq, hNone]
  · rw [hSort]
    constructor
    · rintro ⟨_, hError⟩
      cases hError
    · rintro ⟨_, hError⟩
      cases hError

theorem isEnd_of_not_oneKind (hKind : ¬ OneKind values) (a b : Value) :
    IsEnd pick direction values (.error (mixedKinds a b)) := by
  rcases exists_sort_eq_error direction hKind with ⟨first, other, hFirst, _, hSort⟩
  refine ⟨?_, ?_, ?_⟩
  · intro sorted hSorted
    rw [hSort] at hSorted
    cases hSorted
  · constructor
    · intro hOk
      cases hOk
    · rintro rfl
      cases hFirst
  · exact ⟨fun _ => ⟨_, hSort⟩, fun _ => ⟨_, rfl⟩⟩

theorem isEnd_of_extreme {wanted : Ordering} (hPick : forall kept, pick kept = none <-> kept = [])
    (hEnd : forall kept, OneKind values -> Distinct direction values kept ->
      extreme direction wanted values = .ok (pick kept)) :
    IsEnd pick direction values (extreme direction wanted values) := by
  by_cases hKind : OneKind values
  · have hDistinct := distinct_destutter direction values
    rw [hEnd _ hKind hDistinct]
    exact isEnd_of_oneKind hKind (dedup_mergeSort direction hKind)
      ((hPick _).trans hDistinct.eq_nil_iff)
  · rcases exists_extreme_eq_error direction wanted hKind with ⟨first, other, _, _, hAnswer⟩
    rw [hAnswer]
    exact isEnd_of_not_oneKind hKind other first

end

/--
The least and the greatest of a domain are the first and the last of its values in
order without repetitions, each in the form in which it came first.
-/
theorem extremes_are_ends_of_distinct (values : List Value) (direction : Direction)
    (type : DataType) (reference : Option String) :
    IsEnd List.head? direction values
      (resolve ⟨.minimum, reference⟩ values type direction) ∧
    IsEnd List.getLast? direction values
      (resolve ⟨.maximum, reference⟩ values type direction) := by
  constructor
  · exact isEnd_of_extreme (fun _ => List.head?_eq_none_iff)
      fun _ hKind hKept => extreme_lt_eq_head? hKind hKept
  · exact isEnd_of_extreme (fun _ => List.getLast?_eq_none_iff)
      fun _ hKind hKept => extreme_gt_eq_getLast? hKind hKept

end DefaultSetting
end LayerAxes
