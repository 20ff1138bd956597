import LayerAxes.Proofs.Order.Listing

/-!
# Distinct values

A domain without repetitions has one value for every place that is taken in it,
and this is the value that came first.  There is only one such list in each
direction, so that listing a domain backwards reverses it, and the order in which
the values came decides only between values that take the same place.
-/

namespace LayerAxes

open Std

namespace Value

/-!
# Places
-/

theorem same_iff {v w : Value} : v.same w = true <-> compare v w = .eq :=
  beq_iff_eq

theorem same_self (v : Value) : v.same v = true :=
  same_iff.mpr ReflCmp.compare_self

theorem same_symm {v w : Value} (h : v.same w = true) : w.same v = true :=
  same_iff.mpr (OrientedCmp.eq_symm (same_iff.mp h))

theorem same_trans {u v w : Value} (huv : u.same v = true) (hvw : v.same w = true) :
    u.same w = true :=
  same_iff.mpr (TransCmp.eq_trans (same_iff.mp huv) (same_iff.mp hvw))

theorem same_congr_left {u v : Value} (h : u.same v = true) (w : Value) :
    u.same w = v.same w := by
  rw [Bool.eq_iff_iff]
  exact ⟨same_trans (same_symm h), same_trans h⟩

def Before (direction : Direction) (v w : Value) : Prop :=
  placeIn direction v w = .lt

section

variable {direction : Direction} {u v w : Value}

theorem Before.trans (huv : Before direction u v) (hvw : Before direction v w) :
    Before direction u w :=
  TransCmp.lt_trans huv hvw

theorem Before.not_same (h : Before direction v w) : v.same w = false := by
  rw [Bool.eq_false_iff]
  intro hSame
  have hPlace : placeIn direction v w = .eq := placeIn_eq_eq_iff.mpr (same_iff.mp hSame)
  rw [h] at hPlace
  cases hPlace

theorem before_of_differ (hLE : (placeIn direction v w).isLE = true) (hDiffer : Differ v w) :
    Before direction v w := by
  cases hPlace : placeIn direction v w with
  | lt => exact hPlace
  | eq => exact absurd (placeIn_eq_eq_iff.mp hPlace) hDiffer
  | gt =>
      rw [hPlace] at hLE
      cases hLE

theorem before_congr_right (hSame : v.same w = true) (h : Before direction u v) :
    Before direction u w := by
  have hPlace : placeIn direction v w = .eq := placeIn_eq_eq_iff.mpr (same_iff.mp hSame)
  exact (TransCmp.congr_right hPlace).symm.trans h

end

/-!
# Lists without repetitions
-/

variable {direction : Direction} {values : List Value}

theorem pairwise_before_of_isChain
    (hOrdered : values.Pairwise fun v w => (placeIn direction v w).isLE = true)
    (hDiffer : values.IsChain Differ) : values.Pairwise (Before direction) := by
  induction values with
  | nil => exact List.Pairwise.nil
  | cons v values ih =>
      rcases List.pairwise_cons.mp hOrdered with ⟨hFirst, hRest⟩
      cases values with
      | nil => exact List.pairwise_singleton _ _
      | cons w values =>
          rcases List.isChain_cons_cons.mp hDiffer with ⟨hNext, hChain⟩
          have hBefore := before_of_differ (hFirst w List.mem_cons_self) hNext
          have hOthers := ih hRest hChain
          refine List.pairwise_cons.mpr ⟨?_, hOthers⟩
          intro u hu
          rcases List.mem_cons.mp hu with rfl | hLater
          · exact hBefore
          · exact hBefore.trans (List.rel_of_pairwise_cons hOthers hLater)

/-- Of the neighbours in each place the first one is kept. -/
theorem filter_destutter' {first : Value}
    (hOrdered : (first :: values).Pairwise fun v w => (placeIn direction v w).isLE = true)
    (v : Value) :
    (values.destutter' Differ first).filter (fun w => w.same v) =
      ((first :: values).find? fun w => w.same v).toList := by
  induction values generalizing first with
  | nil =>
      rw [List.destutter'_nil, ← List.head?_filter, List.filter_singleton]
      cases first.same v <;> rfl
  | cons next values ih =>
      rcases List.pairwise_cons.mp hOrdered with ⟨hFirst, hRest⟩
      by_cases hDiffer : Differ first next
      · rw [List.destutter'_cons_pos _ hDiffer, List.find?_cons, List.filter_cons, ih hRest]
        cases hSame : first.same v with
        | false => rfl
        | true =>
            have hNone : (next :: values).find? (fun w => w.same v) = none := by
              rw [List.find?_eq_none]
              intro w hw hTie
              have hBefore : Before direction first w := by
                have hNext := before_of_differ (hFirst next List.mem_cons_self) hDiffer
                rcases List.mem_cons.mp hw with rfl | hLater
                · exact hNext
                · exact TransCmp.lt_of_lt_of_isLE hNext (List.rel_of_pairwise_cons hRest hLater)
              have hNot := hBefore.not_same
              rw [same_trans hSame (same_symm hTie)] at hNot
              cases hNot
            rw [hNone]
            rfl
      · have hTie : first.same next = true := same_iff.mpr (not_not.mp hDiffer)
        have hSkip : (first :: values).Pairwise fun v w => (placeIn direction v w).isLE = true :=
          List.pairwise_cons.mpr
            ⟨fun w hw => hFirst w (List.mem_cons_of_mem _ hw), (List.pairwise_cons.mp hRest).2⟩
        rw [List.destutter'_cons_neg _ hDiffer, ih hSkip, List.find?_cons, List.find?_cons,
          List.find?_cons, same_congr_left hTie]
        cases next.same v <;> rfl

/--
The list has its values in order, and for every place the value that is the first
of `values` to take it.
-/
structure Distinct (direction : Direction) (values distinct : List Value) : Prop where
  increasing : distinct.Pairwise (Before direction)
  firsts : forall v, distinct.filter (fun w => w.same v) =
    (values.find? fun w => w.same v).toList

namespace Distinct

theorem exists_same_iff {distinct : List Value} (h : Distinct direction values distinct)
    (v : Value) :
    (exists w, w ∈ distinct ∧ w.same v = true) <-> exists w, w ∈ values ∧ w.same v = true := by
  have hFirst := h.firsts v
  rw [← List.find?_isSome, ← List.find?_isSome, ← List.head?_filter, hFirst]
  cases values.find? fun w => w.same v <;> rfl

theorem mem_iff {distinct : List Value} (h : Distinct direction values distinct) {v : Value} :
    v ∈ distinct <-> values.find? (fun w => w.same v) = some v := by
  have hFirst := h.firsts v
  constructor
  · intro hv
    have hMem : v ∈ distinct.filter fun w => w.same v := List.mem_filter.mpr ⟨hv, same_self v⟩
    rw [hFirst] at hMem
    exact Option.mem_toList.mp hMem
  · intro hFind
    have hMem : v ∈ distinct.filter fun w => w.same v := by
      rw [hFirst, hFind]
      exact List.mem_singleton_self v
    exact List.mem_of_mem_filter hMem

theorem subset {distinct : List Value} (h : Distinct direction values distinct) :
    distinct ⊆ values := by
  intro v hv
  exact List.mem_of_find?_eq_some (h.mem_iff.mp hv)

theorem eq_nil_iff {distinct : List Value} (h : Distinct direction values distinct) :
    distinct = [] <-> values = [] := by
  constructor
  · rintro rfl
    rw [List.eq_nil_iff_forall_not_mem]
    intro v hv
    rcases (h.exists_same_iff v).mpr ⟨v, hv, same_self v⟩ with ⟨w, hw, _⟩
    cases hw
  · rintro rfl
    exact List.subset_nil.mp h.subset

theorem nodup {distinct : List Value} (h : Distinct direction values distinct) :
    distinct.Nodup := by
  refine h.increasing.imp ?_
  rintro v w hBefore rfl
  exact absurd (same_self v) (by rw [hBefore.not_same]; decide)

theorem reverse {distinct : List Value} (h : Distinct direction values distinct) :
    Distinct direction.opposite values distinct.reverse where
  increasing := by
    rw [List.pairwise_reverse]
    refine h.increasing.imp ?_
    intro v w hBefore
    show placeIn direction.opposite w v = .lt
    rw [placeIn_opposite, ← OrientedCmp.eq_swap]
    exact hBefore
  firsts v := by
    rw [List.filter_reverse, h.firsts v]
    cases values.find? fun w => w.same v <;> rfl

end Distinct

/-!
# Lists that take the same places
-/

section

variable {x y v : Value} {xs ys : List Value}

theorem same_or_before (hOrdered : (y :: ys).Pairwise (Before direction))
    (hTaken : exists w, w ∈ y :: ys ∧ w.same v = true) :
    y.same v = true ∨ Before direction y v := by
  rcases hTaken with ⟨w, hw, hSame⟩
  rcases List.mem_cons.mp hw with rfl | hLater
  · exact Or.inl hSame
  · exact Or.inr (before_congr_right hSame (List.rel_of_pairwise_cons hOrdered hLater))

theorem exists_later (hTie : x.same y = true) (hBefore : Before direction x v)
    (hTaken : exists w, w ∈ y :: ys ∧ w.same v = true) :
    exists w, w ∈ ys ∧ w.same v = true := by
  rcases hTaken with ⟨w, hw, hSame⟩
  rcases List.mem_cons.mp hw with rfl | hLater
  · have hNot := hBefore.not_same
    rw [same_trans hTie hSame] at hNot
    cases hNot
  · exact ⟨w, hLater, hSame⟩

theorem exists_in_rest (hTie : x.same y = true) (hFirst : forall w, w ∈ xs -> Before direction x w)
    (hTaken : exists w, w ∈ xs ∧ w.same v = true)
    (hOther : exists w, w ∈ y :: ys ∧ w.same v = true) :
    exists w, w ∈ ys ∧ w.same v = true := by
  rcases hTaken with ⟨w, hw, hSame⟩
  exact exists_later hTie (before_congr_right hSame (hFirst w hw)) hOther

/-- Lists in order that take the same places agree place by place. -/
theorem forall₂_same (hxs : xs.Pairwise (Before direction))
    (hys : ys.Pairwise (Before direction))
    (hPlaces : forall v,
      (exists x, x ∈ xs ∧ x.same v = true) <-> exists y, y ∈ ys ∧ y.same v = true) :
    List.Forall₂ (fun x y => x.same y = true) xs ys := by
  induction xs generalizing ys with
  | nil =>
      cases ys with
      | nil => exact List.Forall₂.nil
      | cons y ys =>
          rcases (hPlaces y).mpr ⟨y, List.mem_cons_self, same_self y⟩ with ⟨x, hx, _⟩
          cases hx
  | cons x xs ih =>
      cases ys with
      | nil =>
          rcases (hPlaces x).mp ⟨x, List.mem_cons_self, same_self x⟩ with ⟨y, hy, _⟩
          cases hy
      | cons y ys =>
          have hTie : x.same y = true := by
            have hyTaken := (hPlaces y).mpr ⟨y, List.mem_cons_self, same_self y⟩
            have hxTaken := (hPlaces x).mp ⟨x, List.mem_cons_self, same_self x⟩
            rcases same_or_before hxs hyTaken with hSame | hxy
            · exact hSame
            · rcases same_or_before hys hxTaken with hSame | hyx
              · exact same_symm hSame
              · exact absurd (same_self x) (by rw [(hxy.trans hyx).not_same]; decide)
          rcases List.pairwise_cons.mp hxs with ⟨hxFirst, hxRest⟩
          rcases List.pairwise_cons.mp hys with ⟨hyFirst, hyRest⟩
          refine List.Forall₂.cons hTie (ih hxRest hyRest ?_)
          intro v
          constructor
          · rintro ⟨w, hw, hSame⟩
            exact exists_in_rest hTie hxFirst ⟨w, hw, hSame⟩
              ((hPlaces v).mp ⟨w, List.mem_cons_of_mem _ hw, hSame⟩)
          · rintro ⟨w, hw, hSame⟩
            exact exists_in_rest (same_symm hTie) hyFirst ⟨w, hw, hSame⟩
              ((hPlaces v).mpr ⟨w, List.mem_cons_of_mem _ hw, hSame⟩)

end

namespace Distinct

variable {other distinct otherDistinct : List Value}

theorem forall₂ (h : Distinct direction values distinct)
    (hOther : Distinct direction other otherDistinct)
    (hPlaces : forall v, (exists w, w ∈ values ∧ w.same v = true) <->
      exists w, w ∈ other ∧ w.same v = true) :
    List.Forall₂ (fun v w => v.same w = true) distinct otherDistinct := by
  apply forall₂_same h.increasing hOther.increasing
  intro v
  rw [h.exists_same_iff, hOther.exists_same_iff]
  exact hPlaces v

theorem unique (h : Distinct direction values distinct)
    (hOther : Distinct direction values otherDistinct) : distinct = otherDistinct := by
  have hPerm : distinct.Perm otherDistinct := by
    rw [List.perm_ext_iff_of_nodup h.nodup hOther.nodup]
    intro v
    rw [h.mem_iff, hOther.mem_iff]
  refine hPerm.eq_of_pairwise ?_ h.increasing hOther.increasing
  intro v w _ _ hvw hwv
  exact absurd (same_self v) (by rw [(hvw.trans hwv).not_same]; decide)

end Distinct

/-!
# Sorting and dropping repetitions
-/

def distinct (direction : Direction) (values : List Value) : Answer (List Value) := do
  dedup direction (<- sort direction values)

theorem sort_eq_ok (direction : Direction) (h : OneKind values) :
    sort direction values = .ok (values.mergeSort (precedes direction)) :=
  sort_eq_ok_iff.mpr ⟨h, rfl⟩

theorem forM_compareIn_eq_error {first other : Value}
    (h : values.find? (fun v => v.kind != first.kind) = some other) :
    (values.forM fun v => discard (compareIn direction first v)) =
      .error (mixedKinds first other) := by
  induction values with
  | nil => cases h
  | cons v values ih =>
      show (discard (compareIn direction first v) >>= fun _ =>
        values.forM fun v => discard (compareIn direction first v)) = _
      rw [List.find?_cons] at h
      by_cases hKind : v.kind = first.kind
      · rw [hKind, bne_self_eq_false] at h
        rw [compareIn_eq_ok direction hKind.symm]
        exact ih h
      · rw [bne_iff_ne.mpr hKind] at h
        cases h
        rw [compareIn_eq_error direction fun heq => hKind heq.symm]
        rfl

theorem exists_sort_eq_error (direction : Direction) (h : ¬ OneKind values) :
    exists first other, values.head? = some first ∧
      values.find? (fun v => v.kind != first.kind) = some other ∧
      sort direction values = .error (mixedKinds first other) := by
  cases values with
  | nil => exact absurd (fun v hv => absurd hv List.not_mem_nil) h
  | cons first rest =>
      cases hOther : rest.find? fun v => v.kind != first.kind with
      | none =>
          rw [List.find?_eq_none] at hOther
          refine absurd (oneKind_cons_iff.mpr ?_) h
          intro v hv
          have hKind := hOther v hv
          rw [bne_iff_ne, not_not] at hKind
          exact hKind.symm
      | some other =>
          refine ⟨first, other, rfl, ?_, ?_⟩
          · rw [List.find?_cons, bne_self_eq_false, hOther]
          · show ((rest.forM fun v => discard (compareIn direction first v)) >>= _) = _
            rw [forM_compareIn_eq_error hOther]
            rfl

theorem filter_same_mergeSort (direction : Direction) (values : List Value) (v : Value) :
    (values.mergeSort (precedes direction)).filter (fun w => w.same v) =
      values.filter fun w => w.same v := by
  refine (StableOrder.filter_mergeSort (placeIn direction) (fun w => w.same v) values).trans ?_
  apply List.mergeSort_of_pairwise
  apply List.pairwise_of_forall_mem_list
  intro u hu w hw
  have hSame := same_trans (List.mem_filter.mp hu).2 (same_symm (List.mem_filter.mp hw).2)
  rw [placeIn_eq_eq_iff.mpr (same_iff.mp hSame)]
  rfl

theorem distinct_destutter (direction : Direction) (values : List Value) :
    Distinct direction values
      ((values.mergeSort (precedes direction)).destutter Differ) := by
  have hOrdered := (StableOrder.mergeSort (placeIn direction) values).ordered
  change (values.mergeSort (precedes direction)).Pairwise _ at hOrdered
  constructor
  · exact pairwise_before_of_isChain
      (hOrdered.sublist (List.destutter_sublist Differ _)) (List.isChain_destutter Differ _)
  · intro v
    rw [← List.head?_filter, ← filter_same_mergeSort direction values v, List.head?_filter]
    cases hSorted : values.mergeSort (precedes direction) with
    | nil => rfl
    | cons first rest =>
        rw [hSorted] at hOrdered
        exact filter_destutter' hOrdered v

theorem dedup_mergeSort (direction : Direction) (h : OneKind values) :
    dedup direction (values.mergeSort (precedes direction)) =
      .ok ((values.mergeSort (precedes direction)).destutter Differ) :=
  dedup_eq_ok (h.mono (List.mergeSort_perm values _).subset)

theorem exists_distinct_eq_ok (direction : Direction) (h : OneKind values) :
    exists kept, distinct direction values = .ok kept ∧ Distinct direction values kept := by
  refine ⟨_, ?_, distinct_destutter direction values⟩
  unfold distinct
  rw [sort_eq_ok direction h]
  exact dedup_mergeSort direction h

namespace Distinct

variable {kept : List Value}

theorem sort_eq_self (h : Distinct direction values kept) (hKind : OneKind values) :
    sort direction kept = .ok kept := by
  apply Value.sort_eq_self (hKind.mono h.subset)
  refine h.increasing.imp ?_
  intro v w hBefore
  show (placeIn direction v w).isLE = true
  rw [hBefore]
  rfl

theorem dedup_eq_self (h : Distinct direction values kept) (hKind : OneKind values) :
    dedup direction kept = .ok kept := by
  rw [dedup_eq_ok (hKind.mono h.subset), List.destutter_of_isChain]
  refine h.increasing.isChain.imp ?_
  intro v w hBefore hTie
  have hNot := hBefore.not_same
  rw [same_iff.mpr hTie] at hNot
  cases hNot

end Distinct

theorem exists_same_iff_of_perm {other : List Value} (h : other.Perm values) (v : Value) :
    (exists w, w ∈ values ∧ w.same v = true) <-> exists w, w ∈ other ∧ w.same v = true := by
  simp only [h.mem_iff]

/--
Values of one kind are sorted stably, and the first value of every place is kept.
What is kept does not change any more, is reversed in the other direction, and
takes the same places whatever order the values came in.  Values of two kinds are
refused.
-/
theorem listing_keeps_first_of_each_place (values : List Value) :
    (OneKind values ->
      (forall direction, exists sorted kept,
        sort direction values = .ok sorted ∧
        dedup direction sorted = .ok kept ∧
        sorted.Perm values ∧
        StableOrder (placeIn direction) values sorted ∧
        Distinct direction values kept ∧
        sort direction kept = .ok kept ∧
        dedup direction kept = .ok kept ∧
        forall v, v ∈ values -> forall w, w ∈ values ->
          compareIn direction v w = .ok (placeIn direction v w)) ∧
      (exists kept, distinct .ascending values = .ok kept ∧
        distinct .descending values = .ok kept.reverse) ∧
      forall direction other, other.Perm values -> exists kept otherKept,
        distinct direction values = .ok kept ∧
        distinct direction other = .ok otherKept ∧
        List.Forall₂ (fun v w => v.same w = true) kept otherKept) ∧
    (¬ OneKind values -> forall direction, exists first other,
      values.head? = some first ∧
      values.find? (fun v => v.kind != first.kind) = some other ∧
      sort direction values =
        .error (.unsupportedSort
          s!"{first.kind.name} values mixed with {other.kind.name} values")) := by
  refine ⟨fun hKind => ⟨?_, ?_, ?_⟩, fun hKinds direction => exists_sort_eq_error direction hKinds⟩
  · intro direction
    have hDistinct := distinct_destutter direction values
    have hStable := StableOrder.mergeSort (placeIn direction) values
    refine ⟨_, _, sort_eq_ok direction hKind, dedup_mergeSort direction hKind,
      hStable.perm, hStable, hDistinct,
      hDistinct.sort_eq_self hKind, hDistinct.dedup_eq_self hKind, ?_⟩
    intro v hv w hw
    exact compareIn_eq_ok direction (hKind v hv w hw)
  · rcases exists_distinct_eq_ok .ascending hKind with ⟨kept, hKept, hUp⟩
    rcases exists_distinct_eq_ok .descending hKind with ⟨turned, hTurned, hDown⟩
    rw [hDown.unique hUp.reverse] at hTurned
    exact ⟨kept, hKept, hTurned⟩
  · intro direction other hPerm
    rcases exists_distinct_eq_ok direction hKind with ⟨kept, hKept, hOwn⟩
    rcases exists_distinct_eq_ok direction (hKind.mono hPerm.subset) with
      ⟨otherKept, hOtherKept, hOther⟩
    exact ⟨kept, otherKept, hKept, hOtherKept, hOwn.forall₂ hOther (exists_same_iff_of_perm hPerm)⟩

def depth (n : Int) : Value :=
  .number (.instant (Binary64.ofInt n))

def flatLayer : Value :=
  .number (.range (Binary64.ofInt 1) (Binary64.ofInt 1))

theorem flat_layer_stands_for_its_depth :
    distinct .ascending [flatLayer, depth 1, depth 2] = .ok [flatLayer, depth 2] ∧
    distinct .descending [flatLayer, depth 1, depth 2] = .ok [depth 2, flatLayer] ∧
    exists kept, distinct .ascending [depth 2, depth 1, flatLayer] = .ok kept ∧
      List.Forall₂ (fun v w => v.same w = true) [flatLayer, depth 2] kept := by
  have hSort : sort .ascending [flatLayer, depth 1, depth 2] =
      .ok [flatLayer, depth 1, depth 2] :=
    sort_eq_self (by decide +kernel) (by decide +kernel)
  have hUp : distinct .ascending [flatLayer, depth 1, depth 2] = .ok [flatLayer, depth 2] := by
    unfold distinct
    rw [hSort]
    decide +kernel
  rcases (listing_keeps_first_of_each_place [flatLayer, depth 1, depth 2]).1 (by decide +kernel)
    with ⟨_, ⟨kept, hKept, hDown⟩, hPerm⟩
  rw [hUp] at hKept
  cases hKept
  refine ⟨hUp, hDown, ?_⟩
  rcases hPerm .ascending [depth 2, depth 1, flatLayer] (by decide +kernel) with
    ⟨own, kept, hOwn, hOther, hSame⟩
  rw [hUp] at hOwn
  cases hOwn
  exact ⟨kept, hOther, hSame⟩

end Value
end LayerAxes
