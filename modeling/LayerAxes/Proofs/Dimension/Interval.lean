import LayerAxes.Proofs.Dimension.Reading

/-!
# Intervals that are shown for a domain

An interval goes from the lower bound of the first value of a domain to the
upper bound of its last value.  Values are sorted by their lower bounds first,
so the interval always starts with the least of these, but it ends with the
greatest upper bound only if a value that starts last also ends last.
-/

namespace LayerAxes

open Std

namespace Value

def EndsAll (v : Value) (values : List Value) : Prop :=
  forall w, w ∈ values ->
    (compare w.lower v.lower).isLE = true ∧ (compare w.upper v.upper).isLE = true

instance (v : Value) (values : List Value) : Decidable (v.EndsAll values) :=
  inferInstanceAs (Decidable (forall w, w ∈ values -> _ ∧ _))

theorem forall_upper_isLE_iff {values : List Value} {last : Value} (hKind : OneKind values)
    (hMem : last ∈ values)
    (hLast : forall v, v ∈ values -> (compare v last).isLE = true) :
    (forall v, v ∈ values -> (compare v.upper last.upper).isLE = true) <->
      exists v, v ∈ values ∧ v.EndsAll values := by
  constructor
  · intro hUpper
    refine ⟨last, hMem, ?_⟩
    intro w hw
    exact ⟨((isLE_compare_iff (hKind w hw last hMem)).mp (hLast w hw)).1, hUpper w hw⟩
  · rintro ⟨v, hv, hEnds⟩ w hw
    rcases (isLE_compare_iff (hKind v hv last hMem)).mp (hLast v hv) with ⟨_, hLater⟩
    have hEnd : (compare v.upper last.upper).isLE = true := by
      rcases hLater with hBefore | hUpper
      · have hBack := (hEnds last hMem).1
        rw [OrientedOrd.eq_swap, hBefore] at hBack
        cases hBack
      · exact hUpper
    exact TransOrd.isLE_trans (hEnds w hw).2 hEnd

end Value

namespace Dimension

def intervalSuffix (d : Dimension) : String :=
  match d.config.presentation, d.config.resolution with
  | .discreteInterval, some resolution => "/" ++ resolution
  | _, _ => ""

theorem present_eq_interval {d : Dimension} (hInterval : d.config.presentation ≠ .list)
    {values : List Value} {first last : Value} (hFirst : values.head? = some first)
    (hLast : values.getLast? = some last) :
    d.present values = [d.interval first last ++ d.intervalSuffix] := by
  unfold present intervalSuffix
  rw [hFirst, hLast]
  dsimp only
  cases hPresentation : d.config.presentation with
  | list => exact absurd hPresentation hInterval
  | continuousInterval => simp
  | discreteInterval =>
      cases d.config.resolution with
      | none => simp
      | some resolution => simp [String.append_assoc]

theorem representation_eq_ok {d : Dimension} {filter : Filter} {domain : Domain}
    (hRead : d.readAll filter .ascending = .ok domain)
    (hInterval : d.config.presentation ≠ .list) {first last : Value}
    (hFirst : domain.values.head? = some first) (hLast : domain.values.getLast? = some last) :
    d.representation filter = .ok [d.interval first last ++ d.intervalSuffix] := by
  have hKeptFirst : (domain.values.destutter Value.Differ).head? = some first := by
    rw [Value.head?_destutter, hFirst]
  rcases Value.exists_getLast?_destutter hLast with ⟨kept, hKept, hPlace⟩
  have hSame : d.interval first kept = d.interval first last := by
    unfold interval
    rw [(Value.bounds_eq_of_compare_eq_eq hPlace).2]
  unfold representation
  rw [values_eq_ok hRead]
  show Except.ok (d.present _) = _
  rw [present_eq_interval hInterval hKeptFirst hKept, hSame]

/--
An interval starts with the least lower bound of its domain.  It ends with the
greatest upper bound exactly when some value starts and ends last.
-/
theorem interval_covers_domain_iff {d : Dimension} {filter : Filter} {domain : Domain}
    (hRead : d.readAll filter .ascending = .ok domain) (hValues : domain.values ≠ [])
    (hInterval : d.config.presentation ≠ .list) :
    exists lo hi,
      d.representation filter =
        .ok [lo.format ++ d.settings.intervalSeparator ++ hi.format ++ d.intervalSuffix] ∧
      (exists v, v ∈ domain.values ∧ v.lower = lo) ∧
      (forall v, v ∈ domain.values -> (compare lo v.lower).isLE = true) ∧
      (exists v, v ∈ domain.values ∧ v.upper = hi) ∧
      ((forall v, v ∈ domain.values -> (compare v.upper hi).isLE = true) <->
        exists v, v ∈ domain.values ∧ v.EndsAll domain.values) := by
  rcases Reader.exists_sort_eq_ok hRead with ⟨read, hSort⟩
  have hSorted := Value.stableOrder_of_sort_eq_ok hSort
  have hKind := Value.oneKind_of_sort_eq_ok hSort
  have hFirst := List.head?_eq_some_head hValues
  have hLast := List.getLast?_eq_some_getLast hValues
  have hFirstMem := List.head_mem hValues
  have hLastMem := List.getLast_mem hValues
  refine ⟨_, _, representation_eq_ok hRead hInterval hFirst hLast,
    ⟨_, hFirstMem, rfl⟩, ?_, ⟨_, hLastMem, rfl⟩, ?_⟩
  · intro v hv
    have hLE : (compare (domain.values.head hValues) v).isLE = true :=
      hSorted.isLE_of_head?_eq_some hFirst (hSorted.perm.subset hv)
    exact ((Value.isLE_compare_iff (hKind _ hFirstMem v hv)).mp hLE).1
  · apply Value.forall_upper_isLE_iff hKind hLastMem
    intro v hv
    exact hSorted.isLE_of_getLast?_eq_some hLast (hSorted.perm.subset hv)

def waterTable (rows : List Feature) : FeatureTable where
  schema := { typeName := "water" }
  rows

def depths (rows : List Feature) : Dimension where
  layer := "sea"
  axis := .elevation
  config := { presentation := .continuousInterval }
  reader := .vector (waterTable rows).source ⟨some "top", some "bottom"⟩
  settings := {}

def depthRow (id : String) (top bottom : Int) : Feature :=
  ⟨id, [("bottom", .integer bottom), ("top", .integer top)]⟩

def depthRange (top bottom : Int) : Value :=
  .number (.range (Binary64.ofInt top) (Binary64.ofInt bottom))

theorem overlapping_depths_are_covered :
    exists lo hi,
      (depths [depthRow "upper" 0 2, depthRow "lower" 1 10]).representation .everything =
        .ok [lo.format ++ "--" ++ hi.format ++ ""] ∧
      forall v, v ∈ [depthRange 0 2, depthRange 1 10] ->
        (compare lo v.lower).isLE = true ∧ (compare v.upper hi).isLE = true := by
  have hSort : Value.sort .ascending [depthRange 0 2, depthRange 1 10] =
      .ok [depthRange 0 2, depthRange 1 10] :=
    Value.sort_eq_self (by decide +kernel) (by decide +kernel)
  have hRead : exists bounds,
      (depths [depthRow "upper" 0 2, depthRow "lower" 1 10]).readAll .everything .ascending =
        .ok ⟨bounds, [depthRange 0 2, depthRange 1 10]⟩ :=
    Reader.exists_readAll_vector_table_eq_ok (waterTable _) (by decide +kernel) hSort
  rcases hRead with ⟨bounds, hRead⟩
  rcases interval_covers_domain_iff hRead (List.cons_ne_nil _ _) (by decide) with
    ⟨lo, hi, hShown, _, hLower, _, hUpper⟩
  have hEnds : exists v, v ∈ [depthRange 0 2, depthRange 1 10] ∧
      v.EndsAll [depthRange 0 2, depthRange 1 10] :=
    ⟨depthRange 1 10, by decide +kernel, by decide +kernel⟩
  exact ⟨lo, hi, hShown, fun v hv => ⟨hLower v hv, hUpper.mpr hEnds v hv⟩⟩

/-- The layer that starts last lies within one that ends after it. -/
theorem nested_depths_are_not_covered :
    (depths [depthRow "wide" 0 10, depthRow "narrow" 1 2]).representation .everything =
      .ok ["0.0--2.0"] ∧
    exists domain v,
      (depths [depthRow "wide" 0 10, depthRow "narrow" 1 2]).readAll .everything .ascending =
        .ok domain ∧
      v ∈ domain.values ∧ v.upper.format = "10.0" ∧
      compare v.upper (.number (.instant (Binary64.ofInt 2))) = .gt := by
  have hSort : Value.sort .ascending [depthRange 0 10, depthRange 1 2] =
      .ok [depthRange 0 10, depthRange 1 2] :=
    Value.sort_eq_self (by decide +kernel) (by decide +kernel)
  have hRead : exists bounds,
      (depths [depthRow "wide" 0 10, depthRow "narrow" 1 2]).readAll .everything .ascending =
        .ok ⟨bounds, [depthRange 0 10, depthRange 1 2]⟩ :=
    Reader.exists_readAll_vector_table_eq_ok (waterTable _) (by decide +kernel) hSort
  rcases hRead with ⟨bounds, hRead⟩
  constructor
  · rw [representation_eq_ok hRead (by decide) rfl rfl]
    decide +kernel
  · exact ⟨_, depthRange 0 10, hRead, List.mem_cons_self, by decide +kernel, by decide +kernel⟩

end Dimension
end LayerAxes
