import LayerAxes.Proofs.Default.Nearest

/-!
# References that belong to the domain

The value nearest to a reference need not be the reference itself, even if this
belongs to the domain.  Values that differ may share a place, as the two zeros do,
and times within one millisecond or around a leap second; all of them are at no
distance from each other, and the first of them is found.  A value without any
distance is found as well if the search begins with it.

So a reference may be hidden by values that come before it.  It is found exactly
if no value of the domain hides it, and otherwise the first of those that do is.
-/

namespace LayerAxes

open Std

namespace Value

/-!
# Values that hide others
-/

/-- Times at the same count of milliseconds, or equal numbers, the zeros included. -/
def SamePlace : Value -> Value -> Prop
  | time e, time f => e.lower.millis = f.lower.millis
  | number e, number f => e.lower.place = f.lower.place
  | _, _ => False

def IsNegativeNaN : Value -> Prop
  | number e => e.lower.isNaN = true ∧ e.lower.negative = true
  | _ => False

def Hides (w r : Value) : Prop :=
  compare w r = .lt ∧ (w.SamePlace r ∨ w.IsNegativeNaN)

section

variable {v w r : Value} {x y : Binary64}

theorem exists_place?_eq_some_of_kind_eq (hKind : v.kind = w.kind) (hy : w.place? = some y) :
    exists x, v.place? = some x := by
  apply exists_place?_eq_some
  intro hText
  rw [place?_eq_none_iff.mpr (hKind.symm.trans hText)] at hy
  cases hy

theorem same_or_hides (hLE : (compare v r).isLE = true)
    (h : v.SamePlace r ∨ v.IsNegativeNaN) : v.same r = true ∨ v.Hides r := by
  rcases Ordering.isLE_iff_eq_lt_or_eq_eq.mp hLE with hLess | hEqual
  · exact Or.inr ⟨hLess, h⟩
  · exact Or.inl (same_iff.mpr hEqual)

theorem bounds_of_instant (h : v.isRange = false) : v.lower = v ∧ v.upper = v := by
  rcases v with (_ | _) | (_ | _) | (_ | _) <;> first | exact ⟨rfl, rfl⟩ | cases h

theorem eq_of_same_of_instants (hv : v.isRange = false) (hw : w.isRange = false)
    (h : v.same w = true) : v = w := by
  rw [← (bounds_of_instant hv).1, ← (bounds_of_instant hw).1]
  exact (bounds_eq_of_compare_eq_eq (same_iff.mp h)).1

theorem samePlace_iff (hKind : v.kind = w.kind) (hx : v.place? = some x)
    (hy : w.place? = some y) : v.SamePlace w <-> x.place = y.place := by
  cases v <;> cases w <;> simp only [kind, reduceCtorEq] at hKind
  · cases hx
    cases hy
    exact (Binary64.place_ofInt_eq_iff (Timestamp.natAbs_millis_lt _)
      (Timestamp.natAbs_millis_lt _)).symm
  · cases hx
    cases hy
    exact Iff.rfl
  · cases hx

theorem isNegativeNaN_iff (hx : v.place? = some x) :
    v.IsNegativeNaN <-> x.isNaN = true ∧ x.negative = true := by
  cases v with
  | time e =>
      cases hx
      have hNumber := Binary64.isNaN_of_isFinite (isFinite_place_time e.lower)
      constructor
      · exact False.elim
      · rintro ⟨hNaN, _⟩
        rw [hNumber] at hNaN
        cases hNaN
  | number e =>
      cases hx
      exact Iff.rfl
  | text e => cases hx

theorem isLE_compare_lower {e f : Extent Binary64}
    (h : (compare (number e) (number f)).isLE = true) : (compare e.lower f.lower).isLE = true := by
  have hKind : (number e).kind = (number f).kind := rfl
  rw [← Extent.compareBounds_instant]
  exact ((isLE_compare_iff hKind).mp h).1

theorem isNegativeNaN_of_isLE_compare (hKind : v.kind = w.kind) (hx : v.place? = some x)
    (hy : w.place? = some y) (hNaN : x.isNaN = true) (hNumber : y.isNaN = false)
    (h : (compare v w).isLE = true) : v.IsNegativeNaN := by
  rw [isNegativeNaN_iff hx]
  refine ⟨hNaN, ?_⟩
  cases v <;> cases w <;> simp only [kind, reduceCtorEq] at hKind
  · cases hx
    rw [Binary64.isNaN_of_isFinite (isFinite_place_time _)] at hNaN
    cases hNaN
  · cases hx
    cases hy
    exact Binary64.negative_of_isLE_compare hNaN hNumber (isLE_compare_lower h)
  · cases hx

theorem IsNegativeNaN.isNaN_of_isLE_compare (hw : w.IsNegativeNaN) (hKind : v.kind = w.kind)
    (hx : v.place? = some x) (h : (compare v w).isLE = true) : x.isNaN = true := by
  cases w with
  | number f =>
      cases v <;> simp only [kind, reduceCtorEq] at hKind
      cases hx
      exact Binary64.isNaN_of_isLE_compare hw.1 hw.2 (isLE_compare_lower h)
  | time f => exact False.elim hw
  | text f => exact False.elim hw

theorem not_hides_of_text (hText : r.kind = .text) (hKind : w.kind = r.kind) : ¬ w.Hides r := by
  rw [hText] at hKind
  cases w <;> simp only [kind, reduceCtorEq] at hKind
  rintro ⟨_, hPlace | hNegative⟩
  · exact hPlace
  · exact hNegative

end

/-- A value is the least of those that hide another one, or is this one if there are none. -/
theorem same_iff_forall_not_hides {v r : Value} {domain : List Value} (hv : v ∈ domain)
    (hFound : v.same r = true ∨ v.Hides r)
    (hLeast : forall w, w ∈ domain -> w.Hides r -> (compare v w).isLE = true) :
    (v.same r = true <-> forall w, w ∈ domain -> ¬ w.Hides r) ∧
      forall w, w ∈ domain -> w.Hides r -> v.Hides r ∧ (compare v w).isLE = true := by
  have hNotSame : forall w, w ∈ domain -> w.Hides r -> v.same r = false := by
    intro w hw hHides
    have hLess : compare v r = .lt := TransCmp.lt_of_isLE_of_lt (hLeast w hw hHides) hHides.1
    have hBefore : Before .ascending v r := hLess
    exact hBefore.not_same
  refine ⟨⟨?_, ?_⟩, ?_⟩
  · intro hSame w hw hHides
    rw [hNotSame w hw hHides] at hSame
    cases hSame
  · intro hNone
    exact hFound.resolve_right (hNone v hv)
  · intro w hw hHides
    refine ⟨hFound.resolve_left ?_, hLeast w hw hHides⟩
    rw [hNotSame w hw hHides]
    exact Bool.false_ne_true

end Value

namespace DefaultSetting

open Value

/-!
# Distances of instants
-/

section

variable {v r : Value} {x place : Binary64}

theorem distance?_instant (hInstant : v.isRange = false) (hx : v.place? = some x)
    (place : Binary64) :
    distance? v place = some (if x ≤ place ∧ place ≤ x then .zero else (x - place).abs) := by
  rcases bounds_of_instant hInstant with ⟨hLower, hUpper⟩
  rw [← hLower] at hx
  have hx' : v.upper.place? = some x := by rw [hUpper, ← hLower, hx]
  rw [distance?_eq hx hx', Binary64.lesser_self]

theorem distance?_instant_cases (hInstant : v.isRange = false) (hx : v.place? = some x)
    (hFinite : place.isFinite = true) :
    exists d, distance? v place = some d ∧ d.isNaN = x.isNaN ∧
      (x.isNaN = true ∨ (x.place = place.place ∧ d = .zero) ∨
        (x.place ≠ place.place ∧ Binary64.zero < d)) := by
  have hNumber := Binary64.isNaN_of_isFinite hFinite
  refine ⟨_, distance?_instant hInstant hx place, ?_⟩
  by_cases hSame : x.place = place.place
  · have hOwn := Binary64.isNaN_of_isFinite (Binary64.isFinite_of_place_eq hFinite hSame)
    rw [if_pos, hOwn]
    · exact ⟨rfl, Or.inr (Or.inl ⟨hSame, rfl⟩)⟩
    · exact ⟨⟨hOwn, hNumber, Int.le_of_eq hSame⟩, hNumber, hOwn, Int.le_of_eq hSame.symm⟩
  · rw [if_neg]
    · cases hOwn : x.isNaN with
      | true => exact ⟨Binary64.isNaN_sub_of_isNaN hOwn place, Or.inl rfl⟩
      | false =>
          have hLess := Binary64.zero_lt_abs_sub hOwn hFinite hSame
          exact ⟨hLess.2.1, Or.inr (Or.inr ⟨hSame, hLess⟩)⟩
    · exact fun hBoth => hSame (Int.le_antisymm hBoth.1.2.2 hBoth.2.2.2)

theorem distance?_of_samePlace (hInstant : v.isRange = false) (hKind : v.kind = r.kind)
    (hPlace : r.place? = some place) (hFinite : place.isFinite = true) (h : v.SamePlace r) :
    distance? v place = some .zero := by
  rcases exists_place?_eq_some_of_kind_eq hKind hPlace with ⟨x, hx⟩
  have hSame := (samePlace_iff hKind hx hPlace).mp h
  rcases distance?_instant_cases hInstant hx hFinite with
    ⟨d, hDistance, _, hNaN | ⟨_, rfl⟩ | ⟨hApart, _⟩⟩
  · rw [Binary64.isNaN_of_isFinite (Binary64.isFinite_of_place_eq hFinite hSame)] at hNaN
    cases hNaN
  · exact hDistance
  · exact absurd hSame hApart

end

/-!
# Searches in the order of the domain
-/

section

variable {place : Binary64} {values rest before after : List Value} {v r : Value}
  {found : Binary64 × Value}

theorem foldl_nearer_of_isNaN (h : found.1.isNaN = true) :
    values.foldl (nearer place) (some found) = some found := by
  induction values with
  | nil => rfl
  | cons v values ih =>
      have hStay : nearer place (some found) v = some found := by
        unfold nearer
        cases distance? v place with
        | none => rfl
        | some d =>
            refine if_neg ?_
            rintro ⟨_, hNumber, _⟩
            rw [h] at hNumber
            cases hNumber
      rw [List.foldl_cons, hStay, ih]

theorem nearestTo_of_isNaN {d : Binary64} (hDistance : distance? v place = some d)
    (hd : d.isNaN = true) : nearestTo place (v :: rest) = some v := by
  rw [nearestTo, List.foldl_cons, nearer_none hDistance, foldl_nearer_of_isNaN hd]
  rfl

theorem NearestBetween.samePlace (h : NearestBetween place before after found)
    (hInstants : forall v, v ∈ before ++ found.2 :: after -> v.kind = r.kind ∧ v.isRange = false)
    (hr : r ∈ before ++ found.2 :: after) (hPlace : r.place? = some place)
    (hFinite : place.isFinite = true) :
    found.2.SamePlace r ∧ forall w, w ∈ before -> ¬ w.SamePlace r := by
  have hNone : forall w, w ∈ before ++ found.2 :: after -> w.SamePlace r ->
      found.1 ≤ .zero ∧ (w ∈ before -> found.1 < .zero) := by
    intro w hw hSame
    rcases hInstants w hw with ⟨hKind, hInstant⟩
    exact h.le_distance hw (distance?_of_samePlace hInstant hKind hPlace hFinite hSame) rfl
  rcases hInstants found.2 (List.mem_append_right _ List.mem_cons_self) with ⟨hKind, hInstant⟩
  rcases exists_place?_eq_some_of_kind_eq hKind hPlace with ⟨x, hx⟩
  rcases distance?_instant_cases hInstant hx hFinite with ⟨d, hDistance, hOwn, hCases⟩
  rw [h.distance] at hDistance
  cases hDistance
  rcases hCases with hNaN | ⟨hSame, hZero⟩ | ⟨_, hLess⟩
  · rw [h.number, hNaN] at hOwn
    cases hOwn
  · refine ⟨(samePlace_iff hKind hx hPlace).mpr hSame, ?_⟩
    intro w hw hPlaced
    have hLess := (hNone w (List.mem_append_left _ hw) hPlaced).2 hw
    rw [hZero] at hLess
    exact Binary64.not_lt_of_le (Binary64.le_self rfl) hLess
  · have hSelf : r.SamePlace r := (samePlace_iff rfl hPlace hPlace).mpr rfl
    exact absurd hLess (Binary64.not_lt_of_le (hNone r hr hSelf).1)

theorem NearestBetween.same_or_hides (h : NearestBetween place before after found)
    (hOrdered : (before ++ found.2 :: after).Pairwise fun a b => (compare a b).isLE = true)
    (hInstants : forall v, v ∈ before ++ found.2 :: after -> v.kind = r.kind ∧ v.isRange = false)
    (hNumbers : forall v, v ∈ before ++ found.2 :: after -> ¬ v.IsNegativeNaN)
    (hr : r ∈ before ++ found.2 :: after) (hPlace : r.place? = some place)
    (hFinite : place.isFinite = true) :
    (found.2.same r = true ∨ found.2.Hides r) ∧
      forall w, w ∈ before ++ found.2 :: after -> w.Hides r ->
        (compare found.2 w).isLE = true := by
  rcases h.samePlace hInstants hr hPlace hFinite with ⟨hSame, hBefore⟩
  have hFrom : forall w, w ∈ before ++ found.2 :: after -> w.SamePlace r ->
      (compare found.2 w).isLE = true := by
    intro w hw hPlaced
    have hNot : w ∉ before := fun hEarlier => hBefore w hEarlier hPlaced
    exact StableOrder.isLE_of_mem_cons (List.pairwise_append.mp hOrdered).2.1
      ((List.mem_append.mp hw).resolve_left hNot)
  have hSelf : r.SamePlace r := (samePlace_iff rfl hPlace hPlace).mpr rfl
  refine ⟨Value.same_or_hides (hFrom r hr hSelf) (Or.inl hSame), ?_⟩
  rintro w hw ⟨_, hPlaced | hNegative⟩
  · exact hFrom w hw hPlaced
  · exact absurd hNegative (hNumbers w hw)

theorem exists_nearestTo_of_mem
    (hOrdered : values.Pairwise fun a b => (compare a b).isLE = true)
    (hInstants : forall v, v ∈ values -> v.kind = r.kind ∧ v.isRange = false)
    (hr : r ∈ values) (hPlace : r.place? = some place) (hFinite : place.isFinite = true) :
    exists v, nearestTo place values = some v ∧ v ∈ values ∧
      (v.same r = true ∨ v.Hides r) ∧
      forall w, w ∈ values -> w.Hides r -> (compare v w).isLE = true := by
  cases values with
  | nil => cases hr
  | cons first rest =>
      have hFirst : forall w, w ∈ first :: rest -> (compare first w).isLE = true :=
        fun w hw => StableOrder.isLE_of_mem_cons hOrdered hw
      rcases hInstants first List.mem_cons_self with ⟨hKind, hInstant⟩
      rcases exists_place?_eq_some_of_kind_eq hKind hPlace with ⟨x, hx⟩
      rcases distance?_instant_cases hInstant hx hFinite with ⟨d, hDistance, hOwn, _⟩
      cases hNaN : x.isNaN with
      | true =>
          have hNegative := isNegativeNaN_of_isLE_compare hKind hx hPlace hNaN
            (Binary64.isNaN_of_isFinite hFinite) (hFirst r hr)
          exact ⟨first, nearestTo_of_isNaN hDistance (hOwn.trans hNaN), List.mem_cons_self,
            Value.same_or_hides (hFirst r hr) (Or.inr hNegative), fun w hw _ => hFirst w hw⟩
      | false =>
          have hNumbers : forall w, w ∈ first :: rest -> ¬ w.IsNegativeNaN := by
            intro w hw hNegative
            have hKinds := hKind.trans (hInstants w hw).1.symm
            rw [hNegative.isNaN_of_isLE_compare hKinds hx (hFirst w hw)] at hNaN
            cases hNaN
          rcases exists_nearestTo_eq_some hDistance (hOwn.trans hNaN) rest with
            ⟨found, hNearest, before, after, hList, hFound⟩
          rw [hList] at hOrdered hInstants hNumbers hr hNearest ⊢
          exact ⟨found.2, hNearest, List.mem_append_right _ List.mem_cons_self,
            hFound.same_or_hides hOrdered hInstants hNumbers hr hPlace hFinite⟩

end

section

variable {setting : DefaultSetting} {domain : List Value} {type : DataType} {r : Value}

theorem exists_resolve_of_text (hStrategy : setting.strategy = .nearest)
    (hReference : setting.referenceValue domain type = .ok r) (hText : r.kind = .text)
    (hMem : exists v, v ∈ domain ∧ v.same r = true) (direction : Direction) :
    exists v, setting.resolve domain type direction = .ok (some v) ∧ v ∈ domain ∧
      v.same r = true := by
  have hDomain : domain ≠ [] := by
    rintro rfl
    rcases hMem with ⟨v, hv, _⟩
    cases hv
  rcases Option.isSome_iff_exists.mp (List.find?_isSome.mpr hMem) with ⟨v, hFind⟩
  have hSame := List.find?_some hFind
  refine ⟨v, ?_, List.mem_of_find?_eq_some hFind, hSame⟩
  rw [resolve_nearest hStrategy hDomain hReference]
  unfold nearest
  rw [place?_eq_none_iff.mpr hText, hFind]

/--
A reference that belongs to a domain of instants is found unless a value of the
domain hides it.  Then the first of the values that hide it is found.
-/
theorem reference_is_found_unless_hidden (hStrategy : setting.strategy = .nearest)
    (hReference : setting.referenceValue domain type = .ok r) (hInstant : r.isRange = false)
    (hInstants : forall v, v ∈ domain -> v.kind = r.kind ∧ v.isRange = false)
    (hMem : exists v, v ∈ domain ∧ v.same r = true) :
    exists v, setting.resolve domain type .ascending = .ok (some v) ∧ v ∈ domain ∧
      (v.same r = true <-> forall w, w ∈ domain -> ¬ w.Hides r) ∧
      forall w, w ∈ domain -> w.Hides r -> v.Hides r ∧ (compare v w).isLE = true := by
  cases hPlace : r.place? with
  | none =>
      have hText := place?_eq_none_iff.mp hPlace
      rcases exists_resolve_of_text hStrategy hReference hText hMem .ascending with
        ⟨v, hResolve, hv, hSame⟩
      refine ⟨v, hResolve, hv, same_iff_forall_not_hides hv (Or.inl hSame) ?_⟩
      intro w hw hHides
      exact absurd hHides (not_hides_of_text hText (hInstants w hw).1)
  | some place =>
      rcases hMem with ⟨u, hu, hSame⟩
      have hr : r ∈ domain := by
        rw [← eq_of_same_of_instants (hInstants u hu).2 hInstant hSame]
        exact hu
      have hKind : OneKind domain :=
        fun v hv w hw => (hInstants v hv).1.trans (hInstants w hw).1.symm
      have hSort := sort_eq_ok .ascending hKind
      have hSorted := stableOrder_of_sort_eq_ok hSort
      have hFinite := isFinite_of_referenceValue hReference hPlace
      rcases exists_nearestTo_of_mem hSorted.ordered
          (fun v hv => hInstants v (hSorted.perm.subset hv)) (hSorted.perm.symm.subset hr)
          hPlace hFinite with
        ⟨v, hNearest, hv, hFound, hLeast⟩
      have hvDomain := hSorted.perm.subset hv
      refine ⟨v, ?_, hvDomain, same_iff_forall_not_hides hvDomain hFound ?_⟩
      · rw [resolve_of_place hStrategy (List.ne_nil_of_mem hr) hReference hPlace hSort, hNearest]
      · intro w hw
        exact hLeast w (hSorted.perm.symm.subset hw)

end

def leapSecond : Timestamp :=
  ⟨1483228799, 1000000000, by decide⟩

def newYear : Timestamp :=
  ⟨1483228800, 0, by decide⟩

def turnOfYear : List Value :=
  [.time (.instant leapSecond), .time (.instant newYear)]

theorem leap_second_is_found :
    resolve ⟨.nearest, some "2016-12-31T23:59:60Z"⟩ turnOfYear .temporal .ascending =
      .ok (some (.time (.instant leapSecond))) := by
  have hReference : referenceValue ⟨.nearest, some "2016-12-31T23:59:60Z"⟩ turnOfYear .temporal =
      .ok (.time (.instant leapSecond)) := by
    decide +kernel
  rcases reference_is_found_unless_hidden rfl hReference rfl (by decide)
      ⟨_, List.mem_cons_self, same_self _⟩ with
    ⟨v, hResolve, hv, hFound, _⟩
  have hSame : v.same (.time (.instant leapSecond)) = true := by
    have hFirst : forall w, w ∈ turnOfYear -> compare w (.time (.instant leapSecond)) ≠ .lt := by
      decide
    rw [hFound]
    exact fun w hw hHides => hFirst w hw hHides.1
  have hInstants : forall w, w ∈ turnOfYear -> w.isRange = false := by
    decide
  rw [hResolve, eq_of_same_of_instants (hInstants v hv) rfl hSame]

theorem new_year_is_hidden :
    (forall v, v ∈ turnOfYear -> v.kind = .temporal ∧ v.isRange = false) ∧
      referenceValue ⟨.nearest, some "2017-01-01T00:00:00Z"⟩ turnOfYear .temporal =
        .ok (.time (.instant newYear)) ∧
      Value.time (.instant newYear) ∈ turnOfYear ∧
      resolve ⟨.nearest, some "2017-01-01T00:00:00Z"⟩ turnOfYear .temporal .ascending =
        .ok (some (.time (.instant leapSecond))) ∧
      Value.same (.time (.instant leapSecond)) (.time (.instant newYear)) = false := by
  have hTurn : turnOfYear ≠ [] := List.cons_ne_nil _ _
  have hSort : sort .ascending turnOfYear = .ok turnOfYear := sort_eq_self (by decide) (by decide)
  have hReference : referenceValue ⟨.nearest, some "2017-01-01T00:00:00Z"⟩ turnOfYear .temporal =
      .ok (.time (.instant newYear)) := by
    decide +kernel
  refine ⟨by decide, hReference, by decide, ?_, by decide⟩
  rw [resolve_of_place rfl hTurn hReference rfl hSort]
  decide +kernel

end DefaultSetting
end LayerAxes
