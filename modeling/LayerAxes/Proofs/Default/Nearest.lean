import LayerAxes.Dimension.Default
import LayerAxes.Proofs.Domain.Codec
import LayerAxes.Proofs.Number.Difference
import LayerAxes.Proofs.Order.Distinct

/-!
# The nearest value

The values of a domain are visited in order, and a value is taken instead of the
best one so far only if it is strictly nearer.  So the value found is the first of
all those at the least distance.

Distances are taken between places: numbers as they are, times in milliseconds.
-/

namespace LayerAxes

open Std

namespace Value

/-!
# Places and distances
-/

section

variable {v w r : Value} {x place lower upper : Binary64}

theorem place?_eq_none_iff : v.place? = none <-> v.kind = .text := by
  cases v <;> simp [place?, kind]

theorem exists_place?_eq_some (h : v.kind ≠ .text) : exists x, v.place? = some x := by
  cases hPlace : v.place? with
  | none => exact absurd (place?_eq_none_iff.mp hPlace) h
  | some x => exact ⟨x, rfl⟩

theorem isFinite_place_time (t : Timestamp) : (Binary64.ofInt t.millis).isFinite = true :=
  (Binary64.ofInt_exact t.natAbs_millis_lt).1

theorem isFinite_of_place?_eq_some (h : v.IsFinite) (hPlace : v.place? = some x) :
    x.isFinite = true := by
  cases v with
  | time e =>
      cases hPlace
      exact isFinite_place_time e.lower
  | number e =>
      cases hPlace
      exact h.1
  | text e => cases hPlace

end

end Value

namespace DefaultSetting

open Value

/-!
# Computed distances
-/

section

variable {v : Value} {x place lower upper d : Binary64}

theorem distance?_eq (hLower : v.lower.place? = some lower) (hUpper : v.upper.place? = some upper)
    (place : Binary64) :
    distance? v place = some (if lower ≤ place ∧ place ≤ upper then .zero
      else (lower - place).abs.lesser (upper - place).abs) := by
  unfold distance?
  rw [hLower, hUpper]
  rfl

end

/-!
# The first value at the least distance
-/

/-- All values before the one found are farther away, and no value after it is nearer. -/
structure NearestBetween (place : Binary64) (before after : List Value)
    (found : Binary64 × Value) : Prop where
  distance : distance? found.2 place = some found.1
  number : found.1.isNaN = false
  farther : forall w e, w ∈ before -> distance? w place = some e -> ¬ e ≤ found.1
  not_nearer : forall w e, w ∈ after -> distance? w place = some e -> ¬ e < found.1

theorem NearestBetween.le_distance {place e : Binary64} {before after : List Value}
    {found : Binary64 × Value} {w : Value} (h : NearestBetween place before after found)
    (hw : w ∈ before ++ found.2 :: after) (he : distance? w place = some e)
    (hNumber : e.isNaN = false) : found.1 ≤ e ∧ (w ∈ before -> found.1 < e) := by
  have hBefore : w ∈ before -> found.1 < e :=
    fun hEarlier => Binary64.lt_of_not_le h.number hNumber (h.farther w e hEarlier he)
  refine ⟨?_, hBefore⟩
  rcases List.mem_append.mp hw with hEarlier | hRest
  · exact Binary64.le_of_lt (hBefore hEarlier)
  · rcases List.mem_cons.mp hRest with rfl | hAfter
    · rw [h.distance] at he
      cases he
      exact Binary64.le_self h.number
    · exact Binary64.le_of_not_lt h.number hNumber (h.not_nearer w e hAfter he)

def FirstNearest (place : Binary64) (values : List Value) (found : Binary64 × Value) : Prop :=
  exists before after, values = before ++ found.2 :: after ∧
    NearestBetween place before after found

section

variable {place d : Binary64} {values : List Value} {v : Value} {found : Binary64 × Value}

theorem firstNearest_singleton (h : distance? v place = some d) (hd : d.isNaN = false) :
    FirstNearest place [v] (d, v) :=
  ⟨[], [], rfl, h, hd, fun _ _ hw => absurd hw List.not_mem_nil,
    fun _ _ hw => absurd hw List.not_mem_nil⟩

theorem FirstNearest.snoc_nearer (h : FirstNearest place values found)
    (hDistance : distance? v place = some d) (hNearer : d < found.1) :
    FirstNearest place (values ++ [v]) (d, v) := by
  rcases h with ⟨before, after, rfl, hFound⟩
  refine ⟨before ++ found.2 :: after, [], rfl, hDistance, hNearer.1, ?_,
    fun _ _ hw => absurd hw List.not_mem_nil⟩
  intro w e hw he hLE
  have hLess : e < found.1 := Binary64.lt_of_le_of_lt hLE hNearer
  rcases List.mem_append.mp hw with hEarlier | hLater
  · exact hFound.farther w e hEarlier he (Binary64.le_of_lt hLess)
  · rcases List.mem_cons.mp hLater with rfl | hAfter
    · rw [hFound.distance] at he
      cases he
      exact Binary64.not_lt_of_le hLE hNearer
    · exact hFound.not_nearer w e hAfter he hLess

theorem FirstNearest.snoc_not_nearer (h : FirstNearest place values found)
    (hNot : forall d, distance? v place = some d -> ¬ d < found.1) :
    FirstNearest place (values ++ [v]) found := by
  rcases h with ⟨before, after, rfl, hFound⟩
  refine ⟨before, after ++ [v], List.append_assoc _ _ _,
    { hFound with not_nearer := ?_ }⟩
  intro w e hw he
  rcases List.mem_append.mp hw with hAfter | hLast
  · exact hFound.not_nearer w e hAfter he
  · rw [List.mem_singleton.mp hLast] at he
    exact hNot e he

theorem FirstNearest.exists_nearer (h : FirstNearest place values found) (v : Value) :
    exists next, nearer place (some found) v = some next ∧
      FirstNearest place (values ++ [v]) next := by
  unfold nearer
  cases hDistance : distance? v place with
  | none =>
      refine ⟨found, rfl, h.snoc_not_nearer ?_⟩
      intro d hd
      rw [hDistance] at hd
      cases hd
  | some d =>
      dsimp only
      by_cases hNearer : d < found.1
      · rw [if_pos hNearer]
        exact ⟨(d, v), rfl, h.snoc_nearer hDistance hNearer⟩
      · rw [if_neg hNearer]
        refine ⟨found, rfl, h.snoc_not_nearer ?_⟩
        intro e he
        rw [hDistance] at he
        cases he
        exact hNearer

theorem FirstNearest.exists_foldl_nearer (h : FirstNearest place values found)
    (rest : List Value) :
    exists last, rest.foldl (nearer place) (some found) = some last ∧
      FirstNearest place (values ++ rest) last := by
  induction rest generalizing values found with
  | nil =>
      rw [List.append_nil]
      exact ⟨found, rfl, h⟩
  | cons v rest ih =>
      rcases h.exists_nearer v with ⟨next, hNext, hNearest⟩
      rw [List.foldl_cons, hNext, List.append_cons]
      exact ih hNearest

theorem nearer_none (hDistance : distance? v place = some d) :
    nearer place none v = some (d, v) := by
  unfold nearer
  rw [hDistance]

theorem exists_nearestTo_eq_some (hDistance : distance? v place = some d) (hd : d.isNaN = false)
    (rest : List Value) :
    exists found, nearestTo place (v :: rest) = some found.2 ∧
      FirstNearest place (v :: rest) found := by
  rcases (firstNearest_singleton hDistance hd).exists_foldl_nearer rest with
    ⟨found, hFold, hNearest⟩
  refine ⟨found, ?_, hNearest⟩
  rw [nearestTo, List.foldl_cons, nearer_none hDistance, hFold]
  rfl

end

/-!
# The search in a domain
-/

section

variable {setting : DefaultSetting} {domain : List Value} {type : DataType} {r : Value}
  {place : Binary64} {direction : Direction}

theorem resolve_nearest (hStrategy : setting.strategy = .nearest) (hDomain : domain ≠ [])
    (hReference : setting.referenceValue domain type = .ok r) (direction : Direction) :
    setting.resolve domain type direction = nearest direction r domain := by
  unfold resolve
  rw [hStrategy, hReference]
  exact if_neg (fun hEmpty => hDomain (List.isEmpty_iff.mp hEmpty))

theorem resolve_of_place {sorted : List Value} (hStrategy : setting.strategy = .nearest)
    (hDomain : domain ≠ []) (hReference : setting.referenceValue domain type = .ok r)
    (hPlace : r.place? = some place) (hSort : sort direction domain = .ok sorted) :
    setting.resolve domain type direction = .ok (nearestTo place sorted) := by
  rw [resolve_nearest hStrategy hDomain hReference]
  unfold nearest
  rw [hPlace, hSort]
  rfl

theorem isFinite_of_referenceValue (hReference : setting.referenceValue domain type = .ok r)
    (hPlace : r.place? = some place) : place.isFinite = true := by
  unfold referenceValue at hReference
  split at hReference
  · cases hReference
  · exact isFinite_of_place?_eq_some (Token.read_write hReference).2.1 hPlace

end

def bands : List Value :=
  [.number (.range (Binary64.ofInt 1) (Binary64.ofInt 2)),
    .number (.instant (Binary64.ofInt 3)), .number (.instant (Binary64.ofInt 5))]

end DefaultSetting
end LayerAxes
