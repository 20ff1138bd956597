import LayerAxes.Proofs.Time.Components
import Mathlib.Algebra.GroupWithZero.Nat

/-!
# Components that are added up

A reader of components knows some items and refuses all other components.  What it has
added up stands for the items that it has read, and it stops where their months or
their milliseconds find no room.
-/

namespace LayerAxes
namespace Duration

/-- What an item stands for. -/
structure Share where
  months : Nat
  millis : Nat

def maxMillis : Nat :=
  0x7FFFFFFFFFFFFFFF

theorem toInt_ofInt_natCast {n : Nat} (h : n ≤ maxMillis) : (Int64.ofInt n).toInt = n := by
  unfold maxMillis at h
  exact Int64.toInt_ofInt_of_le (by omega) (by omega)

namespace Share

/-- What is added to the count of milliseconds: the most that a word holds, if it is more. -/
def counted (s : Share) : Nat :=
  min s.millis maxMillis

def part (s : Share) : Duration :=
  ⟨s.months, Int64.ofInt s.counted⟩

end Share

def monthsOf (shares : List Share) : Nat :=
  (shares.map Share.months).sum

def countedOf (shares : List Share) : Nat :=
  (shares.map Share.counted).sum

def totalOf (shares : List Share) : Duration :=
  ⟨monthsOf shares, Int64.ofInt (countedOf shares)⟩

section

variable (shares more : List Share) (share : Share)

theorem monthsOf_append : monthsOf (shares ++ more) = monthsOf shares + monthsOf more := by
  unfold monthsOf
  rw [List.map_append, List.sum_append]

theorem countedOf_append : countedOf (shares ++ more) = countedOf shares + countedOf more := by
  unfold countedOf
  rw [List.map_append, List.sum_append]

theorem monthsOf_singleton : monthsOf [share] = share.months :=
  Nat.add_zero _

theorem countedOf_singleton : countedOf [share] = share.counted :=
  Nat.add_zero _

end

/-- There is room for the sums of all items. -/
structure Fits (shares : List Share) : Prop where
  months_le : monthsOf shares ≤ wholeLimit
  counted_le : countedOf shares ≤ maxMillis

/-- There is room for the months, but not for the milliseconds. -/
structure Overflows (shares : List Share) : Prop where
  months_le : monthsOf shares ≤ wholeLimit
  lt_counted : maxMillis < countedOf shares

section

variable {shares more : List Share}

theorem fits_nil : Fits [] :=
  ⟨Nat.zero_le _, Nat.zero_le _⟩

theorem Fits.of_append (h : Fits (shares ++ more)) : Fits shares := by
  rcases h with ⟨hMonths, hCounted⟩
  rw [monthsOf_append] at hMonths
  rw [countedOf_append] at hCounted
  exact ⟨Nat.le_of_add_right_le hMonths, Nat.le_of_add_right_le hCounted⟩

theorem Fits.not_overflows (h : Fits shares) : ¬ Overflows shares :=
  fun hMore => Nat.not_lt.mpr h.counted_le hMore.lt_counted

theorem monthsOf_le_of_append {limit : Nat} (h : monthsOf (shares ++ more) ≤ limit) :
    monthsOf shares ≤ limit := by
  rw [monthsOf_append] at h
  exact Nat.le_of_add_right_le h

/-- Everything that adding one more item can come to. -/
theorem add_part_cases (h : Fits shares) (share : Share) :
    (wholeLimit < monthsOf (shares ++ [share]) ∧
        (totalOf shares).add share.part = .error .malformed) ∨
      (Overflows (shares ++ [share]) ∧ (totalOf shares).add share.part = .error .overflow) ∨
      (Fits (shares ++ [share]) ∧
        (totalOf shares).add share.part = .ok (totalOf (shares ++ [share]))) := by
  have hMonths : monthsOf (shares ++ [share]) = monthsOf shares + share.months := by
    rw [monthsOf_append, monthsOf_singleton]
  have hCounted : countedOf (shares ++ [share]) = countedOf shares + share.counted := by
    rw [countedOf_append, countedOf_singleton]
  have hFirst : (totalOf shares).millis.toInt = countedOf shares :=
    toInt_ofInt_natCast h.counted_le
  have hSecond : share.part.millis.toInt = share.counted :=
    toInt_ofInt_natCast (Nat.min_le_right _ _)
  have hLeast : Int64.minValue.toInt ≤ 0 := by decide
  have hMost : Int64.maxValue.toInt = maxMillis := by decide
  unfold add
  rw [hFirst, hSecond]
  dsimp only
  by_cases hRoom : wholeLimit < monthsOf (shares ++ [share])
  · refine Or.inl ⟨hRoom, if_pos ?_⟩
    rw [hMonths] at hRoom
    exact hRoom
  · have hOwn : ¬ wholeLimit < (totalOf shares).months + share.part.months := by
      rw [hMonths] at hRoom
      exact hRoom
    rw [if_neg hOwn]
    by_cases hMore : maxMillis < countedOf (shares ++ [share])
    · refine Or.inr (Or.inl ⟨⟨Nat.not_lt.mp hRoom, hMore⟩, if_pos ?_⟩)
      omega
    · refine Or.inr (Or.inr ⟨⟨Nat.not_lt.mp hRoom, Nat.not_lt.mp hMore⟩, ?_⟩)
      rw [if_neg (by omega)]
      unfold totalOf
      rw [hMonths, hCounted, Int.natCast_add]
      rfl

end

/-!
# Readers of components
-/

/-- The text is spelled by the components of some items and others after them. -/
def Opens {ι : Type} (component : ι -> List Char × Char) (items : List ι) (cs : List Char) :
    Prop :=
  exists rest, (forall c, c ∈ rest -> IsComponent c) ∧
    (items.map component ++ rest).flatMap spell = cs

/-- A reader of components knows some items, each by a component of its own. -/
structure Reads {ι : Type} (component? : List Char × Char -> Option Duration)
    (component : ι -> List Char × Char) (share : ι -> Share) : Prop where
  isComponent : forall i, IsComponent (component i)
  injective : Function.Injective component
  read : forall i, component? (component i) = some (share i).part
  only : forall c, IsComponent c -> forall d, component? c = some d -> exists i, component i = c

namespace Reads

variable {ι : Type} {component? : List Char × Char -> Option Duration}
  {component : ι -> List Char × Char} {share : ι -> Share} {shares : List Share}
  {c : List Char × Char} {parts : List (List Char × Char)} {cs : List Char} {d : Duration}

theorem components?_append (h : Reads component? component share) {items : List ι}
    (hRest : forall c, c ∈ parts -> IsComponent c) :
    components? [] ((items.map component ++ parts).flatMap spell) =
      some (items.map component ++ parts) := by
  apply components?_flatMap_spell
  intro c hc
  rcases List.mem_append.mp hc with hItem | hLater
  · rcases List.mem_map.mp hItem with ⟨i, _, rfl⟩
    exact h.isComponent i
  · exact hRest c hLater

theorem addComponent_cases (h : Reads component? component share) (hc : IsComponent c)
    (hFits : Fits shares) :
    ((forall i, component i = c -> wholeLimit < monthsOf (shares ++ [share i])) ∧
        addComponent component? (totalOf shares) c = .error .malformed) ∨
      exists i, component i = c ∧
        ((Overflows (shares ++ [share i]) ∧
            addComponent component? (totalOf shares) c = .error .overflow) ∨
          (Fits (shares ++ [share i]) ∧
            addComponent component? (totalOf shares) c = .ok (totalOf (shares ++ [share i])))) := by
  unfold addComponent
  cases hRead : component? c with
  | none =>
      refine Or.inl ⟨?_, rfl⟩
      rintro i rfl
      rw [h.read i] at hRead
      cases hRead
  | some d =>
      rcases h.only c hc d hRead with ⟨i, rfl⟩
      rw [h.read i] at hRead
      cases hRead
      rcases add_part_cases hFits (share i) with ⟨hMonths, hAdd⟩ | hRoom
      · refine Or.inl ⟨?_, hAdd⟩
        intro j hj
        rw [h.injective hj]
        exact hMonths
      · exact Or.inr ⟨i, rfl, hRoom⟩

theorem foldlM_eq_ok_iff (h : Reads component? component share)
    (hParts : forall c, c ∈ parts -> IsComponent c) (hFits : Fits shares) :
    parts.foldlM (addComponent component?) (totalOf shares) = .ok d <->
      exists items : List ι, items.map component = parts ∧
        Fits (shares ++ items.map share) ∧ d = totalOf (shares ++ items.map share) := by
  induction parts generalizing shares with
  | nil =>
      rw [List.foldlM_nil]
      constructor
      · intro hTotal
        cases hTotal
        exact ⟨[], rfl, by rwa [List.map_nil, List.append_nil],
          by rw [List.map_nil, List.append_nil]⟩
      · rintro ⟨items, hItems, _, rfl⟩
        rw [List.map_eq_nil_iff.mp hItems, List.map_nil, List.append_nil]
        rfl
  | cons c parts ih =>
      rcases List.forall_mem_cons.mp hParts with ⟨hc, hRest⟩
      have hStep : forall {items : List ι}, items.map component = c :: parts ->
          exists (i : ι) (rest : List ι), component i = c ∧ rest.map component = parts ∧
            shares ++ items.map share = shares ++ [share i] ++ rest.map share := by
        intro items hItems
        cases items with
        | nil => cases hItems
        | cons i rest =>
            rcases List.cons.inj hItems with ⟨hFirst, hLater⟩
            exact ⟨i, rest, hFirst, hLater, List.append_cons _ _ _⟩
      rw [List.foldlM_cons]
      rcases h.addComponent_cases hc hFits with
        ⟨hNone, hAdd⟩ | ⟨i, rfl, ⟨hMore, hAdd⟩ | ⟨hRoom, hAdd⟩⟩
      · rw [hAdd]
        constructor
        · intro hTotal
          cases hTotal
        · rintro ⟨items, hItems, hAll, _⟩
          rcases hStep hItems with ⟨i, rest, hFirst, _, hShares⟩
          rw [hShares] at hAll
          exact absurd hAll.of_append.months_le (Nat.not_le.mpr (hNone i hFirst))
      · rw [hAdd]
        constructor
        · intro hTotal
          cases hTotal
        · rintro ⟨items, hItems, hAll, _⟩
          rcases hStep hItems with ⟨j, rest, hFirst, _, hShares⟩
          rw [hShares, h.injective hFirst] at hAll
          exact absurd hMore hAll.of_append.not_overflows
      · rw [hAdd]
        refine (ih hRest hRoom).trans ?_
        constructor
        · rintro ⟨items, rfl, hAll, rfl⟩
          rw [← List.append_cons] at hAll ⊢
          exact ⟨i :: items, rfl, hAll, rfl⟩
        · rintro ⟨items, hItems, hAll, rfl⟩
          rcases hStep hItems with ⟨j, rest, hFirst, rfl, hShares⟩
          rw [hShares, h.injective hFirst] at hAll ⊢
          exact ⟨rest, rfl, hAll, rfl⟩

theorem foldlM_eq_overflow_iff (h : Reads component? component share)
    (hParts : forall c, c ∈ parts -> IsComponent c) (hFits : Fits shares) :
    parts.foldlM (addComponent component?) (totalOf shares) = .error .overflow <->
      exists (items : List ι) (rest : List (List Char × Char)),
        items.map component ++ rest = parts ∧ Overflows (shares ++ items.map share) := by
  induction parts generalizing shares with
  | nil =>
      rw [List.foldlM_nil]
      constructor
      · intro hTotal
        cases hTotal
      · rintro ⟨items, rest, hItems, hMore⟩
        rw [List.map_eq_nil_iff.mp (List.append_eq_nil_iff.mp hItems).1, List.map_nil,
          List.append_nil] at hMore
        exact absurd hMore hFits.not_overflows
  | cons c parts ih =>
      rcases List.forall_mem_cons.mp hParts with ⟨hc, hRest⟩
      have hStep : forall {items : List ι} {rest : List (List Char × Char)},
          items.map component ++ rest = c :: parts -> Overflows (shares ++ items.map share) ->
            exists (i : ι) (later : List ι), component i = c ∧ later.map component ++ rest = parts ∧
              shares ++ items.map share = shares ++ [share i] ++ later.map share := by
        intro items rest hItems hMore
        cases items with
        | nil =>
            rw [List.map_nil, List.append_nil] at hMore
            exact absurd hMore hFits.not_overflows
        | cons i later =>
            rcases List.cons.inj hItems with ⟨hFirst, hLater⟩
            exact ⟨i, later, hFirst, hLater, List.append_cons _ _ _⟩
      rw [List.foldlM_cons]
      rcases h.addComponent_cases hc hFits with
        ⟨hNone, hAdd⟩ | ⟨i, rfl, ⟨hOver, hAdd⟩ | ⟨hRoom, hAdd⟩⟩
      · rw [hAdd]
        constructor
        · intro hTotal
          cases hTotal
        · rintro ⟨items, rest, hItems, hMore⟩
          rcases hStep hItems hMore with ⟨i, later, hFirst, _, hShares⟩
          rw [hShares] at hMore
          exact absurd (monthsOf_le_of_append hMore.months_le)
            (Nat.not_le.mpr (hNone i hFirst))
      · rw [hAdd]
        constructor
        · intro _
          exact ⟨[i], parts, rfl, hOver⟩
        · intro _
          rfl
      · rw [hAdd]
        refine (ih hRest hRoom).trans ?_
        constructor
        · rintro ⟨items, rest, rfl, hMore⟩
          rw [← List.append_cons] at hMore
          exact ⟨i :: items, rest, rfl, hMore⟩
        · rintro ⟨items, rest, hItems, hMore⟩
          rcases hStep hItems hMore with ⟨j, later, hFirst, rfl, hShares⟩
          rw [hShares, h.injective hFirst] at hMore
          exact ⟨later, rest, rfl, hMore⟩

theorem addComponents_eq_ok_iff (h : Reads component? component share) (hFits : Fits shares) :
    addComponents component? (totalOf shares) cs = .ok d <->
      exists items : List ι, (items.map component).flatMap spell = cs ∧
        Fits (shares ++ items.map share) ∧ d = totalOf (shares ++ items.map share) := by
  unfold addComponents
  cases hParts : components? [] cs with
  | none =>
      constructor
      · intro hTotal
        cases hTotal
      · rintro ⟨items, rfl, _, _⟩
        rw [components?_map h.isComponent] at hParts
        cases hParts
  | some parts =>
      rcases components?_eq_some_iff.mp hParts with ⟨rfl, hComponents⟩
      refine (h.foldlM_eq_ok_iff hComponents hFits).trans ?_
      constructor
      · rintro ⟨items, rfl, hAll⟩
        exact ⟨items, rfl, hAll⟩
      · rintro ⟨items, hItems, hAll⟩
        rw [← hItems, components?_map h.isComponent] at hParts
        exact ⟨items, Option.some.inj hParts, hAll⟩

theorem addComponents_eq_overflow_iff (h : Reads component? component share)
    (hFits : Fits shares) :
    addComponents component? (totalOf shares) cs = .error .overflow <->
      exists items : List ι, Opens component items cs ∧
        Overflows (shares ++ items.map share) := by
  unfold addComponents
  cases hParts : components? [] cs with
  | none =>
      constructor
      · intro hTotal
        cases hTotal
      · rintro ⟨items, ⟨rest, hRest, rfl⟩, _⟩
        rw [h.components?_append hRest] at hParts
        cases hParts
  | some parts =>
      rcases components?_eq_some_iff.mp hParts with ⟨rfl, hComponents⟩
      refine (h.foldlM_eq_overflow_iff hComponents hFits).trans ?_
      constructor
      · rintro ⟨items, rest, rfl, hMore⟩
        exact ⟨items, ⟨rest, fun c hc => hComponents c (List.mem_append_right _ hc), rfl⟩, hMore⟩
      · rintro ⟨items, ⟨rest, hRest, hText⟩, hMore⟩
        rw [← hText, h.components?_append hRest] at hParts
        exact ⟨items, rest, Option.some.inj hParts, hMore⟩

end Reads

end Duration
end LayerAxes
