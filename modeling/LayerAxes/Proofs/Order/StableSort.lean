import Mathlib.Data.List.Sort

/-!
# Stable sorting

Domains and rows are sorted by comparisons that take different items for equal,
so that a sorted list is determined only because ties keep their order.  This
module says what such a list is, and how sorting goes together with the other
steps of an answer: leaving out items and picking a page.
-/

namespace LayerAxes

open Std

variable {α : Type}

/-!
# The stable order

That ties keep their order cannot be said of two items at a time, as a list may hold an
item more than once.  A list is determined by what it holds at every place, together with
the order of the places.
-/

/-- The items of a list that take the place of `a`. -/
def atPlace (cmp : α -> α -> Ordering) (a : α) (items : List α) : List α :=
  items.filter fun b => cmp a b == .eq

/-- A list in the order of a comparison that holds at every place what the original holds there. -/
structure StableOrder (cmp : α -> α -> Ordering) (original sorted : List α) : Prop where
  ordered : sorted.Pairwise fun a b => (cmp a b).isLE = true
  places : forall a, atPlace cmp a sorted = atPlace cmp a original

section

variable {cmp : α -> α -> Ordering} {a b : α} {items : List α}

theorem mem_atPlace : b ∈ atPlace cmp a items <-> b ∈ items ∧ cmp a b = .eq := by
  unfold atPlace
  rw [List.mem_filter, beq_iff_eq]

theorem atPlace_cons_of_eq (h : cmp a b = .eq) :
    atPlace cmp a (b :: items) = b :: atPlace cmp a items :=
  List.filter_cons_of_pos (beq_iff_eq.mpr h)

theorem atPlace_cons_of_ne (h : cmp a b ≠ .eq) :
    atPlace cmp a (b :: items) = atPlace cmp a items :=
  List.filter_cons_of_neg fun hTied => h (beq_iff_eq.mp hTied)

end

namespace StableOrder

section

variable (cmp : α -> α -> Ordering) [TransCmp cmp]

theorem isLE_trans (a b c : α) (hab : (cmp a b).isLE = true) (hbc : (cmp b c).isLE = true) :
    (cmp a c).isLE = true :=
  TransCmp.isLE_trans hab hbc

theorem isLE_self (a : α) : (cmp a a).isLE = true := by
  have hSelf : cmp a a = .eq := ReflCmp.compare_self
  rw [hSelf]
  rfl

theorem isLE_total (a b : α) : ((cmp a b).isLE || (cmp b a).isLE) = true := by
  have hSwap : cmp b a = (cmp a b).swap := OrientedCmp.eq_swap
  rw [hSwap]
  cases cmp a b <;> rfl

variable {cmp} in
theorem isLE_of_mem_cons {first a : α} {items : List α}
    (h : (first :: items).Pairwise fun a b => (cmp a b).isLE = true)
    (ha : a ∈ first :: items) : (cmp first a).isLE = true := by
  rcases List.mem_cons.mp ha with rfl | hLater
  · exact isLE_self cmp a
  · exact List.rel_of_pairwise_cons h hLater

/-!
# Sorting and leaving out items

One more item in front of a list goes between the sorted items that precede it
strictly and all others.  That place does not change when items are left out.
-/

theorem pairwise_mergeSort (items : List α) :
    (items.mergeSort fun a b => (cmp a b).isLE).Pairwise fun a b => (cmp a b).isLE = true :=
  List.pairwise_mergeSort (isLE_trans cmp) (isLE_total cmp) items

theorem mergeSort_cons (a : α) (items : List α) :
    (a :: items).mergeSort (fun a b => (cmp a b).isLE) =
      (items.mergeSort fun a b => (cmp a b).isLE).filter (fun b => !(cmp a b).isLE) ++
        a :: (items.mergeSort fun a b => (cmp a b).isLE).filter (fun b => (cmp a b).isLE) := by
  rcases List.mergeSort_cons (isLE_trans cmp) (isLE_total cmp) a items with
    ⟨before, after, hCons, hItems, hBefore⟩
  have hSorted := pairwise_mergeSort cmp (a :: items)
  rw [hCons] at hSorted
  have hAfter : forall b, b ∈ after -> (cmp a b).isLE = true :=
    (List.pairwise_cons.mp (List.pairwise_append.mp hSorted).2.1).1
  have hBeforeFilter : before.filter (fun b => (cmp a b).isLE) = [] := by
    apply List.filter_eq_nil_iff.mpr
    intro b hb
    simpa using hBefore b hb
  have hAfterFilter : after.filter (fun b => !(cmp a b).isLE) = [] := by
    apply List.filter_eq_nil_iff.mpr
    intro b hb
    simp [hAfter b hb]
  rw [hCons, hItems, List.filter_append, List.filter_append, hBeforeFilter, hAfterFilter,
    List.filter_eq_self.mpr hBefore, List.filter_eq_self.mpr hAfter]
  simp

theorem filter_mergeSort (p : α -> Bool) (items : List α) :
    (items.mergeSort fun a b => (cmp a b).isLE).filter p =
      (items.filter p).mergeSort fun a b => (cmp a b).isLE := by
  induction items with
  | nil => simp
  | cons a items ih =>
      cases hp : p a with
      | true =>
          rw [List.filter_cons_of_pos hp, mergeSort_cons, mergeSort_cons, List.filter_append,
            List.filter_cons_of_pos hp, ← ih, List.filter_comm p, List.filter_comm p]
      | false =>
          have hDrop : ¬ p a = true := by simp [hp]
          rcases List.mergeSort_cons (isLE_trans cmp) (isLE_total cmp) a items with
            ⟨before, after, hCons, hItems, _⟩
          rw [hCons, List.filter_append, List.filter_cons_of_neg hDrop, ← List.filter_append,
            ← hItems, ih, List.filter_cons_of_neg hDrop]

theorem mergeSort (items : List α) :
    StableOrder cmp items (items.mergeSort fun a b => (cmp a b).isLE) where
  ordered := pairwise_mergeSort cmp items
  places a := by
    unfold atPlace
    rw [filter_mergeSort]
    apply List.mergeSort_of_pairwise
    apply List.pairwise_of_forall_mem_list
    intro b hb c hc
    have hFirst : cmp b a = .eq := OrientedCmp.eq_symm (mem_atPlace.mp hb).2
    have hTied : cmp b c = .eq := TransCmp.eq_trans hFirst (mem_atPlace.mp hc).2
    rw [hTied]
    rfl

end

/-!
# There is one stable order
-/

variable {cmp : α -> α -> Ordering} [TransCmp cmp] {xs ys original sorted : List α}

theorem mem_of_places (h : forall a, atPlace cmp a xs = atPlace cmp a ys) {a : α} (ha : a ∈ xs) :
    a ∈ ys := by
  have hOwn : a ∈ atPlace cmp a xs := mem_atPlace.mpr ⟨ha, ReflCmp.compare_self⟩
  rw [h a] at hOwn
  exact (mem_atPlace.mp hOwn).1

/-- In two ordered lists with the same items at every place, the same item comes first. -/
theorem eq_of_places (hx : xs.Pairwise fun a b => (cmp a b).isLE = true)
    (hy : ys.Pairwise fun a b => (cmp a b).isLE = true)
    (h : forall a, atPlace cmp a xs = atPlace cmp a ys) : xs = ys := by
  induction xs generalizing ys with
  | nil =>
      cases ys with
      | nil => rfl
      | cons y ys =>
          have hMem := mem_of_places (fun a => (h a).symm) List.mem_cons_self
          exact absurd hMem List.not_mem_nil
  | cons x xs ih =>
      cases ys with
      | nil => exact absurd (mem_of_places h List.mem_cons_self) List.not_mem_nil
      | cons y ys =>
          have hMem := mem_of_places (fun a => (h a).symm) List.mem_cons_self
          have hBefore := isLE_of_mem_cons hx hMem
          have hOther := mem_of_places h List.mem_cons_self
          have hAfter := isLE_of_mem_cons hy hOther
          have hTied : cmp x y = .eq := OrientedCmp.isLE_antisymm hBefore hAfter
          have hOwn := h x
          rw [atPlace_cons_of_eq ReflCmp.compare_self, atPlace_cons_of_eq hTied] at hOwn
          cases (List.cons.inj hOwn).1
          have hRest : forall a, atPlace cmp a xs = atPlace cmp a ys := by
            intro a
            have hPlace := h a
            by_cases hFirst : cmp a x = .eq
            · rw [atPlace_cons_of_eq hFirst, atPlace_cons_of_eq hFirst] at hPlace
              exact (List.cons.inj hPlace).2
            · rwa [atPlace_cons_of_ne hFirst, atPlace_cons_of_ne hFirst] at hPlace
          rw [ih hx.of_cons hy.of_cons hRest]

theorem iff_eq_mergeSort :
    StableOrder cmp original sorted <->
      sorted = original.mergeSort fun a b => (cmp a b).isLE := by
  constructor
  · intro h
    have hSort := mergeSort cmp original
    exact eq_of_places h.ordered hSort.ordered fun a => (h.places a).trans (hSort.places a).symm
  · rintro rfl
    exact mergeSort cmp original

theorem perm (h : StableOrder cmp original sorted) : sorted.Perm original := by
  rw [iff_eq_mergeSort.mp h]
  exact List.mergeSort_perm _ _

theorem isLE_of_head?_eq_some {first : α} (h : StableOrder cmp original sorted)
    (hFirst : sorted.head? = some first) {a : α} (ha : a ∈ original) :
    (cmp first a).isLE = true := by
  have hMem : a ∈ sorted := h.perm.symm.subset ha
  have hOrdered := h.ordered
  cases sorted with
  | nil => cases hFirst
  | cons b items =>
      cases hFirst
      exact isLE_of_mem_cons hOrdered hMem

theorem isLE_of_getLast?_eq_some {last : α} (h : StableOrder cmp original sorted)
    (hLast : sorted.getLast? = some last) {a : α} (ha : a ∈ original) :
    (cmp a last).isLE = true := by
  have hMem : a ∈ sorted := h.perm.symm.subset ha
  have hOrdered := h.ordered
  rcases List.getLast?_eq_some_iff.mp hLast with ⟨items, rfl⟩
  rcases List.mem_append.mp hMem with hEarlier | hSelf
  · exact (List.pairwise_append.mp hOrdered).2.2 a hEarlier last List.mem_cons_self
  · rw [List.mem_singleton.mp hSelf]
    exact isLE_self cmp last

end StableOrder

/-!
# Picking a page

A part of a list can be found again by the keys of its items, as long as no two
items of the list share a key.
-/

theorem filter_contains_of_sublist {β : Type} [BEq β] [LawfulBEq β] {f : α -> β}
    {page items : List α} (hPage : page.Sublist items) (hKeys : (items.map f).Nodup) :
    items.filter (fun a => (page.map f).contains (f a)) = page := by
  induction hPage with
  | slnil => rfl
  | @cons page items a hPage ih =>
      rw [List.map_cons, List.nodup_cons] at hKeys
      rw [List.filter_cons_of_neg, ih hKeys.2]
      intro hMem
      rw [List.contains_iff_mem] at hMem
      exact hKeys.1 ((hPage.map f).subset hMem)
  | @cons_cons page items a hPage ih =>
      rw [List.map_cons, List.nodup_cons] at hKeys
      have hOthers : items.filter (fun b => ((a :: page).map f).contains (f b)) =
          items.filter (fun b => (page.map f).contains (f b)) := by
        apply List.filter_congr
        intro b hb
        have hne : f b ≠ f a := fun heq => hKeys.1 (heq ▸ List.mem_map_of_mem hb)
        simp [hne]
      rw [List.filter_cons_of_pos (by simp), hOthers, ih hKeys.2]

end LayerAxes
