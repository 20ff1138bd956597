import LayerAxes.Proofs.Order.Value
import LayerAxes.Time.Timestamp
import Mathlib.Order.Bounds.Defs

/-!
# The order of timestamps

Timestamps are ordered by their seconds and then by their nanoseconds, so that a
leap second comes after every other instant of its minute.
-/

namespace LayerAxes
namespace Timestamp

open Std

variable {a b : Timestamp}

theorem isLeap_iff : a.isLeap = true <-> nanosPerSecond ≤ a.nanos :=
  decide_eq_true_iff

theorem ofParts?_self (a : Timestamp) : ofParts? a.seconds a.nanos = some a :=
  dif_pos a.valid

theorem parts_of_ofParts?_eq_some {seconds : Int} {nanos : Nat}
    (h : ofParts? seconds nanos = some a) : a.seconds = seconds ∧ a.nanos = nanos := by
  unfold ofParts? at h
  split at h
  · cases h
    exact ⟨rfl, rfl⟩
  · cases h

theorem lt_iff :
    a < b <-> a.seconds < b.seconds ∨ (a.seconds = b.seconds ∧ a.nanos < b.nanos) := by
  show (compare a.seconds b.seconds).then (compare a.nanos b.nanos) = .lt <-> _
  rw [Ordering.then_eq_lt, compare_eq_lt, compare_eq_lt, LawfulEqOrd.compare_eq_iff_eq]

theorem le_iff :
    a ≤ b <-> a.seconds < b.seconds ∨ (a.seconds = b.seconds ∧ a.nanos ≤ b.nanos) := by
  rw [← Std.not_lt, lt_iff]
  omega

instance : IsLinearOrder Timestamp :=
  IsLinearOrder.of_ord

/-!
# The first and the last of some timestamps
-/

section

variable {points : List Timestamp}

theorem bound_snoc {r : Timestamp -> Timestamp -> Prop} (hRefl : forall a, r a a)
    (hTrans : forall a b c, r a b -> r b c -> r a c)
    (h : a ∈ points ∧ forall t, t ∈ points -> r a t) {next : Timestamp}
    (hNext : (next = a ∧ r a b) ∨ (next = b ∧ r b a)) :
    next ∈ points ++ [b] ∧ forall t, t ∈ points ++ [b] -> r next t := by
  rcases hNext with ⟨rfl, hOld⟩ | ⟨rfl, hNew⟩
  · constructor
    · exact List.mem_append_left _ h.1
    · intro t ht
      rcases List.mem_append.mp ht with hBefore | hLast
      · exact h.2 t hBefore
      · rw [List.mem_singleton.mp hLast]
        exact hOld
  · constructor
    · exact List.mem_append_right _ (List.mem_singleton_self _)
    · intro t ht
      rcases List.mem_append.mp ht with hBefore | hLast
      · exact hTrans _ _ _ hNew (h.2 t hBefore)
      · rw [List.mem_singleton.mp hLast]
        exact hRefl _

theorem isLeast_earlier (h : IsLeast {t | t ∈ points} a) (b : Timestamp) :
    IsLeast {t | t ∈ points ++ [b]} (a.earlier b) := by
  apply bound_snoc (r := fun a b => a ≤ b) le_refl (fun _ _ _ => le_trans) h
  unfold earlier
  by_cases hBefore : b < a
  · rw [if_pos hBefore]
    exact Or.inr ⟨rfl, le_of_lt hBefore⟩
  · rw [if_neg hBefore]
    exact Or.inl ⟨rfl, Std.not_lt.mp hBefore⟩

theorem isGreatest_later (h : IsGreatest {t | t ∈ points} a) (b : Timestamp) :
    IsGreatest {t | t ∈ points ++ [b]} (a.later b) := by
  apply bound_snoc (r := fun a b => b ≤ a) le_refl (fun _ _ _ hab hbc => le_trans hbc hab) h
  unfold later
  by_cases hAfter : a < b
  · rw [if_pos hAfter]
    exact Or.inr ⟨rfl, le_of_lt hAfter⟩
  · rw [if_neg hAfter]
    exact Or.inl ⟨rfl, Std.not_lt.mp hAfter⟩

end

end Timestamp
end LayerAxes
