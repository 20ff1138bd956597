import LayerAxes.Text.Basic
import Mathlib.Data.List.Basic
import Mathlib.Data.List.Induction
import Mathlib.Tactic.Ring

/-!
# Numbers in digits

Digits are read as the number that they are written for, whatever zeros stand in
front of them, and a number has only one text of a given length.
-/

namespace LayerAxes
namespace Text

def AllDigits (cs : List Char) : Prop :=
  forall c, c ∈ cs -> c.isDigit = true

instance (cs : List Char) : Decidable (AllDigits cs) :=
  List.decidableBAll _ cs

theorem AllDigits.append {as bs : List Char} (ha : AllDigits as) (hb : AllDigits bs) :
    AllDigits (as ++ bs) := by
  intro c hc
  rcases List.mem_append.mp hc with hFirst | hSecond
  · exact ha c hFirst
  · exact hb c hSecond

theorem AllDigits.of_append {as bs : List Char} (h : AllDigits (as ++ bs)) :
    AllDigits as ∧ AllDigits bs :=
  ⟨fun c hc => h c (List.mem_append_left _ hc), fun c hc => h c (List.mem_append_right _ hc)⟩

theorem allDigits_zeros (k : Nat) : AllDigits (List.replicate k '0') := by
  intro c hc
  rw [List.eq_of_mem_replicate hc]
  rfl

theorem allDigits_digits (n : Nat) : AllDigits (digits n) :=
  fun _ hc => Nat.isDigit_of_mem_toDigits (by decide) (by decide) hc

theorem digits_ne_nil (n : Nat) : digits n ≠ [] :=
  Nat.toDigits_ne_nil

theorem exists_digits_eq_cons (n : Nat) :
    exists c cs, digits n = c :: cs ∧ c.isDigit = true := by
  cases hDigits : digits n with
  | nil => exact absurd hDigits (digits_ne_nil n)
  | cons c cs =>
      refine ⟨c, cs, rfl, allDigits_digits n c ?_⟩
      rw [hDigits]
      exact List.mem_cons_self

theorem length_digits_pos (n : Nat) : 0 < (digits n).length :=
  Nat.length_toDigits_pos

theorem length_digits_le_iff {n k : Nat} (hk : 0 < k) :
    (digits n).length ≤ k <-> n < 10 ^ k :=
  Nat.length_toDigits_le_iff (by decide) hk

theorem lt_length_digits_iff {n : Nat} (hn : 0 < n) (k : Nat) :
    k < (digits n).length <-> 10 ^ k ≤ n := by
  cases k with
  | zero => exact iff_of_true (length_digits_pos n) hn
  | succ k => rw [← Nat.not_le, length_digits_le_iff (Nat.succ_pos k), Nat.not_lt]

theorem length_digits_mul_pow {n : Nat} (hn : 0 < n) (k : Nat) :
    (digits (n * 10 ^ k)).length = (digits n).length + k := by
  have hPower : 0 < 10 ^ k := Nat.pow_pos (by decide)
  rcases Nat.exists_eq_add_one_of_ne_zero (Nat.ne_of_gt (length_digits_pos n)) with ⟨j, hj⟩
  have hHigh : n < 10 ^ (j + 1) := (length_digits_le_iff (Nat.succ_pos j)).mp (Nat.le_of_eq hj)
  have hLow : 10 ^ j ≤ n := (lt_length_digits_iff hn j).mp (by omega)
  rw [hj]
  apply Nat.le_antisymm
  · rw [length_digits_le_iff (by omega), pow_add]
    exact Nat.mul_lt_mul_of_pos_right hHigh hPower
  · have hOne : j + 1 + k = j + k + 1 := by omega
    rw [hOne, Nat.succ_le_iff, lt_length_digits_iff (Nat.mul_pos hn hPower), pow_add]
    exact Nat.mul_le_mul_right _ hLow

/-!
# Values
-/

theorem digitsValue_append (as bs : List Char) :
    digitsValue (as ++ bs) = 10 ^ bs.length * digitsValue as + digitsValue bs := by
  unfold digitsValue
  rw [Nat.ofDigitChars_append, Nat.ofDigitChars_eq_ofDigitChars_zero]

theorem digitsValue_zeros (k : Nat) : digitsValue (List.replicate k '0') = 0 := by
  unfold digitsValue
  rw [Nat.ofDigitChars_replicate_zero, Nat.mul_zero]

theorem digitsValue_zeros_append (k : Nat) (ds : List Char) :
    digitsValue (List.replicate k '0' ++ ds) = digitsValue ds := by
  rw [digitsValue_append, digitsValue_zeros, Nat.mul_zero, Nat.zero_add]

theorem digitsValue_append_zeros (ds : List Char) (k : Nat) :
    digitsValue (ds ++ List.replicate k '0') = digitsValue ds * 10 ^ k := by
  rw [digitsValue_append, digitsValue_zeros, List.length_replicate, Nat.add_zero, Nat.mul_comm]

theorem digitsValue_singleton {c : Char} (h : c.isDigit = true) :
    digitsValue [c] < 10 ∧ c.toNat = digitsValue [c] + '0'.toNat := by
  have hRange : '0'.toNat ≤ c.toNat ∧ c.toNat ≤ '9'.toNat := by
    unfold Char.isDigit at h
    simpa [UInt32.le_iff_toNat_le] using h
  have hValue : digitsValue [c] = c.toNat - '0'.toNat := by
    unfold digitsValue
    rw [Nat.ofDigitChars_cons, Nat.ofDigitChars_nil]
    omega
  have hNine : '9'.toNat = '0'.toNat + 9 := rfl
  omega

theorem digitsValue_lt {ds : List Char} (h : AllDigits ds) :
    digitsValue ds < 10 ^ ds.length := by
  induction ds using List.reverseRecOn with
  | nil => decide
  | append_singleton ds c ih =>
      have hLast := (digitsValue_singleton (h c (by simp))).1
      have hFront := ih h.of_append.1
      rw [digitsValue_append, List.length_append, List.length_singleton]
      rw [pow_succ]
      omega

theorem eq_of_digitsValue_eq {as bs : List Char} (ha : AllDigits as) (hb : AllDigits bs)
    (hLength : as.length = bs.length) (hValue : digitsValue as = digitsValue bs) : as = bs := by
  induction as using List.reverseRecOn generalizing bs with
  | nil => exact (List.length_eq_zero_iff.mp hLength.symm).symm
  | append_singleton as a ih =>
      rcases List.eq_nil_or_concat' bs with rfl | ⟨bs, b, rfl⟩
      · simp at hLength
      · rcases digitsValue_singleton (ha a (by simp)) with ⟨haLast, haChar⟩
        rcases digitsValue_singleton (hb b (by simp)) with ⟨hbLast, hbChar⟩
        rw [digitsValue_append, digitsValue_append, List.length_singleton, List.length_singleton,
          pow_one] at hValue
        have hFront : as = bs := by
          apply ih ha.of_append.1 hb.of_append.1
          · simpa using hLength
          · omega
        have hLast : a = b := by
          apply Char.toNat_inj.mp
          omega
        rw [hFront, hLast]

theorem whole?_digits (n : Nat) : whole? (digits n) = some n := by
  have hAll : (digits n).all Char.isDigit = true := List.all_eq_true.mpr (allDigits_digits n)
  unfold whole?
  simp [hAll, digits_ne_nil, digitsValue_digits]

/-!
# Runs of digits
-/

theorem spanDigits_append {ds rest : List Char} (h : AllDigits ds)
    (hRest : forall c, rest.head? = some c -> c.isDigit = false) :
    spanDigits (ds ++ rest) = (ds, rest) := by
  have hTake : rest.takeWhile Char.isDigit = [] ∧ rest.dropWhile Char.isDigit = rest := by
    cases rest with
    | nil => exact ⟨rfl, rfl⟩
    | cons c rest => simp [hRest c rfl]
  unfold spanDigits
  rw [List.takeWhile_append_of_pos h, List.dropWhile_append_of_pos h, hTake.1, hTake.2,
    List.append_nil]

/-!
# Padding
-/

section

variable {width n : Nat}

theorem allDigits_padded (width n : Nat) : AllDigits (padded width n) :=
  (allDigits_zeros _).append (allDigits_digits n)

theorem digitsValue_padded (width n : Nat) : digitsValue (padded width n) = n := by
  unfold padded
  rw [digitsValue_zeros_append, digitsValue_digits]

theorem length_padded (hWidth : 0 < width) (h : n < 10 ^ width) :
    (padded width n).length = width := by
  have hLength := (length_digits_le_iff hWidth).mpr h
  unfold padded
  rw [List.length_append, List.length_replicate]
  omega

theorem padded_ne_nil (width n : Nat) : padded width n ≠ [] :=
  List.append_ne_nil_of_right_ne_nil _ (digits_ne_nil n)

theorem padded_digitsValue {ds : List Char} (h : AllDigits ds) (hLength : 0 < ds.length) :
    padded ds.length (digitsValue ds) = ds := by
  apply eq_of_digitsValue_eq (allDigits_padded _ _) h
  · exact length_padded hLength (digitsValue_lt h)
  · exact digitsValue_padded _ _

end

end Text
end LayerAxes
