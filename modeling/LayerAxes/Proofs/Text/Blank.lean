import LayerAxes.Proofs.Text.Cut
import LayerAxes.Proofs.Text.Digits
import LayerAxes.Text.Basic
import Mathlib.Data.List.DropRight
import Mathlib.Data.List.TakeWhile

/-!
# Texts without blanks around them

A trimmed text neither starts nor ends with a blank.  Two trimmed texts around a
slash make a trimmed text again.
-/

namespace LayerAxes
namespace Text

theorem isBlank_of_isDigit {c : Char} (h : c.isDigit = true) : isBlank c = false := by
  rcases digitsValue_singleton h with ⟨hLess, hChar⟩
  have hZero : '0'.toNat = 48 := rfl
  simp [isBlank, blankRanges]
  omega

theorem skipBlanks_of_digits {ds : List Char} (h : AllDigits ds) (hNe : ds ≠ [])
    (rest : List Char) : skipBlanks (ds ++ rest) = ds ++ rest := by
  cases ds with
  | nil => exact absurd rfl hNe
  | cons c ds => exact skipBlanks_eq_self_of_head (isBlank_of_isDigit (h c List.mem_cons_self))

/-!
# Trimming
-/

def Trimmed (cs : List Char) : Prop :=
  (forall c, cs.head? = some c -> isBlank c = false) ∧
    forall c, cs.getLast? = some c -> isBlank c = false

theorem trim_eq (cs : List Char) : trim cs = (cs.dropWhile isBlank).rdropWhile isBlank :=
  rfl

theorem mem_of_mem_trim {c : Char} {cs : List Char} (h : c ∈ trim cs) : c ∈ cs := by
  rw [trim_eq] at h
  exact (List.dropWhile_suffix isBlank).subset ((List.rdropWhile_prefix isBlank _).subset h)

theorem trimmed_trim (cs : List Char) : Trimmed (trim cs) := by
  rw [trim_eq]
  constructor
  · intro c hc
    have hPrefix := List.rdropWhile_prefix isBlank (cs.dropWhile isBlank)
    have hHead : (cs.dropWhile isBlank).head? = some c := by
      rcases hPrefix with ⟨rest, hRest⟩
      rw [← hRest, List.head?_append, hc]
      rfl
    have hNot := List.head?_dropWhile_not isBlank cs
    rw [hHead] at hNot
    exact hNot
  · intro c hc
    have hNe : (cs.dropWhile isBlank).rdropWhile isBlank ≠ [] := by
      intro hNil
      rw [hNil] at hc
      cases hc
    have hNot := List.rdropWhile_last_not isBlank (cs.dropWhile isBlank) hNe
    rw [List.getLast?_eq_some_getLast hNe] at hc
    rw [Option.some.inj hc] at hNot
    exact Bool.eq_false_iff.mpr hNot

theorem Trimmed.trim_eq_self {cs : List Char} (h : Trimmed cs) : trim cs = cs := by
  rw [trim_eq]
  have hFront : cs.dropWhile isBlank = cs := by
    cases cs with
    | nil => rfl
    | cons c cs => exact skipBlanks_eq_self_of_head (h.1 c rfl)
  rw [hFront, List.rdropWhile_eq_self_iff]
  intro hNe hBlank
  rw [h.2 _ (List.getLast?_eq_some_getLast hNe)] at hBlank
  cases hBlank

theorem trimmed_of_forall {cs : List Char} (h : forall c, c ∈ cs -> isBlank c = false) :
    Trimmed cs :=
  ⟨fun c hc => h c (List.mem_of_head? hc), fun c hc => h c (List.mem_of_getLast? hc)⟩

theorem Trimmed.append_cons {as bs : List Char} {c : Char} (ha : Trimmed as) (hb : Trimmed bs)
    (hc : isBlank c = false) : Trimmed (as ++ c :: bs) := by
  constructor
  · intro d hd
    cases as with
    | nil =>
        cases hd
        exact hc
    | cons a as => exact ha.1 d hd
  · intro d hd
    rw [List.getLast?_append, List.getLast?_cons] at hd
    cases hLast : bs.getLast? with
    | none =>
        rw [hLast] at hd
        cases hd
        exact hc
    | some b =>
        rw [hLast] at hd
        cases hd
        exact hb.2 _ hLast

end Text
end LayerAxes
