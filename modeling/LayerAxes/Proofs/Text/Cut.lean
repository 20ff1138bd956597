import LayerAxes.Text.Basic
import Mathlib.Data.List.Infix

/-!
# Text cut at a mark

A text that holds a mark is cut, and at its leftmost occurrence: whatever follows
some occurrence is still there after the cut.  A mark of one character does not
occur before the cut.
-/

namespace LayerAxes
namespace Text

variable {mark cs before after : List Char}

theorem isPrefixOf?_append (mark rest : List Char) :
    mark.isPrefixOf? (mark ++ rest) = some rest := by
  induction mark with
  | nil => rfl
  | cons c mark ih =>
      show (if c == c then mark.isPrefixOf? (mark ++ rest) else none) = some rest
      rw [if_pos (beq_self_eq_true c), ih]

theorem exists_cut?_append (before mark after : List Char) :
    exists first skipped, cut? mark (before ++ mark ++ after) = some (first, skipped ++ after) := by
  induction before with
  | nil =>
      have hPrefix := isPrefixOf?_append mark after
      rw [List.nil_append]
      cases hText : mark ++ after with
      | nil =>
          rcases List.append_eq_nil_iff.mp hText with ⟨rfl, rfl⟩
          exact ⟨[], [], rfl⟩
      | cons c cs =>
          rw [hText] at hPrefix
          refine ⟨[], [], ?_⟩
          rw [cut?, hPrefix]
          rfl
  | cons c before ih =>
      rw [List.cons_append, List.cons_append, cut?]
      cases hPrefix : mark.isPrefixOf? (c :: (before ++ mark ++ after)) with
      | none =>
          rcases ih with ⟨first, skipped, hCut⟩
          exact ⟨c :: first, skipped, by rw [hCut]; rfl⟩
      | some rest =>
          have hText := append_of_isPrefixOf? hPrefix
          have hRest : rest <:+ c :: (before ++ mark ++ after) := ⟨mark, hText⟩
          have hAfter : after <:+ c :: (before ++ mark ++ after) := ⟨c :: (before ++ mark), rfl⟩
          have hLength : after.length ≤ rest.length := by
            have hSizes := congrArg List.length hText
            simp only [List.length_append, List.length_cons] at hSizes
            omega
          rcases List.suffix_of_suffix_length_le hAfter hRest hLength with ⟨skipped, hSkipped⟩
          exact ⟨[], skipped, by rw [hSkipped]⟩

theorem cut?_eq_none_iff : cut? mark cs = none <-> ¬ mark <:+: cs := by
  constructor
  · rintro hNone ⟨before, after, rfl⟩
    rcases exists_cut?_append before mark after with ⟨first, skipped, hCut⟩
    rw [hNone] at hCut
    cases hCut
  · intro hNot
    cases hCut : cut? mark cs with
    | none => rfl
    | some parts => exact absurd ⟨_, _, append_of_cut?_eq_some hCut⟩ hNot

theorem not_infix_of_cut?_eq_some (hMark : mark ≠ []) (h : cut? mark cs = some (before, after)) :
    ¬ mark <:+: before := by
  induction cs generalizing before with
  | nil =>
      rw [cut?, if_neg (by rwa [List.isEmpty_iff])] at h
      cases h
  | cons c cs ih =>
      have hText := append_of_cut?_eq_some h
      unfold cut? at h
      split at h
      · cases h
        rw [List.infix_nil]
        exact hMark
      · rename_i hNoPrefix
        rcases Option.map_eq_some_iff.mp h with ⟨⟨inner, rest⟩, hInner, hParts⟩
        cases hParts
        rw [List.infix_cons_iff, not_or]
        refine ⟨?_, ih hInner⟩
        rintro ⟨later, hLater⟩
        rw [← hText, ← hLater, List.append_assoc, List.append_assoc, isPrefixOf?_append]
          at hNoPrefix
        cases hNoPrefix

/-!
# Marks of two characters

A mark of two different characters does not overlap with itself, so that a text is
cut at the first mark that is put after text without one.
-/

section

variable {c d : Char} {xs ys : List Char}

/-- A mark of two characters that is in neither of two texts can only be across their seam. -/
theorem not_infix_append (hFirst : ¬ [c, d] <:+: xs) (hSecond : ¬ [c, d] <:+: ys)
    (hSeam : xs.getLast? = some c -> ys.head? ≠ some d) : ¬ [c, d] <:+: xs ++ ys := by
  intro h
  rcases List.infix_append_iff.mp h with hIn | hIn | ⟨left, right, hMark, hSuffix, hPrefix⟩
  · exact hFirst hIn
  · exact hSecond hIn
  · rcases List.append_eq_cons_iff.mp hMark.symm with ⟨rfl, rfl⟩ | ⟨left, rfl, hRest⟩
    · exact hSecond hPrefix.isInfix
    · rcases List.append_eq_singleton_iff.mp hRest.symm with ⟨rfl, rfl⟩ | ⟨rfl, rfl⟩
      · rcases hSuffix with ⟨front, rfl⟩
        rcases hPrefix with ⟨rest, rfl⟩
        exact hSeam List.getLast?_concat rfl
      · exact hFirst hSuffix.isInfix

theorem cut?_append_mark (hDiffer : c ≠ d) (h : ¬ [c, d] <:+: before) (after : List Char) :
    cut? [c, d] (before ++ [c, d] ++ after) = some (before, after) := by
  rcases exists_cut?_append before [c, d] after with ⟨first, skipped, hCut⟩
  have hText := append_of_cut?_eq_some hCut
  rw [← List.append_assoc, List.append_cancel_right_eq] at hText
  rcases List.eq_nil_or_concat skipped with rfl | ⟨inner, last, rfl⟩
  · rw [List.append_nil, List.append_cancel_right_eq] at hText
    rw [hCut, hText, List.nil_append]
  · -- Another mark further left would end at the first character of the mark or before it.
    have hFront : first ++ [c, d] ++ inner = before ++ [c] := by
      have hEnds : first ++ [c, d] ++ inner ++ [last] = before ++ [c] ++ [d] := by
        simpa using hText
      exact (List.append_inj' hEnds rfl).1
    have hNone : ¬ [c, d] <:+: before ++ [c] := by
      refine not_infix_append h ?_ ?_
      · intro hShort
        exact absurd hShort.length_le (by simp)
      · intro _ hHead
        exact hDiffer (Option.some.inj hHead)
    exact absurd ⟨first, inner, hFront⟩ hNone

theorem cut?_append_of_no_mark (hDiffer : c ≠ d) (h : ¬ [c, d] <:+: xs)
    (hLast : xs.getLast? ≠ some c) (ys : List Char) :
    cut? [c, d] (xs ++ ys) = (cut? [c, d] ys).map fun parts => (xs ++ parts.1, parts.2) := by
  cases hCut : cut? [c, d] ys with
  | none =>
      exact cut?_eq_none_iff.mpr
        (not_infix_append h (cut?_eq_none_iff.mp hCut) fun hSeam => absurd hSeam hLast)
  | some parts =>
      rcases parts with ⟨before, after⟩
      have hBefore : ¬ [c, d] <:+: xs ++ before :=
        not_infix_append h (not_infix_of_cut?_eq_some (List.cons_ne_nil _ _) hCut)
          fun hSeam => absurd hSeam hLast
      rw [← append_of_cut?_eq_some hCut, ← List.append_assoc, ← List.append_assoc]
      exact cut?_append_mark hDiffer hBefore after

end

/-!
# Cutting at a character
-/

theorem cutAt?_cons (c d : Char) (cs : List Char) :
    cutAt? c (d :: cs) =
      if c = d then some ([], cs) else (cutAt? c cs).map fun parts => (d :: parts.1, parts.2) := by
  have hFirst : [c].isPrefixOf? (d :: cs) = if (c == d) = true then some cs else none := rfl
  unfold cutAt?
  rw [cut?, hFirst]
  by_cases h : c = d
  · simp [h]
  · simp [h]

theorem cutAt?_append {c : Char} {before : List Char} (h : c ∉ before) (after : List Char) :
    cutAt? c (before ++ c :: after) = some (before, after) := by
  induction before with
  | nil =>
      rw [List.nil_append, cutAt?_cons, if_pos rfl]
  | cons d before ih =>
      rw [List.mem_cons, not_or] at h
      rw [List.cons_append, cutAt?_cons, if_neg h.1, ih h.2]
      rfl

theorem cutAt?_cases (c : Char) (cs : List Char) :
    (cutAt? c cs = none ∧ c ∉ cs) ∨
      exists before after, cutAt? c cs = some (before, after) ∧ c ∉ before ∧
        cs = before ++ c :: after := by
  induction cs with
  | nil => exact Or.inl ⟨rfl, List.not_mem_nil⟩
  | cons d cs ih =>
      rw [cutAt?_cons]
      by_cases h : c = d
      · rw [if_pos h, h]
        exact Or.inr ⟨[], cs, rfl, List.not_mem_nil, rfl⟩
      · rw [if_neg h]
        rcases ih with ⟨hNone, hNot⟩ | ⟨before, after, hCut, hNot, rfl⟩
        · rw [hNone]
          exact Or.inl ⟨rfl, by simp [h, hNot]⟩
        · rw [hCut]
          exact Or.inr ⟨d :: before, after, rfl, by simp [h, hNot], rfl⟩

theorem cutAt?_eq_none {c : Char} {cs : List Char} (h : c ∉ cs) : cutAt? c cs = none := by
  rcases cutAt?_cases c cs with ⟨hNone, _⟩ | ⟨before, after, _, _, rfl⟩
  · exact hNone
  · simp at h

theorem eq_and_eq_of_append_cons_eq {c : Char} {as bs xs ys : List Char} (ha : c ∉ as)
    (hb : c ∉ bs) (h : as ++ c :: xs = bs ++ c :: ys) : as = bs ∧ xs = ys := by
  have hCut := cutAt?_append ha xs
  rw [h, cutAt?_append hb ys] at hCut
  cases hCut
  exact ⟨rfl, rfl⟩

theorem dropLast?_append (c : Char) (cs : List Char) : dropLast? c (cs ++ [c]) = some cs := by
  unfold dropLast?
  rw [if_pos (List.getLast?_concat ..), List.dropLast_concat]

end Text
end LayerAxes
