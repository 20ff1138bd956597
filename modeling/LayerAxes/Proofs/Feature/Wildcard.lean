import LayerAxes.Feature.Wildcard
import LayerAxes.Proofs.Text.Cut
import Mathlib.Data.List.Basic

/-!
# What a pattern describes

A pattern describes the texts that it turns into when each of its stars is replaced
by some text.  Between the first and the last segment the leftmost choice loses
nothing: what stands after another occurrence stands after the leftmost one, too.
-/

namespace LayerAxes
namespace Wildcard

/-- The pattern turns into the text when each star is replaced by some text of its own. -/
inductive Becomes : List Char -> List Char -> Prop where
  | nil : Becomes [] []
  | star (filling : List Char) {pattern text : List Char} (hRest : Becomes pattern text) :
      Becomes ('*' :: pattern) (filling ++ text)
  | literal {c : Char} {pattern text : List Char} (hChar : c ≠ '*')
      (hRest : Becomes pattern text) : Becomes (c :: pattern) (c :: text)

section

variable {pattern text : List Char}

theorem becomes_nil_iff : Becomes [] text <-> text = [] := by
  constructor
  · intro h
    cases h
    rfl
  · rintro rfl
    exact .nil

theorem becomes_star_iff :
    Becomes ('*' :: pattern) text <->
      exists filling rest, text = filling ++ rest ∧ Becomes pattern rest := by
  constructor
  · intro h
    cases h with
    | star filling hRest => exact ⟨filling, _, rfl, hRest⟩
    | literal hChar hRest => exact absurd rfl hChar
  · rintro ⟨filling, rest, rfl, hRest⟩
    exact .star filling hRest

theorem becomes_literal_iff {c : Char} (hChar : c ≠ '*') :
    Becomes (c :: pattern) text <-> exists rest, text = c :: rest ∧ Becomes pattern rest := by
  constructor
  · intro h
    cases h with
    | star filling hRest => exact absurd rfl hChar
    | literal _ hRest => exact ⟨_, rfl, hRest⟩
  · rintro ⟨rest, rfl, hRest⟩
    exact .literal hChar hRest

end

/-!
# Segments between stars
-/

/-- The text consists of the segments with some text between each two of them. -/
def Spreads : List (List Char) -> List Char -> Prop
  | [], _ => False
  | [only], text => text = only
  | segment :: next :: rest, text =>
      exists gap after, text = segment ++ (gap ++ after) ∧ Spreads (next :: rest) after

theorem spreads_cons_iff {segment : List Char} {rest : List (List Char)} {text : List Char}
    (hRest : rest ≠ []) :
    Spreads (segment :: rest) text <->
      exists gap after, text = segment ++ (gap ++ after) ∧ Spreads rest after := by
  cases rest with
  | nil => exact absurd rfl hRest
  | cons next rest => exact Iff.rfl

theorem spreads_modifyHead_cons_iff {c : Char} {segments : List (List Char)} {text : List Char}
    (hSome : segments ≠ []) :
    Spreads (segments.modifyHead (List.cons c)) text <->
      exists rest, text = c :: rest ∧ Spreads segments rest := by
  cases segments with
  | nil => exact absurd rfl hSome
  | cons segment rest =>
      rw [List.modifyHead_cons]
      cases rest with
      | nil => simp [Spreads]
      | cons next rest =>
          constructor
          · rintro ⟨gap, after, rfl, hAfter⟩
            exact ⟨_, rfl, gap, after, rfl, hAfter⟩
          · rintro ⟨_, rfl, gap, after, rfl, hAfter⟩
            exact ⟨gap, after, rfl, hAfter⟩

theorem becomes_iff_spreads {pattern text : List Char} :
    Becomes pattern text <-> Spreads (pattern.splitOn '*') text := by
  induction pattern generalizing text with
  | nil => exact becomes_nil_iff
  | cons c pattern ih =>
      have hSome : pattern.splitOn '*' ≠ [] := List.splitOn_ne_nil '*' pattern
      rw [List.splitOn_cons_eq_if_modifyHead]
      by_cases hChar : c = '*'
      · rw [if_pos (beq_iff_eq.mpr hChar), hChar, becomes_star_iff, spreads_cons_iff hSome]
        simp only [ih, List.nil_append]
      · rw [if_neg (fun h => hChar (beq_iff_eq.mp h)), becomes_literal_iff hChar,
          spreads_modifyHead_cons_iff hSome]
        simp only [ih]

/-!
# The leftmost choice
-/

theorem inOrder_append {segments : List (List Char)} {cs : List Char} (front : List Char)
    (h : inOrder segments cs = true) : inOrder segments (front ++ cs) = true := by
  induction segments generalizing front cs with
  | nil => rfl
  | cons segment rest ih =>
      unfold inOrder at h
      cases hCut : Text.cut? segment cs with
      | none =>
          rw [hCut] at h
          cases h
      | some parts =>
          rcases parts with ⟨before, after⟩
          rw [hCut] at h
          have hText := Text.append_of_cut?_eq_some hCut
          rcases Text.exists_cut?_append (front ++ before) segment after with
            ⟨first, skipped, hFirst⟩
          rw [List.append_assoc, List.append_assoc, ← List.append_assoc before, hText] at hFirst
          unfold inOrder
          rw [hFirst]
          exact ih skipped h

/--
Segments stand in order before an ending just when they can be spread over the text
with some text in front of them.
-/
theorem exists_inOrder_iff_spreads {inner : List (List Char)} {ending text : List Char} :
    (exists between, text = between ++ ending ∧ inOrder inner between = true) <->
      exists gap after, text = gap ++ after ∧ Spreads (inner ++ [ending]) after := by
  induction inner generalizing text with
  | nil => simp [inOrder, Spreads]
  | cons segment rest ih =>
      have hRest : rest ++ [ending] ≠ [] := List.append_ne_nil_of_right_ne_nil _ (by simp)
      simp only [List.cons_append, spreads_cons_iff hRest]
      constructor
      · rintro ⟨between, rfl, hOrder⟩
        unfold inOrder at hOrder
        cases hCut : Text.cut? segment between with
        | none =>
            rw [hCut] at hOrder
            cases hOrder
        | some parts =>
            rcases parts with ⟨before, after⟩
            rw [hCut] at hOrder
            rcases ih.mp ⟨after, rfl, hOrder⟩ with ⟨gap, later, hLater, hSpreads⟩
            refine ⟨before, _, ?_, gap, later, rfl, hSpreads⟩
            rw [← Text.append_of_cut?_eq_some hCut, ← hLater]
            simp only [List.append_assoc]
      · rintro ⟨front, _, rfl, gap, later, rfl, hSpreads⟩
        rcases ih.mpr ⟨gap, later, rfl, hSpreads⟩ with ⟨between, hBetween, hOrder⟩
        refine ⟨front ++ segment ++ between, ?_, ?_⟩
        · rw [hBetween]
          simp only [List.append_assoc]
        · rcases Text.exists_cut?_append front segment between with ⟨first, skipped, hCut⟩
          unfold inOrder
          rw [hCut]
          exact inOrder_append skipped hOrder

/-!
# The outer segments
-/

theorem dropEnding?_eq_some_iff {ending cs between : List Char} :
    dropEnding? ending cs = some between <-> cs = between ++ ending := by
  unfold dropEnding?
  rw [Option.ite_none_right_eq_some, List.isSuffixOf_iff_suffix]
  constructor
  · rintro ⟨⟨front, rfl⟩, hTake⟩
    rw [← Option.some.inj hTake]
    simp
  · rintro rfl
    exact ⟨List.suffix_append _ _, by simp⟩

theorem between_eq_some_iff {first last text between : List Char} :
    (first.isPrefixOf? text).bind (dropEnding? last) = some between <->
      text = first ++ (between ++ last) := by
  rw [Option.bind_eq_some_iff]
  constructor
  · rintro ⟨rest, hFirst, hLast⟩
    rw [← Text.append_of_isPrefixOf? hFirst, dropEnding?_eq_some_iff.mp hLast]
  · rintro rfl
    exact ⟨_, Text.isPrefixOf?_append first _, dropEnding?_eq_some_iff.mpr rfl⟩

/-- A pattern describes just the texts that come from filling its stars. -/
theorem describes_iff_becomes (pattern text : List Char) :
    describes pattern text = true <-> Becomes pattern text := by
  rw [becomes_iff_spreads]
  unfold describes
  split
  · rename_i hNone
    exact absurd hNone (List.splitOn_ne_nil '*' pattern)
  · rename_i only hOnly
    rw [hOnly, beq_iff_eq]
    exact eq_comm
  · rename_i first second others hSegments
    have hRest : second :: others ≠ [] := List.cons_ne_nil _ _
    have hSpreads (tail : List Char) :
        (exists between, tail = between ++ (second :: others).getLast hRest ∧
          inOrder (second :: others).dropLast between = true) <->
          exists gap after, tail = gap ++ after ∧ Spreads (second :: others) after := by
      rw [exists_inOrder_iff_spreads, List.dropLast_append_getLast hRest]
    rw [hSegments, spreads_cons_iff hRest]
    dsimp only
    constructor
    · intro h
      cases hBetween : (first.isPrefixOf? text).bind
          (dropEnding? ((second :: others).getLast hRest)) with
      | none =>
          rw [hBetween] at h
          cases h
      | some between =>
          rw [hBetween] at h
          rcases (hSpreads _).mp ⟨between, rfl, h⟩ with ⟨gap, after, hAfter, hRestSpreads⟩
          refine ⟨gap, after, ?_, hRestSpreads⟩
          rw [between_eq_some_iff.mp hBetween, hAfter]
    · rintro ⟨gap, after, hText, hRestSpreads⟩
      rcases (hSpreads _).mpr ⟨gap, after, rfl, hRestSpreads⟩ with ⟨between, hBetween, hOrder⟩
      rw [hBetween] at hText
      rw [between_eq_some_iff.mpr hText]
      exact hOrder

example : describes "ab*ba".toList "aba".toList = false := by
  decide

end Wildcard
end LayerAxes
