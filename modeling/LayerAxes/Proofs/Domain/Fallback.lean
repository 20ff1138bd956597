import LayerAxes.Domain.Token

/-!
# Tokens of custom dimensions

A custom dimension takes its kind from the first token of its domain: time or
number if the token reads as one, and text otherwise.  Every text is an instant
of the text axis.  A token with a slash is a range on this axis as well, though,
and the sides of a range have to be in order, so a text can be refused by the
kind that it was given itself.
-/

namespace LayerAxes
namespace Token

/-- The token is a range whose first side comes after the second as a text. -/
def Inverted (token : String) : Prop :=
  exists sides, sides? (Text.trim token.toList) = some sides ∧
    String.ofList sides.2 < String.ofList sides.1

/-!
# Texts
-/

theorem readInstant_text (cs : List Char) :
    readInstant .text cs = .ok (.text (.instant (String.ofList cs))) :=
  rfl

theorem compare_texts_eq_gt_iff {a b : String} : compare a b = .gt <-> b < a := by
  show compareOfLessAndEq a b = .gt <-> b < a
  unfold compareOfLessAndEq
  constructor
  · intro h
    split at h
    · cases h
    · rename_i hLess
      split at h
      · cases h
      · rename_i hNe
        exact String.not_le.mp fun hLE => hNe (String.le_antisymm hLE (String.not_lt.mp hLess))
  · intro hLess
    rw [if_neg (String.lt_asymm hLess), if_neg]
    rintro rfl
    exact String.lt_irrefl a hLess

theorem between?_texts (first second : String) :
    Value.between? (.text (.instant first)) (.text (.instant second)) =
      if second < first then none else some (.text (.range first second)) := by
  show (Extent.between? first second).map Value.text = _
  unfold Extent.between?
  by_cases hLess : second < first
  · rw [if_pos hLess, if_pos (compare_texts_eq_gt_iff.mpr hLess)]
    rfl
  · rw [if_neg hLess, if_neg (fun hGreater => hLess (compare_texts_eq_gt_iff.mp hGreater))]
    rfl

theorem parse_text_of_inverted {token : String} (h : Inverted token) :
    parse .text token = .error (unreadable .text (Text.trim token.toList)) := by
  rcases h with ⟨⟨first, second⟩, hSides, hLess⟩
  unfold parse read
  simp only [hSides, readInstant_text, bind, Except.bind, between?_texts, if_pos hLess]
  rfl

theorem exists_parse_text_of_not_inverted {token : String} (h : ¬ Inverted token) :
    exists v, parse .text token = .ok v := by
  unfold parse read
  dsimp only
  cases hSides : sides? (Text.trim token.toList) with
  | none => exact ⟨_, readInstant_text _⟩
  | some sides =>
      rcases sides with ⟨first, second⟩
      have hOrdered : ¬ String.ofList second < String.ofList first :=
        fun hLess => h ⟨_, hSides, hLess⟩
      simp only [readInstant_text, bind, Except.bind, between?_texts, if_neg hOrdered]
      exact ⟨_, rfl⟩

theorem parse_text_eq_ok_iff {token : String} :
    (exists v, parse .text token = .ok v) <-> ¬ Inverted token := by
  constructor
  · rintro ⟨v, hParse⟩ hInverted
    rw [parse_text_of_inverted hInverted] at hParse
    cases hParse
  · exact exists_parse_text_of_not_inverted

/-!
# Classified tokens
-/

theorem fits_eq_true_iff {kind : Kind} {token : String} :
    fits kind token = true <-> exists v, parse kind token = .ok v := by
  unfold fits
  cases parse kind token with
  | error e => simp [Except.toBool]
  | ok v => simp [Except.toBool]

/-- A kind other than text is chosen only for a token that has been read as that kind. -/
theorem fits_classify_of_ne_text {token : String} (h : classify .custom token ≠ .text) :
    fits (classify .custom token) token = true := by
  change (if fits .temporal token then Kind.temporal
    else if fits .numeric token then .numeric else .text) ≠ _ at h
  show fits (if fits .temporal token then Kind.temporal
    else if fits .numeric token then .numeric else .text) token = true
  split at h
  · rename_i hTime
    rw [if_pos hTime]
    exact hTime
  · rename_i hTime
    split at h
    · rename_i hNumber
      rw [if_neg hTime, if_pos hNumber]
      exact hNumber
    · exact absurd rfl h

/--
The kind that a custom dimension takes from a token reads this token, unless it
is an inverted range of texts.  As texts all other tokens of the domain are read
as well, again but for the inverted ranges, which are refused.
-/
theorem custom_kind_reads_its_token_iff (token : String) :
    ((exists v, parse (classify .custom token) token = .ok v) <->
      ¬ (classify .custom token = .text ∧ Inverted token)) ∧
    (forall other, (exists v, parse .text other = .ok v) <-> ¬ Inverted other) ∧
    forall other, Inverted other ->
      parse .text other = .error (unreadable .text (Text.trim other.toList)) := by
  refine ⟨?_, fun other => parse_text_eq_ok_iff, fun other => parse_text_of_inverted⟩
  by_cases hText : classify .custom token = .text
  · rw [hText, parse_text_eq_ok_iff]
    simp
  · simp only [hText, false_and, not_false_iff, iff_true]
    exact fits_eq_true_iff.mp (fits_classify_of_ne_text hText)

/-- The token `b/a` is no time and no number, and as a text it is not in order. -/
theorem inverted_text_is_refused_by_own_kind :
    classify .custom "b/a" = .text ∧
      forall v, parse (classify .custom "b/a") "b/a" ≠ .ok v := by
  have hClass : classify .custom "b/a" = .text := by decide +kernel
  refine ⟨hClass, ?_⟩
  intro v hParse
  rw [hClass] at hParse
  exact parse_text_eq_ok_iff.mp ⟨v, hParse⟩ ⟨(['b'], ['a']), by decide, by decide⟩

end Token
end LayerAxes
