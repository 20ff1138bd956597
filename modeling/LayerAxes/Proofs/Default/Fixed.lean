import LayerAxes.Dimension.Default
import LayerAxes.Proofs.Dimension.Kinds

/-!
# Fixed values

A fixed value is its reference, read as a token.  A temporal or numeric dimension
reads it as its own kind, whatever the domain holds.  A custom dimension reads it
as the kind of the first value of the domain, and only for an empty domain as the
kind that fits the reference itself.

The kind shows in every answer, as the kind of the value or in the error for a
token that cannot be read.  So two domains have the same fixed value exactly when
the reference is read as one kind for both.
-/

namespace LayerAxes

theorem Kind.eq_of_name_eq {kind other : Kind} (h : kind.name = other.name) : kind = other := by
  revert h
  cases kind <;> cases other <;> decide

/-- No token is read alike as two kinds, be it read or refused. -/
theorem Token.parse_eq_parse_iff {kind other : Kind} {token : String} :
    parse kind token = parse other token <-> kind = other := by
  constructor
  · intro hSame
    cases hParse : parse kind token with
    | ok v =>
        have hOther := hSame.symm.trans hParse
        exact (kind_of_read_eq_ok hParse).symm.trans (kind_of_read_eq_ok hOther)
    | error e =>
        have hOther := hSame.symm.trans hParse
        rcases read_failsOnlyWith _ _ _ hParse with ⟨part, rfl⟩
        rcases read_failsOnlyWith _ _ _ hOther with ⟨otherPart, hError⟩
        injection hError with hName
        exact Kind.eq_of_name_eq hName
  · rintro rfl
    rfl

theorem Answer.map_some_inj {α : Type} {answer other : Answer α} :
    answer.map some = other.map some <-> answer = other := by
  cases answer <;> cases other <;> simp only [Except.map, reduceCtorEq, Except.error.injEq,
    Except.ok.injEq, Option.some.injEq]

namespace DefaultSetting

/-!
# The kind of a reference
-/

section

variable {type : DataType} {token : String}

theorem referenceKind_of_fixedKind {kind : Kind} (h : type.fixedKind = some kind)
    (domain : List Value) : referenceKind domain type token = kind := by
  unfold referenceKind
  rw [h]

theorem referenceKind_custom (domain : List Value) :
    referenceKind domain .custom token =
      (domain.head?.map Value.kind).getD (Token.classify .custom token) := by
  cases domain <;> rfl

theorem referenceKind_eq_referenceKind_iff {domain other : List Value} :
    referenceKind domain type token = referenceKind other type token <->
      (type = .custom ->
        (domain.head?.map Value.kind).getD (Token.classify .custom token) =
          (other.head?.map Value.kind).getD (Token.classify .custom token)) := by
  cases hType : type.fixedKind with
  | some kind =>
      rw [referenceKind_of_fixedKind hType, referenceKind_of_fixedKind hType]
      refine ⟨fun _ hCustom => ?_, fun _ => rfl⟩
      rw [hCustom] at hType
      cases hType
  | none =>
      cases type with
      | temporal => cases hType
      | numeric => cases hType
      | custom =>
          rw [referenceKind_custom, referenceKind_custom]
          exact ⟨fun hSame _ => hSame, fun hSame => hSame rfl⟩

end

/-!
# Fixed values of two domains
-/

theorem resolve_fixed (token : String) (domain : List Value) (type : DataType)
    (direction : Direction) :
    resolve ⟨.fixed, some token⟩ domain type direction =
      (Token.parse (referenceKind domain type token) token).map some := by
  show (Token.parse _ token >>= fun v => pure (some v)) = _
  cases Token.parse (referenceKind domain type token) token <;> rfl

/--
The fixed value is the same for two domains exactly when the dimension is not
custom, or there is no reference, or the reference is read as one kind: that of
the first value of a domain, or its own for an empty domain.
-/
theorem fixed_values_agree_iff (reference : Option String) (type : DataType)
    (domain other : List Value) (direction : Direction) :
    resolve ⟨.fixed, reference⟩ domain type direction =
        resolve ⟨.fixed, reference⟩ other type direction <->
      forall token, reference = some token -> type = .custom ->
        (domain.head?.map Value.kind).getD (Token.classify .custom token) =
          (other.head?.map Value.kind).getD (Token.classify .custom token) := by
  cases reference with
  | none =>
      constructor
      · intro _ token hToken
        cases hToken
      · intro _
        rfl
  | some token =>
      rw [resolve_fixed, resolve_fixed, Answer.map_some_inj, Token.parse_eq_parse_iff,
        referenceKind_eq_referenceKind_iff]
      constructor
      · intro hSame _ hToken
        cases hToken
        exact hSame
      · intro hSame
        exact hSame token rfl

/-- The reference `5` is a number, unless the domain begins with a text. -/
theorem fixed_value_follows_first_band :
    resolve ⟨.fixed, some "5"⟩ [] .custom .ascending =
        .ok (some (.number (.instant (Binary64.ofInt 5)))) ∧
      resolve ⟨.fixed, some "5"⟩ [.text (.instant "red")] .custom .ascending =
        .ok (some (.text (.instant "5"))) := by
  decide +kernel

end DefaultSetting
end LayerAxes
