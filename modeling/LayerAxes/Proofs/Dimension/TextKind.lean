import LayerAxes.Proofs.Answers
import LayerAxes.Proofs.Dimension.Kinds
import Mathlib.Data.List.ReduceOption

/-!
# The kind of text cells

The first text cell that is met while rows are read decides the kind of all text
cells of a custom dimension.  With this kind known beforehand every row can be
read on its own, so that reading rows is answering a list, and reading some of
the rows gives some of the values.
-/

namespace LayerAxes
namespace DimensionRows

/-!
# Texts that are met
-/

def textOf? (row : Feature) (name : Option String) : Option String :=
  (name.bind row.present?).bind Attribute.text?

/-- The texts that are read from a row; the end is not read where there is no start. -/
def textsMet (startName : String) (endName : Option String) (row : Feature) : List String :=
  match (row.present? startName).bind Attribute.value? with
  | none => []
  | some _ => (textOf? row (some startName)).toList ++ (textOf? row endName).toList

/-- The kind of text cells in rows, if there is a text cell among them. -/
def textKind? (type : DataType) (startName : String) (endName : Option String)
    (rows : List Feature) : Option Kind :=
  (rows.flatMap (textsMet startName endName)).head?.map (Token.classify type)

def kindAfter (type : DataType) (known : Option Kind) (texts : List String) : Option Kind :=
  known.or (texts.head?.map (Token.classify type))

@[simp]
theorem kindAfter_nil (type : DataType) (known : Option Kind) :
    kindAfter type known [] = known := by
  simp [kindAfter]

theorem kindAfter_append (type : DataType) (known : Option Kind) (texts more : List String) :
    kindAfter type known (texts ++ more) = kindAfter type (kindAfter type known texts) more := by
  cases texts with
  | nil => simp
  | cons token texts => simp [kindAfter]

/-!
# Reading rows with a known kind
-/

def readCellAs (kind : Kind) : Attribute -> Answer (Option Value)
  | .text token => do return some (<- Token.parse kind token)
  | cell => .ok cell.value?

def readAttributeAs (kind : Kind) (row : Feature) (name : Option String) :
    Answer (Option Value) :=
  match name.bind row.present? with
  | some cell => readCellAs kind cell
  | none => .ok none

def readRowAs (kind : Kind) (startName : String) (endName : Option String) (row : Feature) :
    Answer (Option Value) := do
  match <- readAttributeAs kind row (some startName) with
  | none => return none
  | some start =>
      match <- readAttributeAs kind row endName with
      | none => return some start
      | some finish => return some (<- joinEnds start finish)

section

variable {type : DataType} {kind : Kind} {known : Option Kind} {row : Feature}
  {startName : String} {endName name : Option String}

theorem readCell_eq {cell : Attribute}
    (h : forall k, kindAfter type known cell.text?.toList = some k -> k = kind) :
    readCell type known cell =
      (readCellAs kind cell).map fun v? => (kindAfter type known cell.text?.toList, v?) := by
  cases cell with
  | text token =>
      have hKnown : kindAfter type known [token] =
          some (known.getD (Token.classify type token)) := by
        cases known <;> rfl
      have hKind : known.getD (Token.classify type token) = kind := h _ hKnown
      show readCell type known (.text token) = (readCellAs kind (.text token)).map fun v? =>
        (kindAfter type known [token], v?)
      unfold readCell readCellAs
      dsimp only
      rw [hKnown, hKind]
      cases Token.parse kind token <;> rfl
  | _ =>
      show _ = Except.ok (kindAfter type known [], _)
      rw [kindAfter_nil]
      rfl

theorem readAttribute_eq
    (h : forall k, kindAfter type known (textOf? row name).toList = some k -> k = kind) :
    readAttribute type known row name =
      (readAttributeAs kind row name).map fun v? =>
        (kindAfter type known (textOf? row name).toList, v?) := by
  unfold textOf? at *
  unfold readAttribute readAttributeAs
  cases hCell : name.bind row.present? with
  | none =>
      show _ = Except.ok (kindAfter type known [], _)
      rw [kindAfter_nil]
  | some cell =>
      rw [hCell] at h
      exact readCell_eq h

theorem isSome_value?_of_readCellAs_eq_ok {cell : Attribute} {v? : Option Value}
    (h : readCellAs kind cell = .ok v?) : cell.value?.isSome = v?.isSome := by
  cases cell with
  | text token =>
      rcases Answer.exists_of_bind_eq_ok h with ⟨v, _, hReturn⟩
      cases hReturn
      rfl
  | _ =>
      cases h
      rfl

theorem textsMet_of_readAttributeAs_eq_ok {v? : Option Value}
    (h : readAttributeAs kind row (some startName) = .ok v?) :
    textsMet startName endName row =
      match v? with
      | none => []
      | some _ => (textOf? row (some startName)).toList ++ (textOf? row endName).toList := by
  have hSome : ((row.present? startName).bind Attribute.value?).isSome = v?.isSome := by
    unfold readAttributeAs at h
    change (match row.present? startName with
      | some cell => readCellAs kind cell
      | none => .ok none) = _ at h
    cases hCell : row.present? startName with
    | none =>
        rw [hCell] at h
        cases h
        rfl
    | some cell =>
        rw [hCell] at h
        exact isSome_value?_of_readCellAs_eq_ok h
  unfold textsMet
  cases hValue : (row.present? startName).bind Attribute.value? <;> cases v? <;>
    simp [hValue] at hSome ⊢

theorem textsMet_eq_append_of_textOf?_ne_none (h : textOf? row (some startName) ≠ none) :
    textsMet startName endName row =
      (textOf? row (some startName)).toList ++ (textOf? row endName).toList := by
  change (row.present? startName).bind Attribute.text? ≠ none at h
  have hValue : (row.present? startName).bind Attribute.value? ≠ none := by
    cases hCell : row.present? startName with
    | none =>
        rw [hCell] at h
        exact absurd rfl h
    | some cell =>
        rw [hCell] at h
        cases cell <;> first | exact absurd rfl h | simp [Attribute.value?]
  unfold textsMet
  cases hStart : (row.present? startName).bind Attribute.value? with
  | none => exact absurd hStart hValue
  | some v => rfl

theorem readRow_eq
    (h : forall k, kindAfter type known (textsMet startName endName row) = some k -> k = kind) :
    readRow type startName endName known row =
      (readRowAs kind startName endName row).map fun v? =>
        (kindAfter type known (textsMet startName endName row), v?) := by
  have hStart : forall k, kindAfter type known (textOf? row (some startName)).toList = some k ->
      k = kind := by
    intro k hk
    apply h
    cases hText : textOf? row (some startName) with
    | none =>
        rw [hText] at hk
        change known.or none = some k at hk
        rw [Option.or_none] at hk
        rw [hk]
        rfl
    | some token =>
        have hNe : textOf? row (some startName) ≠ none := by simp [hText]
        rw [textsMet_eq_append_of_textOf?_ne_none hNe, kindAfter_append, hk]
        rfl
  unfold readRow readRowAs
  rw [readAttribute_eq hStart]
  cases hFirst : readAttributeAs kind row (some startName) with
  | error e => rfl
  | ok start? =>
      have hMet := @textsMet_of_readAttributeAs_eq_ok _ _ _ endName _ hFirst
      cases start? with
      | none =>
          have hNoText : textOf? row (some startName) = none := by
            by_contra hText
            have hAppend := @textsMet_eq_append_of_textOf?_ne_none _ _ endName hText
            rw [hMet] at hAppend
            exact hText (by simpa using (List.append_eq_nil_iff.mp hAppend.symm).1)
          rw [hMet, hNoText]
          rfl
      | some start =>
          change textsMet startName endName row = _ ++ _ at hMet
          rw [hMet, kindAfter_append] at h
          rw [hMet, kindAfter_append]
          show (readAttribute type _ row endName >>= _) =
            Except.map _ (readAttributeAs kind row endName >>= _)
          rw [readAttribute_eq h]
          cases readAttributeAs kind row endName with
          | error e => rfl
          | ok finish? =>
              cases finish? with
              | none => rfl
              | some finish =>
                  show (joinEnds start finish >>= _) = Except.map _ (joinEnds start finish >>= _)
                  cases joinEnds start finish <;> rfl

/-- With the kind of their texts known, rows are read one by one. -/
theorem readRows_eq {rows : List Feature}
    (h : forall k, kindAfter type known (rows.flatMap (textsMet startName endName)) = some k ->
      k = kind) :
    readRows type startName endName known rows =
      (rows.mapM (readRowAs kind startName endName)).map List.reduceOption := by
  induction rows generalizing known with
  | nil => rfl
  | cons row rows ih =>
      rw [List.flatMap_cons, kindAfter_append] at h
      have hRow : forall k, kindAfter type known (textsMet startName endName row) = some k ->
          k = kind := by
        intro k hk
        apply h
        rw [hk]
        rfl
      rw [readRows, readRow_eq hRow, List.mapM_cons]
      cases readRowAs kind startName endName row with
      | error e => rfl
      | ok v? =>
          show (readRows type startName endName _ rows >>= _) =
            Except.map _ (rows.mapM (readRowAs kind startName endName) >>= _)
          rw [ih h]
          cases rows.mapM (readRowAs kind startName endName) with
          | error e => rfl
          | ok rest =>
              cases v? <;> rfl

/-!
# The kind of what is read
-/

theorem kind_of_textOf?_ne_none {v? : Option Value} (hText : textOf? row name ≠ none)
    (h : readAttributeAs kind row name = .ok v?) : exists v, v? = some v ∧ v.kind = kind := by
  unfold textOf? at hText
  unfold readAttributeAs at h
  cases hCell : name.bind row.present? with
  | none =>
      rw [hCell] at hText
      exact absurd rfl hText
  | some cell =>
      rw [hCell] at hText h
      cases cell with
      | text token =>
          rcases Answer.exists_of_bind_eq_ok h with ⟨v, hParse, hReturn⟩
          cases hReturn
          exact ⟨v, rfl, Token.kind_of_read_eq_ok hParse⟩
      | _ => exact absurd rfl hText

theorem kind_eq_of_joinEnds_eq_ok {start finish v : Value} (h : joinEnds start finish = .ok v) :
    start.kind = finish.kind := by
  unfold joinEnds at h
  split at h
  · rename_i hBetween
    cases start <;> cases finish <;> first | rfl | cases hBetween
  · cases h

theorem kind_of_textsMet_ne_nil {v? : Option Value} (hMet : textsMet startName endName row ≠ [])
    (h : readRowAs kind startName endName row = .ok v?) :
    exists v, v? = some v ∧ v.kind = kind := by
  rcases Answer.exists_of_bind_eq_ok h with ⟨start?, hStart, hMore⟩
  rw [textsMet_of_readAttributeAs_eq_ok hStart] at hMet
  cases start? with
  | none => exact absurd rfl hMet
  | some start =>
      rcases Answer.exists_of_bind_eq_ok hMore with ⟨finish?, hFinish, hLast⟩
      have hTexts : textOf? row (some startName) ≠ none ∨ textOf? row endName ≠ none := by
        by_contra hNone
        push Not at hNone
        dsimp only at hMet
        rw [hNone.1, hNone.2] at hMet
        exact hMet rfl
      have hStartKind : textOf? row (some startName) ≠ none -> start.kind = kind := by
        intro hText
        rcases kind_of_textOf?_ne_none hText hStart with ⟨_, hSome, hKind⟩
        cases hSome
        exact hKind
      cases finish? with
      | none =>
          cases hLast
          refine ⟨start, rfl, ?_⟩
          rcases hTexts with hText | hText
          · exact hStartKind hText
          · rcases kind_of_textOf?_ne_none hText hFinish with ⟨_, hSome, _⟩
            cases hSome
      | some finish =>
          rcases Answer.exists_of_bind_eq_ok hLast with ⟨v, hJoin, hReturn⟩
          cases hReturn
          refine ⟨v, rfl, ?_⟩
          rw [kind_of_joinEnds_eq_ok hJoin]
          rcases hTexts with hText | hText
          · exact hStartKind hText
          · rcases kind_of_textOf?_ne_none hText hFinish with ⟨_, hSome, hKind⟩
            cases hSome
            rw [kind_eq_of_joinEnds_eq_ok hJoin, hKind]

end

end DimensionRows
end LayerAxes
