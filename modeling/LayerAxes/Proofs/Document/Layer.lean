import LayerAxes.Document.Layer
import LayerAxes.Proofs.Json.Written
import LayerAxes.Proofs.NameMap

/-!
# Layers read back from documents

Writing a layer gives every field, also those with a standard value, and a
custom dimension for every name in order.  Reading takes the same names and the
same standard values, so that nothing is lost on the way.
-/

namespace LayerAxes
namespace NameMap

variable {α : Type}

theorem ofJson?_toJson {read : Json -> Option α} {write : α -> Json}
    (h : forall a, read (write a) = some a) (map : NameMap α) :
    ofJson? read (map.toJson write) = some map := by
  have hEntries : (map.entries.map fun entry => (entry.1, write entry.2)).mapM
      (fun member => (read member.2).map fun a => (member.1, a)) = some map.entries := by
    induction map.entries with
    | nil => rfl
    | cons entry rest ih =>
        rw [List.map_cons, List.mapM_cons, h, ih]
        rfl
  show (List.mapM _ _ >>= _) = _
  rw [hEntries]
  show some (ofList map.entries) = _
  rw [ofList_entries]

theorem isLegible_toJson {write : α -> Json} (h : forall a, (write a).every Json.isLegible = true)
    (map : NameMap α) : (map.toJson write).every Json.isLegible = true := by
  show Json.everyMember Json.isLegible
    (map.entries.map fun entry => (entry.1, write entry.2)) = true
  induction map.entries with
  | nil => rfl
  | cons entry rest ih =>
      show ((write entry.2).every Json.isLegible && _) = true
      rw [h, ih]
      rfl

end NameMap

namespace Json

theorem members_of_nodup {all : List (String × Json)} (h : (all.map Prod.fst).Nodup)
    (name : String) : members name all = (all.lookup name).toList := by
  induction all with
  | nil => rfl
  | cons entry rest ih =>
      rcases entry with ⟨key, value⟩
      rcases List.nodup_cons.mp h with ⟨hFirst, hRest⟩
      have hMembers := ih hRest
      unfold members at hMembers ⊢
      by_cases hKey : key = name
      · subst hKey
        rw [Entries.lookup_eq_none_of_notMem hFirst] at hMembers
        simp [hMembers]
      · have hOther : (name == key) = false := by simpa using Ne.symm hKey
        simp [List.lookup_cons, hOther, hKey, hMembers]

theorem fields?_object {names : List String} {all : List (String × Json)}
    (hNames : all.map Prod.fst = names) (h : names.Nodup) :
    (object all).fields? names = some fun name => all.lookup name := by
  subst hNames
  have hOnce : ((all.map Prod.fst).all fun name =>
      decide ((members name all).length ≤ 1)) = true := by
    apply List.all_eq_true.mpr
    intro name _
    rw [members_of_nodup h]
    cases all.lookup name <;> rfl
  show (if _ then some _ else none) = _
  rw [if_pos hOnce]
  congr 1
  funext name
  rw [members_of_nodup h]
  cases all.lookup name <;> rfl

theorem optional_ofOption {α : Type} {read : Json -> Option α} {write : α -> Json}
    (h : forall a, read (write a) = some a) (hNull : read null = none) (a? : Option α) :
    optional read (some (ofOption write a?)) = some a? := by
  cases a? with
  | none => rfl
  | some a =>
      have hRead := h a
      show optional read (some (write a)) = _
      cases hWrite : write a with
      | null =>
          rw [hWrite, hNull] at hRead
          cases hRead
      | _ =>
          rw [hWrite] at hRead
          show (read _).map some = _
          rw [hRead]
          rfl

theorem every_ofOption {α : Type} {write : α -> Json}
    (h : forall a, (write a).every isLegible = true) (a? : Option α) :
    (ofOption write a?).every isLegible = true := by
  cases a? with
  | none => rfl
  | some a => exact h a

theorem string?_string (s : String) : string? (string s) = some s :=
  rfl

theorem isLegible_string (s : String) : (string s).every isLegible = true :=
  rfl

end Json

/-!
# Configurations
-/

theorem Presentation.ofJson?_toJson (p : Presentation) : ofJson? p.toJson = some p := by
  cases p <;> rfl

theorem Strategy.ofJson?_toJson (s : Strategy) : ofJson? s.toJson = some s := by
  cases s <;> rfl

namespace DefaultSetting

theorem ofJson?_toJson (setting : DefaultSetting) : ofJson? setting.toJson = some setting := by
  have hReference := Json.optional_ofOption Json.string?_string rfl setting.reference
  unfold ofJson? toJson
  rw [Json.fields?_object]
  · simp [List.lookup_cons, Json.required, Strategy.ofJson?_toJson, hReference]
  · rfl
  · decide

theorem isLegible_toJson (setting : DefaultSetting) :
    setting.toJson.every Json.isLegible = true := by
  have hReference := Json.every_ofOption Json.isLegible_string setting.reference
  unfold toJson
  simp [Json.every, Json.everyMember, Json.isLegible, Strategy.toJson, hReference]

end DefaultSetting

namespace DimensionConfig

theorem ofJson?_toJson (config : DimensionConfig) : ofJson? config.toJson = some config := by
  have hString := Json.optional_ofOption Json.string?_string rfl
  have hDefault := Json.optional_ofOption DefaultSetting.ofJson?_toJson rfl
  unfold ofJson? toJson
  rw [Json.fields?_object]
  · simp [List.lookup_cons, Json.defaulted, Json.bool?, Presentation.ofJson?_toJson, hString,
      hDefault]
  · rfl
  · decide

theorem isLegible_toJson (config : DimensionConfig) :
    config.toJson.every Json.isLegible = true := by
  have hString := Json.every_ofOption Json.isLegible_string
  have hDefault := Json.every_ofOption DefaultSetting.isLegible_toJson config.defaultValue
  unfold toJson
  simp [Json.every, Json.everyMember, Json.isLegible, Presentation.toJson, hString, hDefault]

end DimensionConfig

namespace LayerDefinition

theorem ofJson?_toJson (layer : LayerDefinition) : ofJson? layer.toJson = some layer := by
  have hConfig := Json.optional_ofOption DimensionConfig.ofJson?_toJson rfl
  have hCustom := NameMap.ofJson?_toJson DimensionConfig.ofJson?_toJson layer.custom
  unfold ofJson? toJson
  rw [Json.fields?_object]
  · simp [List.lookup_cons, Json.required, Json.defaulted, Json.string?, hConfig, hCustom]
  · rfl
  · decide

theorem isLegible_toJson (layer : LayerDefinition) :
    layer.toJson.every Json.isLegible = true := by
  have hConfig := Json.every_ofOption DimensionConfig.isLegible_toJson
  have hCustom := NameMap.isLegible_toJson DimensionConfig.isLegible_toJson layer.custom
  unfold toJson
  simp [Json.every, Json.everyMember, Json.isLegible, hConfig, hCustom]

/-- The document that an accepted document is written as. -/
def normalize? (j : Json) : Option Json :=
  (ofJson? j).map toJson

/--
A layer is read back from its document, and the document from its text; and a
document that is read has a normal form, which is its own normal form and is read
as the same layer.
-/
theorem documents_have_a_normal_form :
    (forall layer : LayerDefinition,
      ofJson? layer.toJson = some layer ∧
      Json.parse? layer.toJson.compact = some layer.toJson ∧
      Json.parse? layer.toJson.pretty = some layer.toJson) ∧
    forall (j : Json) (layer : LayerDefinition), ofJson? j = some layer ->
      ofJson? layer.toJson = some layer ∧ normalize? j = some layer.toJson ∧
        normalize? layer.toJson = some layer.toJson := by
  constructor
  · intro layer
    exact ⟨ofJson?_toJson layer, Json.parse?_compact (isLegible_toJson layer),
      Json.parse?_pretty (isLegible_toJson layer)⟩
  · intro j layer h
    refine ⟨ofJson?_toJson layer, ?_, ?_⟩
    · unfold normalize?
      rw [h]
      rfl
    · unfold normalize?
      rw [ofJson?_toJson]
      rfl

def sparseDocument : Json :=
  .object [
    ("custom", .object [("band", .array [.bool false, .object [("LIST", .null)]])]),
    ("time", .object [("default_value", .object [("strategy", .string "NEAREST")])]),
    ("elevation", .null),
    ("abstract", .number "1"),
    ("name", .string "sst")]

def sparseLayer : LayerDefinition where
  name := "sst"
  time := some { defaultValue := some { strategy := .nearest } }
  custom := NameMap.empty.insert "band" { enabled := false }

theorem sparse_document_has_a_normal_form :
    ofJson? sparseDocument = some sparseLayer ∧
      ofJson? sparseLayer.toJson = some sparseLayer ∧
      normalize? sparseDocument = some sparseLayer.toJson ∧
      normalize? sparseLayer.toJson = some sparseLayer.toJson := by
  have hRead : ofJson? sparseDocument = some sparseLayer := by decide +kernel
  exact ⟨hRead, documents_have_a_normal_form.2 sparseDocument sparseLayer hRead⟩

end LayerDefinition
end LayerAxes
