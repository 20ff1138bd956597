import LayerAxes.Proofs.Dimension.Variants
import LayerAxes.Proofs.Domain.Codec

/-!
# Domains of flat rasters

A flat raster lists its domain as tokens, and all of them are read before rows are
filtered.  So a filter does not decide whether the domain is read, and what is
read is of one kind, with numbers that are finite and bounds that are in order.
-/

namespace LayerAxes

/-!
# Regular domains
-/

/-- Values on one axis, with numbers that are finite and bounds that are in order. -/
structure Value.Regular (values : List Value) : Prop where
  oneKind : OneKind values
  finite : forall v, v ∈ values -> v.IsFinite
  ordered : forall v, v ∈ values -> (compare v.lower v.upper).isLE = true

namespace Value

theorem Regular.mono {values fewer : List Value} (h : Regular values) (hFewer : fewer ⊆ values) :
    Regular fewer where
  oneKind := h.oneKind.mono hFewer
  finite v hv := h.finite v (hFewer hv)
  ordered v hv := h.ordered v (hFewer hv)

theorem regular_of_mapM_read {kind : Kind} {tokens : List (List Char)} {values : List Value}
    (h : tokens.mapM (Token.read kind) = .ok values) : Regular values := by
  have hRead : forall v, v ∈ values ->
      v.kind = kind ∧ v.IsFinite ∧ (compare v.lower v.upper).isLE = true := by
    intro v hv
    rcases Answer.exists_of_mem_results h hv with ⟨token, _, hToken⟩
    exact ⟨Token.kind_of_read_eq_ok hToken, (Token.read_write hToken).2⟩
  constructor
  · intro v hv w hw
    rw [(hRead v hv).1, (hRead w hw).1]
  · intro v hv
    exact (hRead v hv).2.1
  · intro v hv
    exact (hRead v hv).2.2

end Value

namespace MetadataSource

/-- The tokens of a domain in the metadata; an empty text is no domain. -/
def listed (domain? : Option String) : List (List Char) :=
  match domain? with
  | some domain => if domain = "" then [] else tokens domain
  | none => []

def listedKind (type : DataType) (domain? : Option String) : Kind :=
  Token.classify type (String.ofList ((listed domain?).headD []))

theorem dimensionRows_of_no_domain {source : MetadataSource} {dimension : String}
    {domain? : Option String} (hValue : source.value (domainKey dimension) = .ok domain?)
    (hNone : domain? = none ∨ domain? = some "") (filter : Filter) (type : DataType) :
    source.dimensionRows dimension filter type =
      .ok { startName := domainKey dimension, rows := none } := by
  unfold dimensionRows
  dsimp only
  rw [hValue]
  rcases hNone with rfl | rfl
  · rfl
  · rfl

theorem exists_readRows_filter_valueRows (type : DataType) (key : String) (values : List Value)
    (p : Feature -> Bool) :
    exists kept,
      DimensionRows.readRows type key none none ((valueRows key 0 values).filter p) = .ok kept ∧
      kept.Sublist values := by
  apply DimensionRows.exists_readRows_of_sublist List.filter_sublist
    (readRows_valueRows type key 0 values)
  intro kind hKind
  rcases DimensionRows.exists_mem_of_textKind?_eq_some hKind with ⟨row, hRow, hMet⟩
  rcases List.mem_map.mp (List.mem_of_mem_filter hRow) with ⟨⟨v, place⟩, _, rfl⟩
  exact absurd (textsMet_tokenRow key place v) hMet

end MetadataSource

namespace Reader

open MetadataSource

variable {source : MetadataSource} {dimension : String} {type : DataType}
  {direction : Direction} {domain? : Option String}

theorem dimensionRows_flat (source : MetadataSource) (dimension : String) (filter : Filter)
    (type : DataType) :
    (flat source).dimensionRows dimension filter type =
      (source.dimensionRows dimension filter type).map some := by
  show (source.dimensionRows dimension filter type >>= _) = _
  cases source.dimensionRows dimension filter type <;> rfl

theorem readAll_flat_of_no_domain
    (hValue : source.value (domainKey dimension) = .ok domain?)
    (hNone : domain? = none ∨ domain? = some "") (filter : Filter) :
    (flat source).readAll dimension filter type direction = .ok Domain.empty := by
  have hFound : (flat source).dimensionRows dimension filter type = _ := dimensionRows_flat ..
  rw [dimensionRows_of_no_domain hValue hNone] at hFound
  exact readAll_eq_empty hFound rfl

theorem readAll_flat_eq_error {domain : String} {e : ServiceError}
    (hValue : source.value (domainKey dimension) = .ok (some domain)) (hDomain : domain ≠ "")
    (filter : Filter)
    (hTokens : (tokens domain).mapM
      (Token.read (Token.classify type (String.ofList ((tokens domain).headD [])))) = .error e) :
    (flat source).readAll dimension filter type direction = .error e := by
  have hFound : (flat source).dimensionRows dimension filter type = _ := dimensionRows_flat ..
  rw [dimensionRows_eq_map filter hValue hDomain, hTokens] at hFound
  unfold readAll
  rw [hFound]
  rfl

theorem exists_readAll_flat_eq_ok (direction : Direction) {domain : String} {values : List Value}
    (hValue : source.value (domainKey dimension) = .ok (some domain)) (hDomain : domain ≠ "")
    (filter : Filter)
    (hTokens : (tokens domain).mapM
      (Token.read (Token.classify type (String.ofList ((tokens domain).headD [])))) = .ok values) :
    exists read, (flat source).readAll dimension filter type direction = .ok read ∧
      read.values ⊆ values := by
  have hFound : (flat source).dimensionRows dimension filter type = _ := dimensionRows_flat ..
  rw [dimensionRows_eq_map filter hValue hDomain, hTokens] at hFound
  rcases exists_readRows_filter_valueRows type (domainKey dimension) values
    (fun row => filter.evaluate row) with ⟨kept, hKept, hSublist⟩
  have hKind := (Value.regular_of_mapM_read hTokens).oneKind.mono hSublist.subset
  have hSort : Value.sort direction kept = .ok (kept.mergeSort (Value.precedes direction)) :=
    Value.sort_eq_ok_iff.mpr ⟨hKind, rfl⟩
  refine ⟨_, readAll_eq_ok hFound rfl hKept hSort, ?_⟩
  exact List.Subset.trans (List.mergeSort_perm kept _).subset hSublist.subset

/-- A domain is read when each of its tokens is, whatever the filter, and is regular then. -/
theorem readAll_flat_cases (hValue : source.value (domainKey dimension) = .ok domain?)
    (type : DataType) (filter : Filter) (direction : Direction) :
    ((forall token, token ∈ listed domain? ->
        exists v, Token.read (listedKind type domain?) token = .ok v) ∧
      exists domain, (flat source).readAll dimension filter type direction = .ok domain ∧
        Value.Regular domain.values) ∨
    ((exists token, token ∈ listed domain? ∧
        forall v, Token.read (listedKind type domain?) token ≠ .ok v) ∧
      exists part, (flat source).readAll dimension filter type direction =
        .error (Token.unreadable (listedKind type domain?) part)) := by
  by_cases hNone : domain? = none ∨ domain? = some ""
  · have hListed : listed domain? = [] := by
      rcases hNone with rfl | rfl <;> rfl
    refine Or.inl ⟨?_, Domain.empty, readAll_flat_of_no_domain hValue hNone filter, ?_⟩
    · intro token hToken
      rw [hListed] at hToken
      cases hToken
    · have hTokens : ([] : List (List Char)).mapM (Token.read .text) = .ok [] := rfl
      exact Value.regular_of_mapM_read hTokens
  · push Not at hNone
    rcases Option.ne_none_iff_exists'.mp hNone.1 with ⟨domain, rfl⟩
    have hDomain : domain ≠ "" := fun hEmpty => hNone.2 (congrArg some hEmpty)
    have hListed : listed (some domain) = tokens domain := if_neg hDomain
    unfold listedKind
    rw [hListed]
    cases hTokens : (tokens domain).mapM
        (Token.read (Token.classify type (String.ofList ((tokens domain).headD [])))) with
    | ok values =>
        have hReads := exists_readAll_flat_eq_ok direction hValue hDomain filter hTokens
        rcases hReads with ⟨read, hRead, hSubset⟩
        refine Or.inl ⟨?_, read, hRead, (Value.regular_of_mapM_read hTokens).mono hSubset⟩
        intro token hToken
        rcases Answer.exists_of_mem_of_mapM_eq_ok hTokens hToken with ⟨v, _, hv⟩
        exact ⟨v, hv⟩
    | error e =>
        rcases Answer.exists_of_mapM_eq_error hTokens with ⟨token, hToken, hError⟩
        rcases Token.read_failsOnlyWith _ _ _ hError with ⟨part, rfl⟩
        refine Or.inr ⟨⟨token, hToken, ?_⟩, part,
          readAll_flat_eq_error hValue hDomain filter hTokens⟩
        intro v hv
        rw [hError] at hv
        cases hv

end Reader
end LayerAxes
