import LayerAxes.Proofs.Dimension.Filtering

/-!
# Readers of one domain

The store behind a layer decides which reader is used, but not what is read.  A
catalog is read like the table of its granules.  The tokens of a flat raster are
read like a table that holds one of them as a text in each of its rows: both
readers take the kind of the first token, and both stop at the first token that
is not of this kind.
-/

namespace LayerAxes

/-!
# Tokens in rows
-/

namespace Feature

theorem lookup_filter_fst {α : Type} {names : List String} {name : String}
    (h : names.contains name = true) (entries : List (String × α)) :
    (entries.filter fun entry => names.contains entry.1).lookup name = entries.lookup name := by
  induction entries with
  | nil => rfl
  | cons entry rest ih =>
      rcases entry with ⟨key, value⟩
      by_cases hKept : names.contains key = true
      · rw [List.filter_cons, if_pos hKept, List.lookup_cons, List.lookup_cons, ih]
      · have hOther : (name == key) = false := by
          rw [beq_eq_false_iff_ne]
          rintro rfl
          exact hKept h
        rw [List.filter_cons, if_neg hKept, List.lookup_cons, hOther, ih]

theorem present?_project (row : Feature) {names : List String} {name : String}
    (h : name ∈ names) : (row.project names).present? name = row.present? name := by
  show Option.filter _ (List.lookup name (row.attributes.filter _)) = _
  rw [lookup_filter_fst (List.contains_iff_mem.mpr h)]
  rfl

def WithoutGeometry (row : Feature) : Prop :=
  forall entry, entry ∈ row.attributes -> entry.2.envelope? = none

theorem WithoutGeometry.project {row : Feature} (h : row.WithoutGeometry)
    (names : List String) : (row.project names).WithoutGeometry :=
  fun entry hEntry => h entry (List.mem_of_mem_filter hEntry)

theorem WithoutGeometry.bounds_eq {row : Feature} (h : row.WithoutGeometry) :
    row.bounds = Envelope.empty := by
  rcases row with ⟨id, entries⟩
  unfold bounds
  dsimp only
  induction entries with
  | nil => rfl
  | cons entry rest ih =>
      rw [List.foldl_cons, h entry List.mem_cons_self]
      exact ih fun other hOther => h other (List.mem_cons_of_mem _ hOther)

theorem boundsOf_eq_empty {rows : List Feature}
    (h : forall row, row ∈ rows -> row.WithoutGeometry) : boundsOf rows = Envelope.empty := by
  unfold boundsOf
  induction rows with
  | nil => rfl
  | cons row rest ih =>
      have hEmpty : Envelope.empty.union Envelope.empty = Envelope.empty := by decide
      rw [List.foldl_cons, (h row List.mem_cons_self).bounds_eq, hEmpty]
      exact ih fun other hOther => h other (List.mem_cons_of_mem _ hOther)

/-- The row has no geometry, no end, and the token as the text of its start. -/
structure HoldsToken (startName : String) (endName : Option String) (token : List Char)
    (row : Feature) : Prop where
  start : row.present? startName = some (.text (String.ofList token))
  finish : endName.bind row.present? = none
  withoutGeometry : row.WithoutGeometry

theorem HoldsToken.project {startName : String} {endName : Option String} {token : List Char}
    {row : Feature} (h : row.HoldsToken startName endName token) (others : List String) :
    (row.project ([startName] ++ endName.toList ++ others)).HoldsToken
      startName endName token where
  start := by
    rw [present?_project row (by simp)]
    exact h.start
  finish := by
    cases endName with
    | none => rfl
    | some name =>
        show (row.project _).present? name = none
        rw [present?_project row (by simp)]
        exact h.finish
  withoutGeometry := h.withoutGeometry.project _

theorem withoutGeometry_of_holdTokens {startName : String} {endName : Option String}
    {tokens : List (List Char)} {rows : List Feature}
    (h : List.Forall₂ (HoldsToken startName endName) tokens rows) :
    forall row, row ∈ rows -> row.WithoutGeometry := by
  have hBoth : List.Forall₂ (fun row token => row.WithoutGeometry ∧
      HoldsToken startName endName token row) rows tokens :=
    h.flip.imp fun _ _ hHolds => ⟨hHolds.withoutGeometry, hHolds⟩
  exact ((List.forall₂_and_left _ _).mp hBoth).1

end Feature

namespace DimensionRows

variable {type : DataType} {startName : String} {endName : Option String}

theorem textsMet_of_holdsToken {row : Feature} {token : List Char}
    (h : row.HoldsToken startName endName token) :
    textsMet startName endName row = [String.ofList token] := by
  have hStart : textOf? row (some startName) = some (String.ofList token) := by
    show (row.present? startName).bind Attribute.text? = _
    rw [h.start]
    rfl
  have hEnd : textOf? row endName = none := by
    unfold textOf?
    rw [h.finish]
    rfl
  rw [textsMet_eq_append_of_textOf?_ne_none (by rw [hStart]; exact Option.some_ne_none _),
    hStart, hEnd]
  rfl

theorem readRowAs_of_holdsToken {row : Feature} {token : List Char}
    (h : row.HoldsToken startName endName token) (kind : Kind) :
    readRowAs kind startName endName row = (Token.read kind token).map some := by
  have hStart : readAttributeAs kind row (some startName) = (Token.read kind token).map some := by
    unfold readAttributeAs
    rw [Option.bind_some, h.start]
    show (Token.read kind (String.ofList token).toList >>= _) = _
    rw [String.toList_ofList]
    cases Token.read kind token <;> rfl
  have hEnd : readAttributeAs kind row endName = .ok none := by
    unfold readAttributeAs
    rw [h.finish]
  unfold readRowAs
  rw [hStart, hEnd]
  cases Token.read kind token <;> rfl

theorem flatMap_textsMet_of_holdTokens {rows : List Feature} {tokens : List (List Char)}
    (h : List.Forall₂ (Feature.HoldsToken startName endName) tokens rows) :
    rows.flatMap (textsMet startName endName) = tokens.map String.ofList := by
  induction h with
  | nil => rfl
  | cons hFirst hRest ih =>
      rw [List.flatMap_cons, textsMet_of_holdsToken hFirst, ih]
      rfl

/-- Rows that hold tokens are read like the tokens, as the kind of the first of them. -/
theorem readRows_of_holdTokens {rows : List Feature} {tokens : List (List Char)}
    (h : List.Forall₂ (Feature.HoldsToken startName endName) tokens rows) :
    readRows type startName endName none rows =
      tokens.mapM (Token.read (Token.classify type (String.ofList (tokens.headD [])))) := by
  have hKind : forall k, textKind? type startName endName rows = some k ->
      k = Token.classify type (String.ofList (tokens.headD [])) := by
    intro k hk
    unfold textKind? at hk
    rw [flatMap_textsMet_of_holdTokens h] at hk
    cases tokens with
    | nil => cases hk
    | cons token tokens => exact (Option.some.inj hk).symm
  rw [readRows_eq_of_textKind? hKind,
    Answer.mapM_eq_map_mapM (h.imp fun _ _ hHolds => readRowAs_of_holdsToken hHolds _)]
  cases tokens.mapM (Token.read _) with
  | error e => rfl
  | ok values =>
      show Except.ok ((values.map some).filterMap id) = _
      rw [List.filterMap_map]
      exact congrArg Except.ok List.filterMap_some

end DimensionRows

namespace MetadataSource

def valueRows (key : String) (place : Nat) (values : List Value) : List Feature :=
  (values.zipIdx place).map fun entry => tokenRow key entry.2 entry.1

theorem tokenRows_eq (key : String) (kind : Kind) (place : Nat) (tokens : List (List Char)) :
    tokenRows key kind place tokens =
      (tokens.mapM (Token.read kind)).map (valueRows key place) := by
  induction tokens generalizing place with
  | nil => rfl
  | cons token tokens ih =>
      rw [tokenRows, List.mapM_cons, ih]
      cases Token.read kind token with
      | error e => rfl
      | ok v => cases tokens.mapM (Token.read kind) <;> rfl

theorem readRows_valueRows (type : DataType) (key : String) (place : Nat)
    (values : List Value) :
    DimensionRows.readRows type key none none (valueRows key place values) = .ok values := by
  induction values generalizing place with
  | nil => rfl
  | cons v values ih =>
      have hRow : DimensionRows.readRow type key none none (tokenRow key place v) =
          .ok (none, some v) := by
        unfold DimensionRows.readRow DimensionRows.readAttribute
        rw [Option.bind_some, present?_tokenRow]
        rfl
      show DimensionRows.readRows type key none none
        (tokenRow key place v :: valueRows key (place + 1) values) = _
      rw [DimensionRows.readRows, hRow]
      show (DimensionRows.readRows type key none none (valueRows key (place + 1) values) >>= _) = _
      rw [ih]
      rfl

theorem withoutGeometry_valueRows {key : String} {place : Nat} {values : List Value}
    {row : Feature} (h : row ∈ valueRows key place values) : row.WithoutGeometry := by
  rcases List.mem_map.mp h with ⟨⟨v, own⟩, _, rfl⟩
  intro entry hEntry
  cases List.mem_singleton.mp hEntry
  rfl

def foundValues (key : String) (values : List Value) : DimensionRows :=
  { startName := key, rows := some (valueRows key 0 values) }

theorem dimensionRows_eq_map {source : MetadataSource} {dimension domain : String}
    {type : DataType} (filter : Filter)
    (hValue : source.value (domainKey dimension) = .ok (some domain)) (hDomain : domain ≠ "") :
    source.dimensionRows dimension filter type =
      ((tokens domain).mapM (Token.read
        (Token.classify type (String.ofList ((tokens domain).headD []))))).map fun values =>
          { startName := domainKey dimension
            rows := some ((valueRows (domainKey dimension) 0 values).filter
              fun row => filter.evaluate row) } := by
  have hFull : domain.isEmpty = false := by
    simpa using hDomain
  have hRows : domainRows (domainKey dimension) type domain =
      ((tokens domain).mapM (Token.read
        (Token.classify type (String.ofList ((tokens domain).headD []))))).map
          (valueRows (domainKey dimension) 0) :=
    tokenRows_eq _ _ 0 _
  unfold dimensionRows
  dsimp only
  rw [hValue]
  dsimp only [bind, Except.bind]
  rw [hFull, if_neg Bool.false_ne_true, hRows]
  cases (tokens domain).mapM (Token.read _) <;> rfl

theorem dimensionRows_of_value {source : MetadataSource} {dimension domain : String}
    {type : DataType} (hValue : source.value (domainKey dimension) = .ok (some domain))
    (hDomain : domain ≠ "") :
    source.dimensionRows dimension .everything type =
      ((tokens domain).mapM (Token.read
        (Token.classify type (String.ofList ((tokens domain).headD []))))).map
          (foundValues (domainKey dimension)) := by
  rw [dimensionRows_eq_map .everything hValue hDomain]
  simp only [Filter.filter_everything]
  rfl

end MetadataSource

namespace Reader

variable {dimension : String} {type : DataType} {order : List Value -> Answer (List Value)}

/-!
# Equal domains
-/

/-- The domain of some tokens: they are read as the kind of the first one and put in order. -/
def readTokens (type : DataType) (order : List Value -> Answer (List Value))
    (tokens : List (List Char)) : Answer Domain := do
  let values <-
    tokens.mapM (Token.read (Token.classify type (String.ofList (tokens.headD []))))
  return { bounds := Envelope.empty, values := <- order values }

theorem bounds_of_readTokens_eq_ok {tokens : List (List Char)} {domain : Domain}
    (h : readTokens type order tokens = .ok domain) : domain.bounds = Envelope.empty := by
  rcases Answer.exists_of_bind_eq_ok h with ⟨values, _, hMore⟩
  rcases Answer.exists_of_bind_eq_ok hMore with ⟨sorted, _, hReturn⟩
  rw [← Except.ok.inj hReturn]

theorem readOrdered_eq_bind {reader : Reader} {filter : Filter} {found : DimensionRows}
    {rows : List Feature}
    (hFound : reader.dimensionRows dimension filter type = .ok (some found))
    (hRows : found.rows = some rows) :
    reader.readOrdered dimension filter type order = (do
      let values <- found.values type rows
      return { bounds := Feature.boundsOf rows, values := <- order values }) := by
  rcases found with ⟨startName, endName, rows?⟩
  cases hRows
  unfold readOrdered
  rw [hFound]
  rfl

theorem readOrdered_flat_eq_readTokens {source : MetadataSource} {domain : String}
    (hValue : source.value (MetadataSource.domainKey dimension) = .ok (some domain))
    (hDomain : domain ≠ "") :
    (flat source).readOrdered dimension .everything type order =
      readTokens type order (MetadataSource.tokens domain) := by
  have hFound := @MetadataSource.dimensionRows_of_value _ _ _ type hValue hDomain
  unfold readTokens
  cases hValues : (MetadataSource.tokens domain).mapM (Token.read
      (Token.classify type (String.ofList ((MetadataSource.tokens domain).headD [])))) with
  | error e =>
      rw [hValues] at hFound
      show ((source.dimensionRows dimension .everything type >>= _) >>= _) = _
      rw [hFound]
      rfl
  | ok values =>
      rw [hValues] at hFound
      have hRows : (flat source).dimensionRows dimension .everything type =
          .ok (some (MetadataSource.foundValues (MetadataSource.domainKey dimension) values)) := by
        show (source.dimensionRows dimension .everything type >>= _) = _
        rw [hFound]
        rfl
      have hRead : (MetadataSource.foundValues (MetadataSource.domainKey dimension) values).values
          type (MetadataSource.valueRows (MetadataSource.domainKey dimension) 0 values) =
            .ok values :=
        MetadataSource.readRows_valueRows type _ 0 values
      rw [readOrdered_eq_bind hRows rfl, hRead,
        Feature.boundsOf_eq_empty fun _ => MetadataSource.withoutGeometry_valueRows]

theorem readOrdered_table_eq_readTokens {table : FeatureTable} {startName : String}
    {endName : Option String} {tokens : List (List Char)}
    (hRows : List.Forall₂ (Feature.HoldsToken startName endName) tokens table.rows) :
    (vector table.source ⟨some startName, endName⟩).readOrdered dimension .everything type
      order = readTokens type order tokens := by
  have hHold : List.Forall₂ (Feature.HoldsToken startName endName) tokens
      (table.rows.map fun row =>
        row.project ([startName] ++ endName.toList ++ table.schema.geometry.toList)) := by
    rw [List.forall₂_map_right_iff]
    exact hRows.imp fun _ _ hHolds => hHolds.project _
  have hFound := dimensionRows_vector_table table startName endName dimension .everything type
  rw [Filter.filter_everything] at hFound
  rw [readOrdered_eq_bind hFound rfl]
  unfold DimensionRows.values readTokens
  dsimp only
  rw [DimensionRows.readRows_of_holdTokens hHold,
    Feature.boundsOf_eq_empty (Feature.withoutGeometry_of_holdTokens hHold)]

theorem dimensionRows_structured_eq_vector (coverage : Coverage) {names : AttributeNames}
    (hNames : GranuleCatalog.namesIn coverage.descriptors dimension = names) (filter : Filter) :
    (structured coverage.catalog).dimensionRows dimension filter type =
      (vector coverage.granules.source names).dimensionRows dimension filter type := by
  show coverage.catalog.dimensionRows dimension filter =
    coverage.granules.source.dimensionRows names filter
  rw [coverage.dimensionRows_catalog, hNames]

theorem namesIn_eq_of_last {earlier later : List Descriptor} {d : Descriptor}
    (hOwn : Text.sameIgnoringAsciiCase d.name dimension = true)
    (hLater : forall other, other ∈ later ->
      Text.sameIgnoringAsciiCase other.name dimension = false) :
    GranuleCatalog.namesIn (earlier ++ d :: later) dimension =
      { startName := some d.startAttribute, endName := d.endAttribute } := by
  have hNone : later.filter (fun other =>
      Text.sameIgnoringAsciiCase other.name dimension) = [] := by
    rw [List.filter_eq_nil_iff]
    intro other hOther
    rw [hLater other hOther]
    exact Bool.false_ne_true
  unfold GranuleCatalog.namesIn
  dsimp only
  rw [List.filter_append, List.filter_cons, if_pos hOwn, hNone, List.getLast?_concat]

/--
Two readers give the same answers, errors included: with duplicates and without them, in
both directions and in any other order of values.
-/
structure ReadAlike (dimension : String) (filter : Filter) (type : DataType)
    (reader other : Reader) : Prop where
  all : forall direction, reader.readAll dimension filter type direction =
    other.readAll dimension filter type direction
  distinct : forall direction, reader.readDistinct dimension filter type direction =
    other.readDistinct dimension filter type direction
  ordered : forall order, reader.readOrdered dimension filter type order =
    other.readOrdered dimension filter type order

theorem readAlike_of_readOrdered_eq {reader other : Reader} {filter : Filter}
    (h : forall order, reader.readOrdered dimension filter type order =
      other.readOrdered dimension filter type order) :
    ReadAlike dimension filter type reader other where
  all direction := (readAll_and_readDistinct_eq h direction).1
  distinct direction := (readAll_and_readDistinct_eq h direction).2
  ordered := h

/--
A coverage is read like the table of its granules with the attributes of the last
descriptor that has the name of the dimension, and a flat raster like a table
that holds its tokens as texts.  The answers are the same, errors included, and those of
a flat raster have no bounds.
-/
theorem variants_read_the_same_domain :
    (forall (coverage : Coverage) (dimension : String) (earlier later : List Descriptor)
        (d : Descriptor) (filter : Filter) (type : DataType),
      coverage.descriptors = earlier ++ d :: later ->
      Text.sameIgnoringAsciiCase d.name dimension = true ->
      (forall other, other ∈ later ->
        Text.sameIgnoringAsciiCase other.name dimension = false) ->
      ReadAlike dimension filter type (structured coverage.catalog)
        (vector coverage.granules.source ⟨some d.startAttribute, d.endAttribute⟩)) ∧
    forall (source : MetadataSource) (table : FeatureTable) (dimension domain : String)
        (startName : String) (endName : Option String) (type : DataType),
      source.value (MetadataSource.domainKey dimension) = .ok (some domain) ->
      domain ≠ "" ->
      List.Forall₂ (Feature.HoldsToken startName endName) (MetadataSource.tokens domain)
        table.rows ->
      ReadAlike dimension .everything type (flat source)
        (vector table.source ⟨some startName, endName⟩) ∧
      (forall direction read,
        (flat source).readAll dimension .everything type direction = .ok read ∨
          (flat source).readDistinct dimension .everything type direction = .ok read ->
        read.bounds = Envelope.empty) ∧
      forall order read,
        (flat source).readOrdered dimension .everything type order = .ok read ->
        read.bounds = Envelope.empty := by
  constructor
  · intro coverage dimension earlier later d filter type hDescriptors hOwn hLater
    have hNames : GranuleCatalog.namesIn coverage.descriptors dimension =
        { startName := some d.startAttribute, endName := d.endAttribute } := by
      rw [hDescriptors]
      exact namesIn_eq_of_last hOwn hLater
    apply readAlike_of_readOrdered_eq
    exact readOrdered_eq_of_dimensionRows_eq
      (dimensionRows_structured_eq_vector coverage hNames filter)
  · intro source table dimension domain startName endName type hValue hDomain hRows
    have hBounds : forall order read,
        (flat source).readOrdered dimension .everything type order = .ok read ->
          read.bounds = Envelope.empty := by
      intro order read hRead
      rw [readOrdered_flat_eq_readTokens hValue hDomain] at hRead
      exact bounds_of_readTokens_eq_ok hRead
    refine ⟨readAlike_of_readOrdered_eq fun order => ?_, ?_, hBounds⟩
    · rw [readOrdered_flat_eq_readTokens hValue hDomain, readOrdered_table_eq_readTokens hRows]
    · rintro direction read (hRead | hRead)
      · exact hBounds _ _ hRead
      · rw [readDistinct_eq_readOrdered] at hRead
        exact hBounds _ _ hRead

def soundings : Coverage where
  name := "sea"
  descriptors :=
    [{ name := "elevation", startAttribute := "old" },
      { name := "ELEVATION", startAttribute := "top", endAttribute := some "bottom" },
      { name := "time", startAttribute := "run" }]
  granules :=
    { schema := { typeName := "sounding", attributes := ["top", "bottom"] }
      rows := [⟨"deep", [("bottom", .integer 9), ("top", .integer 4)]⟩,
        ⟨"shallow", [("top", .text "1.5")]⟩] }

def depthMetadata (depths : String) : MetadataSource :=
  .ofMap (.ofList [("ELEVATION_DOMAIN", depths)])

def depthTable (depths : List String) : FeatureTable where
  schema := { typeName := "depth", attributes := ["depth"] }
  rows := depths.map fun depth => ⟨depth, [("depth", .text depth)]⟩

theorem soundings_read_alike_in_all_stores :
    (structured soundings.catalog).readAll "Elevation" (.ids ["shallow"]) .numeric .ascending =
      (vector soundings.granules.source ⟨some "top", some "bottom"⟩).readAll
        "Elevation" (.ids ["shallow"]) .numeric .ascending ∧
    (flat (depthMetadata "2.0, 1.5,deep")).readDistinct "elevation" .everything .custom
        .descending =
      (vector (depthTable ["2.0", " 1.5", "deep"]).source ⟨some "depth", none⟩).readDistinct
        "elevation" .everything .custom .descending := by
  have hStores := variants_read_the_same_domain.1 soundings "Elevation"
    [{ name := "elevation", startAttribute := "old" }]
    [{ name := "time", startAttribute := "run" }]
    { name := "ELEVATION", startAttribute := "top", endAttribute := some "bottom" }
    (.ids ["shallow"]) .numeric rfl (by decide) (by decide)
  have hTexts := variants_read_the_same_domain.2 (depthMetadata "2.0, 1.5,deep")
    (depthTable ["2.0", " 1.5", "deep"]) "elevation" "2.0, 1.5,deep" "depth" none .custom
    (by decide +kernel) (by decide)
  refine ⟨hStores.all .ascending, (hTexts ?_).1.distinct .descending⟩
  have hTokens : MetadataSource.tokens "2.0, 1.5,deep" =
      ["2.0".toList, " 1.5".toList, "deep".toList] := by decide
  have hHolds : forall depth : String, Feature.HoldsToken "depth" none depth.toList
      ⟨depth, [("depth", .text depth)]⟩ := by
    intro depth
    refine ⟨?_, rfl, ?_⟩
    · rw [String.ofList_toList]
      rfl
    · intro entry hEntry
      cases List.mem_singleton.mp hEntry
      rfl
  rw [hTokens]
  exact .cons (hHolds _) (.cons (hHolds _) (.cons (hHolds _) .nil))

end Reader
end LayerAxes
