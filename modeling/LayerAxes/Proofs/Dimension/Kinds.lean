import LayerAxes.Proofs.Answers
import LayerAxes.Proofs.Dimension.Reading

/-!
# The kinds of values that are read

A temporal or a numeric dimension fixes the kind of its tokens: those of a flat
raster and those in text cells.  A cell that is no text is taken as the value it
is, of whatever kind.  So the values of a row are of the fixed kind exactly when
the start of the row is, if it is not a text; an end of another kind is refused.
-/

namespace LayerAxes

/-!
# Tokens
-/

theorem Value.kind_of_between?_eq_some {a b v : Value} (h : Value.between? a b = some v) :
    v.kind = a.kind := by
  unfold Value.between? at h
  split at h
  all_goals
    first
    | cases h
    | (rcases Option.map_eq_some_iff.mp h with ⟨extent, _, rfl⟩
       rfl)

namespace Token

theorem kind_of_readInstant_eq_ok {kind : Kind} {cs : List Char} {v : Value}
    (h : readInstant kind cs = .ok v) : v.kind = kind := by
  unfold readInstant at h
  split at h
  · rename_i hSome
    cases h
    unfold readInstant? at hSome
    cases kind with
    | temporal =>
        rcases Option.map_eq_some_iff.mp hSome with ⟨t, _, rfl⟩
        rfl
    | numeric =>
        rcases Option.map_eq_some_iff.mp hSome with ⟨x, _, rfl⟩
        rfl
    | text =>
        cases hSome
        rfl
  · cases h

theorem kind_of_read_eq_ok {kind : Kind} {cs : List Char} {v : Value}
    (h : read kind cs = .ok v) : v.kind = kind := by
  unfold read at h
  dsimp only at h
  split at h
  · exact kind_of_readInstant_eq_ok h
  · rcases Answer.exists_of_bind_eq_ok h with ⟨lo, hLo, hMore⟩
    rcases Answer.exists_of_bind_eq_ok hMore with ⟨hi, _, hRange⟩
    split at hRange
    · rename_i hBetween
      cases hRange
      rw [Value.kind_of_between?_eq_some hBetween]
      exact kind_of_readInstant_eq_ok hLo
    · cases hRange

def NamesKind (kind : Kind) (e : ServiceError) : Prop :=
  exists part, e = unreadable kind part

theorem readInstant_failsOnlyWith (kind : Kind) (cs : List Char) :
    Answer.FailsOnlyWith (NamesKind kind) (readInstant kind cs) := by
  intro e h
  unfold readInstant at h
  split at h
  · cases h
  · cases h
    exact ⟨cs, rfl⟩

theorem read_failsOnlyWith (kind : Kind) (cs : List Char) :
    Answer.FailsOnlyWith (NamesKind kind) (read kind cs) := by
  unfold read
  dsimp only
  split
  · exact readInstant_failsOnlyWith kind _
  · refine (readInstant_failsOnlyWith kind _).bind fun lo _ => ?_
    refine (readInstant_failsOnlyWith kind _).bind fun hi _ => ?_
    intro e h
    split at h
    · cases h
    · cases h
      exact ⟨_, rfl⟩

theorem classify_of_fixedKind_eq_some {type : DataType} {kind : Kind}
    (h : type.fixedKind = some kind) (token : String) : classify type token = kind := by
  unfold classify
  rw [h]
  rfl

end Token

/-!
# Cells
-/

def Attribute.plainValue? : Attribute -> Option Value
  | .text _ => none
  | cell => cell.value?

def Feature.plainValue? (row : Feature) (name : Option String) : Option Value :=
  (name.bind row.present?).bind Attribute.plainValue?

def OfKind (kind : Kind) (v? : Option Value) : Prop :=
  forall v, v? = some v -> v.kind = kind

@[simp]
theorem ofKind_none (kind : Kind) : OfKind kind none := by
  intro v hv
  cases hv

@[simp]
theorem ofKind_some {kind : Kind} {v : Value} : OfKind kind (some v) <-> v.kind = kind := by
  constructor
  · intro h
    exact h v rfl
  · intro h w hw
    cases hw
    exact h

namespace DimensionRows

section

variable {type : DataType} {kind : Kind} {known after : Option Kind} {v? : Option Value}

theorem readCell_of_fixedKind (hType : type.fixedKind = some kind)
    (hKnown : forall k, known = some k -> k = kind) {cell : Attribute}
    (h : readCell type known cell = .ok (after, v?)) :
    (forall k, after = some k -> k = kind) ∧ (OfKind kind v? <-> OfKind kind cell.plainValue?) := by
  unfold readCell at h
  split at h
  · rename_i token
    rcases Answer.exists_of_bind_eq_ok h with ⟨v, hParse, hReturn⟩
    cases hReturn
    have hKind : known.getD (Token.classify type token) = kind := by
      cases known with
      | none => exact Token.classify_of_fixedKind_eq_some hType token
      | some k => exact hKnown k rfl
    rw [hKind] at hParse ⊢
    refine ⟨fun k hk => (Option.some.inj hk).symm, ?_⟩
    rw [ofKind_some]
    exact ⟨fun _ => ofKind_none kind, fun _ => Token.kind_of_read_eq_ok hParse⟩
  · rename_i hPlain
    cases h
    refine ⟨hKnown, ?_⟩
    cases cell <;> first | exact Iff.rfl | exact absurd rfl (hPlain _)

theorem readAttribute_of_fixedKind (hType : type.fixedKind = some kind)
    (hKnown : forall k, known = some k -> k = kind) {row : Feature} {name : Option String}
    (h : readAttribute type known row name = .ok (after, v?)) :
    (forall k, after = some k -> k = kind) ∧
      (OfKind kind v? <-> OfKind kind (row.plainValue? name)) := by
  unfold readAttribute at h
  unfold Feature.plainValue?
  cases hCell : name.bind row.present? with
  | none =>
      rw [hCell] at h
      cases h
      exact ⟨hKnown, Iff.rfl⟩
  | some cell =>
      rw [hCell] at h
      exact readCell_of_fixedKind hType hKnown h

theorem kind_of_joinEnds_eq_ok {start finish v : Value} (h : joinEnds start finish = .ok v) :
    v.kind = start.kind := by
  unfold joinEnds at h
  split at h
  · rename_i hBetween
    cases h
    rw [Value.kind_of_between?_eq_some hBetween, Value.kind_lower]
  · cases h

/-!
# Rows
-/

theorem readRow_of_fixedKind (hType : type.fixedKind = some kind)
    (hKnown : forall k, known = some k -> k = kind) {startName : String}
    {endName : Option String} {row : Feature}
    (h : readRow type startName endName known row = .ok (after, v?)) :
    (forall k, after = some k -> k = kind) ∧
      (OfKind kind v? <-> OfKind kind (row.plainValue? (some startName))) := by
  rcases Answer.exists_of_bind_eq_ok h with ⟨⟨between, start?⟩, hStart, hMore⟩
  rcases readAttribute_of_fixedKind hType hKnown hStart with ⟨hBetween, hPlain⟩
  rw [← hPlain]
  cases start? with
  | none =>
      cases hMore
      exact ⟨hBetween, Iff.rfl⟩
  | some start =>
      rcases Answer.exists_of_bind_eq_ok hMore with ⟨⟨afterEnd, finish?⟩, hEnd, hLast⟩
      have hAfter := (readAttribute_of_fixedKind hType hBetween hEnd).1
      cases finish? with
      | none =>
          cases hLast
          exact ⟨hAfter, Iff.rfl⟩
      | some finish =>
          rcases Answer.exists_of_bind_eq_ok hLast with ⟨v, hJoin, hReturn⟩
          cases hReturn
          refine ⟨hAfter, ?_⟩
          rw [ofKind_some, ofKind_some, kind_of_joinEnds_eq_ok hJoin]

theorem readRows_of_fixedKind (hType : type.fixedKind = some kind)
    (hKnown : forall k, known = some k -> k = kind) {startName : String}
    {endName : Option String} {rows : List Feature} {read : List Value}
    (h : readRows type startName endName known rows = .ok read) :
    (forall v, v ∈ read -> v.kind = kind) <->
      forall row, row ∈ rows -> OfKind kind (row.plainValue? (some startName)) := by
  induction rows generalizing known read with
  | nil =>
      cases h
      exact ⟨fun _ row hRow => absurd hRow List.not_mem_nil,
        fun _ v hv => absurd hv List.not_mem_nil⟩
  | cons row rows ih =>
      rcases Answer.exists_of_bind_eq_ok h with ⟨⟨next, v?⟩, hRow, hMore⟩
      rcases Answer.exists_of_bind_eq_ok hMore with ⟨rest, hRest, hReturn⟩
      cases hReturn
      rcases readRow_of_fixedKind hType hKnown hRow with ⟨hNext, hPlain⟩
      rw [List.forall_mem_cons, ← ih hNext hRest, ← hPlain, List.forall_mem_append]
      apply and_congr_left'
      cases v? with
      | none => simp
      | some v => simp

end

end DimensionRows

namespace MetadataSource

theorem present?_tokenRow (key : String) (index : Nat) (v : Value) :
    (tokenRow key index v).present? key = some (.domain v) := by
  unfold tokenRow Feature.present? Feature.get?
  show Option.filter _ (Entries.find? key (Entries.insert key _ [])) = _
  rw [Entries.find?_insert_self]
  rfl

theorem plainValue?_tokenRow (key : String) (index : Nat) (v : Value) :
    (tokenRow key index v).plainValue? (some key) = some v := by
  show ((tokenRow key index v).present? key).bind _ = _
  rw [present?_tokenRow]
  rfl

theorem exists_of_mem_tokenRows {key : String} {kind : Kind} {index : Nat}
    {tokens : List (List Char)} {rows : List Feature}
    (h : tokenRows key kind index tokens = .ok rows) {row : Feature} (hRow : row ∈ rows) :
    exists place v, row = tokenRow key place v ∧ v.kind = kind := by
  induction tokens generalizing index rows with
  | nil =>
      cases h
      cases hRow
  | cons token tokens ih =>
      rcases Answer.exists_of_bind_eq_ok h with ⟨v, hRead, hMore⟩
      rcases Answer.exists_of_bind_eq_ok hMore with ⟨rest, hRest, hReturn⟩
      cases hReturn
      rcases List.mem_cons.mp hRow with rfl | hLater
      · exact ⟨index, v, rfl, Token.kind_of_read_eq_ok hRead⟩
      · exact ih hRest hLater

theorem exists_of_mem_dimensionRows {source : MetadataSource} {dimension : String}
    {filter : Filter} {type : DataType} {found : DimensionRows} {rows : List Feature}
    (hFound : source.dimensionRows dimension filter type = .ok found)
    (hRows : found.rows = some rows) {row : Feature} (hRow : row ∈ rows) :
    exists place v token, row = tokenRow found.startName place v ∧
      v.kind = Token.classify type token := by
  rcases Answer.exists_of_bind_eq_ok hFound with ⟨domain?, _, hMore⟩
  cases domain? with
  | none =>
      cases hMore
      cases hRows
  | some domain =>
      dsimp only at hMore
      split at hMore
      · cases hMore
        cases hRows
      · rcases Answer.exists_of_bind_eq_ok hMore with ⟨all, hAll, hReturn⟩
        cases hReturn
        cases hRows
        rcases exists_of_mem_tokenRows hAll (List.mem_of_mem_filter hRow) with
          ⟨place, v, hEq, hKind⟩
        exact ⟨place, v, _, hEq, hKind⟩

theorem ofKind_of_mem_dimensionRows {source : MetadataSource} {dimension : String}
    {filter : Filter} {type : DataType} {kind : Kind} (hType : type.fixedKind = some kind)
    {found : DimensionRows} {rows : List Feature}
    (hFound : source.dimensionRows dimension filter type = .ok found)
    (hRows : found.rows = some rows) {row : Feature} (hRow : row ∈ rows) :
    OfKind kind (row.plainValue? (some found.startName)) := by
  rcases exists_of_mem_dimensionRows hFound hRows hRow with ⟨place, v, token, rfl, hKind⟩
  rw [plainValue?_tokenRow, ofKind_some, hKind]
  exact Token.classify_of_fixedKind_eq_some hType token

end MetadataSource

namespace Reader

variable {reader : Reader} {dimension : String} {filter : Filter} {type : DataType}
  {direction : Direction} {domain : Domain} {kind : Kind}

def StartsOfKind (reader : Reader) (dimension : String) (filter : Filter) (type : DataType)
    (kind : Kind) : Prop :=
  forall found rows,
    reader.dimensionRows dimension filter type = .ok (some found) -> found.rows = some rows ->
      forall row, row ∈ rows -> OfKind kind (row.plainValue? (some found.startName))

/-- An order of values neither loses nor adds any. -/
def Permutes (order : List Value -> Answer (List Value)) : Prop :=
  forall values sorted, order values = .ok sorted -> sorted.Perm values

theorem permutes_sort (direction : Direction) : Permutes (Value.sort direction) :=
  fun _ _ hSort => (Value.stableOrder_of_sort_eq_ok hSort).perm

theorem forall_kind_iff_startsOfKind (hType : type.fixedKind = some kind)
    {order : List Value -> Answer (List Value)} (hOrder : Permutes order)
    (hRead : reader.readOrdered dimension filter type order = .ok domain) :
    (forall v, v ∈ domain.values -> v.kind = kind) <->
      reader.StartsOfKind dimension filter type kind := by
  rcases cases_of_readOrdered_eq_ok hRead with
    ⟨rfl, hNone⟩ | ⟨found, rows, read, hFound, hRows, hValues, hSort, _⟩
  · constructor
    · intro _ found rows hFound hRows
      rw [hNone found hFound] at hRows
      cases hRows
    · intro _ v hv
      exact absurd hv List.not_mem_nil
  · have hPerm := hOrder _ _ hSort
    have hUnknown : forall k, (none : Option Kind) = some k -> k = kind := by
      intro k hk
      cases hk
    have hPlain := DimensionRows.readRows_of_fixedKind hType hUnknown hValues
    constructor
    · intro hKind other otherRows hOther hOtherRows
      rw [hFound] at hOther
      cases hOther
      rw [hRows] at hOtherRows
      cases hOtherRows
      exact hPlain.mp fun v hv => hKind v (hPerm.symm.subset hv)
    · intro hStarts v hv
      exact hPlain.mpr (hStarts found rows hFound hRows) v (hPerm.subset hv)

theorem startsOfKind_flat (source : MetadataSource) (hType : type.fixedKind = some kind) :
    (flat source).StartsOfKind dimension filter type kind := by
  intro found rows hFound hRows row hRow
  rcases Answer.exists_of_bind_eq_ok hFound with ⟨own, hOwn, hReturn⟩
  cases hReturn
  exact MetadataSource.ofKind_of_mem_dimensionRows hType hOwn hRows hRow

/--
All values of a domain are of the fixed kind exactly when every row that was read
starts with a text or with a value of that kind, in whatever order the values are put;
the rows of a flat raster always do.
-/
theorem readAll_keeps_fixedKind_iff (hType : type.fixedKind = some kind) :
    (forall direction domain, reader.readAll dimension filter type direction = .ok domain ->
      ((forall v, v ∈ domain.values -> v.kind = kind) <->
        reader.StartsOfKind dimension filter type kind)) ∧
    (forall order domain, Permutes order ->
      reader.readOrdered dimension filter type order = .ok domain ->
      ((forall v, v ∈ domain.values -> v.kind = kind) <->
        reader.StartsOfKind dimension filter type kind)) ∧
    forall source, reader = .flat source -> reader.StartsOfKind dimension filter type kind := by
  refine ⟨?_, ?_, ?_⟩
  · intro direction domain hRead
    exact forall_kind_iff_startsOfKind hType (permutes_sort direction) hRead
  · intro order domain hOrder hRead
    exact forall_kind_iff_startsOfKind hType hOrder hRead
  · rintro source rfl
    exact startsOfKind_flat source hType

def runTable (cells : List Attribute) : FeatureTable where
  schema := { typeName := "run" }
  rows := cells.map fun cell => ⟨"run", [("start", cell)]⟩

def runTimes (cells : List Attribute) : Reader :=
  .vector (runTable cells).source ⟨some "start", none⟩

def midnight : Timestamp :=
  ⟨0, 0, by decide⟩

def oneOClock : Timestamp :=
  ⟨3600, 0, by decide⟩

theorem runTimes_of_times_keep_kind :
    exists domain,
      (runTimes [.time midnight, .text "1970-01-01T01:00:00Z"]).readAll
        "time" .everything .temporal .ascending = .ok domain ∧
      (runTimes [.time midnight, .text "1970-01-01T01:00:00Z"]).StartsOfKind
        "time" .everything .temporal .temporal := by
  have hSort : Value.sort .ascending [.time (.instant midnight), .time (.instant oneOClock)] =
      .ok [.time (.instant midnight), .time (.instant oneOClock)] :=
    Value.sort_eq_self (by decide) (by decide)
  have hRead : exists bounds,
      (runTimes [.time midnight, .text "1970-01-01T01:00:00Z"]).readAll
        "time" .everything .temporal .ascending =
        .ok ⟨bounds, [.time (.instant midnight), .time (.instant oneOClock)]⟩ :=
    exists_readAll_vector_table_eq_ok (runTable _) (by decide +kernel) hSort
  have hKinds : forall v, v ∈ [.time (.instant midnight), .time (.instant oneOClock)] ->
      Value.kind v = .temporal := by
    decide
  rcases hRead with ⟨bounds, hRead⟩
  exact ⟨_, hRead, ((readAll_keeps_fixedKind_iff rfl).1 .ascending _ hRead).mp hKinds⟩

/-- A time axis takes an integer for a number, although the type says that it holds times. -/
theorem runTimes_of_integer_are_numbers :
    exists bounds,
      (runTimes [.integer 5]).readAll "time" .everything .temporal .ascending =
        .ok ⟨bounds, [.number (.instant (Binary64.ofInt 5))]⟩ ∧
      DataType.temporal.fixedKind = some .temporal ∧
      (Value.number (.instant (Binary64.ofInt 5))).kind ≠ .temporal := by
  have hRead : exists bounds,
      (runTimes [.integer 5]).readAll "time" .everything .temporal .ascending =
        .ok ⟨bounds, [.number (.instant (Binary64.ofInt 5))]⟩ :=
    exists_readAll_vector_table_eq_ok (runTable _) rfl
      (Value.sort_eq_self (by decide) (by decide))
  rcases hRead with ⟨bounds, hRead⟩
  exact ⟨bounds, hRead, rfl, by decide⟩

end Reader
end LayerAxes
