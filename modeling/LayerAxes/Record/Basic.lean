import LayerAxes.Feature.Attribute
import LayerAxes.Record.Pushback

/-!
# Records

A record is a product with its properties, its metadata document and its links.
A joined query returns a row for every link of a product, one after the other;
such rows of one identifier are folded into one record.
-/

namespace LayerAxes

/-!
# Columns behind properties

Records publish properties under names of their own.  A column map lists the
column of the product table behind each of them; of two columns for a property
the first one is the column that queries use.
-/

structure ColumnMap where
  pairs : List (String × String)
deriving DecidableEq, Repr

namespace ColumnMap

def column? (columns : ColumnMap) (property : String) : Option String :=
  columns.pairs.lookup property

def property? (columns : ColumnMap) (column : String) : Option String :=
  (columns.pairs.find? fun pair => pair.2 == column).map Prod.fst

def size (columns : ColumnMap) : Nat :=
  columns.pairs.length

def isEmpty (columns : ColumnMap) : Bool :=
  columns.pairs.isEmpty

end ColumnMap

/-!
# Records
-/

/-- A product as it is published. -/
structure Record where
  id : String
  properties : NameMap Attribute
  metadata : Option String
  links : List Feature

namespace Record

def metadataAlias : String :=
  "metadata"

def linkAlias : String :=
  "link"

/-- The property, and the column of the metadata table, that holds the document. -/
def metadataProperty : String :=
  "metadata"

def linksProperty : String :=
  "links"

/-!
# Parts of a row
-/

def propertiesOf (columns : ColumnMap) (row : Feature) : NameMap Attribute :=
  NameMap.ofList
    (columns.pairs.filterMap fun pair => (row.present? pair.2).map fun a => (pair.1, a))

def metadataOf (row : Feature) : Option String := do
  let joined <- (<- row.get? metadataAlias).feature?
  (<- joined.present? metadataProperty).text?

def linkOf (row : Feature) : Option Feature := do
  (<- row.get? linkAlias).feature?

/-!
# Folding
-/

/--
The links of `row` and of the rows after it that have the identifier of the
record.  The first row of another record is handed back.
-/
def readLinks (id : String) (row : Feature) (rows : Pushback Feature) :
    Answer (List Feature × Pushback Feature) :=
  match _h : rows.next with
  | (none, after) => .ok ((linkOf row).toList, after)
  | (some other, after) =>
      if other.id = id then do
        let (links, rest) <- readLinks id other after
        return ((linkOf row).toList ++ links, rest)
      else do return ((linkOf row).toList, <- after.pushBack other)
termination_by rows.size
decreasing_by
  have := Pushback.size_of_next_eq_some _h
  omega

/-- Fold the rows of the next record; there is none when no rows are left. -/
def readNext (columns : ColumnMap) (rows : Pushback Feature) :
    Answer (Option Record × Pushback Feature) :=
  match rows.next with
  | (none, after) => .ok (none, after)
  | (some row, after) => do
      let (links, rest) <- readLinks row.id row after
      let record : Record :=
        { id := row.id, properties := propertiesOf columns row, metadata := metadataOf row, links }
      return (some record, rest)

theorem readLinks_size_le {id : String} {row : Feature} {rows : Pushback Feature}
    {links : List Feature} {rest : Pushback Feature}
    (h : readLinks id row rows = .ok (links, rest)) : rest.size ≤ rows.size := by
  fun_induction readLinks id row rows generalizing links rest with
  | case1 row rows after hNext =>
      cases h
      rw [Pushback.size_of_next_eq_none hNext]
      exact Nat.zero_le _
  | case2 row rows other after hNext hId ih =>
      rcases Answer.exists_of_bind_eq_ok h with ⟨⟨others, left⟩, hTail, hReturn⟩
      cases hReturn
      have hLe := ih hTail
      have hSize := Pushback.size_of_next_eq_some hNext
      omega
  | case3 row rows other after hNext hId =>
      rcases Answer.exists_of_bind_eq_ok h with ⟨back, hBack, hReturn⟩
      cases hReturn
      have hSize := Pushback.size_of_next_eq_some hNext
      have hBackSize := Pushback.size_le_of_pushBack_eq_ok hBack
      omega

theorem readNext_size_lt {columns : ColumnMap} {rows rest : Pushback Feature} {record : Record}
    (h : readNext columns rows = .ok (some record, rest)) : rest.size < rows.size := by
  unfold readNext at h
  split at h
  · cases h
  · rename_i row after hNext
    rcases Answer.exists_of_bind_eq_ok h with ⟨⟨links, left⟩, hLinks, hReturn⟩
    cases hReturn
    have hLe := readLinks_size_le hLinks
    have hSize := Pushback.size_of_next_eq_some hNext
    omega

end Record

/-!
# Streams

A stream folds one record at every call.  The call after the last record finds
none, and so does every call after that one or after an error.
-/

structure RecordStream where
  columns : ColumnMap
  rows : Pushback Feature
  exhausted : Bool := false

namespace RecordStream

def ofList (columns : ColumnMap) (rows : List Feature) : RecordStream :=
  { columns, rows := Pushback.ofList rows }

/-- The next record or error, if there is one, and the stream after it. -/
def next (s : RecordStream) : Option (Answer Record) × RecordStream :=
  if s.exhausted then (none, s)
  else
    match Record.readNext s.columns s.rows with
    | .ok (some record, rest) => (some (.ok record), { s with rows := rest })
    | .ok (none, rest) => (none, { s with rows := rest, exhausted := true })
    | .error e => (some (.error e), { s with exhausted := true })

theorem size_lt_of_next_eq_ok {s rest : RecordStream} {record : Record}
    (h : s.next = (some (.ok record), rest)) : rest.rows.size < s.rows.size := by
  unfold next at h
  split at h
  · cases h
  · split at h
    · rename_i hNext
      cases h
      exact Record.readNext_size_lt hNext
    · cases h
    · cases h

/-- All records that are left; an error takes their place. -/
def collect (s : RecordStream) : Answer (List Record) :=
  match _h : s.next with
  | (none, _) => .ok []
  | (some (.error e), _) => .error e
  | (some (.ok record), rest) => do return record :: (<- collect rest)
termination_by s.rows.size
decreasing_by exact size_lt_of_next_eq_ok _h

end RecordStream

def Record.ofRows (columns : ColumnMap) (rows : List Feature) : Answer (List Record) :=
  (RecordStream.ofList columns rows).collect

end LayerAxes
