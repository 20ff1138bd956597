import LayerAxes.Dimension.Reader

/-!
# Domains

The domain of a dimension is the list of values that its rows hold, in order,
with the envelope of these rows.  A row with a start and an end value stands
for the range between them, and a row without a start value for nothing.
-/

namespace LayerAxes

/-- The values of a dimension, and the envelope of the rows they come from. -/
structure Domain where
  bounds : Envelope
  values : List Value
deriving DecidableEq

namespace Domain

def empty : Domain :=
  ⟨Envelope.empty, []⟩

instance : Inhabited Domain := ⟨empty⟩

end Domain

namespace DimensionRows

/-!
# Values of rows

Text cells are tokens.  Their kind is fixed by the type of the dimension, or by
the first text cell that is met; `kind` is that kind once it is known.  All
other cells are taken as the values they are.
-/

def readCell (type : DataType) (kind : Option Kind) :
    Attribute -> Answer (Option Kind × Option Value)
  | .text token => do
      let known := kind.getD (Token.classify type token)
      return (some known, some (<- Token.parse known token))
  | cell => .ok (kind, cell.value?)

/-- The value of the cell that a row has for an attribute, if it has one. -/
def readAttribute (type : DataType) (kind : Option Kind) (row : Feature)
    (name : Option String) : Answer (Option Kind × Option Value) :=
  match name.bind row.present? with
  | some cell => readCell type kind cell
  | none => .ok (kind, none)

def joinEnds (start finish : Value) : Answer Value :=
  match Value.between? start.lower finish.upper with
  | some v => .ok v
  | none =>
      .error (.unreadableValue start.kind.name s!"{start.format}/{finish.format}")

def readRow (type : DataType) (startName : String) (endName : Option String)
    (kind : Option Kind) (row : Feature) : Answer (Option Kind × Option Value) := do
  let (kind, start) <- readAttribute type kind row (some startName)
  match start with
  | none => return (kind, none)
  | some start =>
      let (kind, finish) <- readAttribute type kind row endName
      match finish with
      | none => return (kind, some start)
      | some finish => return (kind, some (<- joinEnds start finish))

/-- The values of rows in their order, given the kind of text cells so far. -/
def readRows (type : DataType) (startName : String) (endName : Option String) :
    Option Kind -> List Feature -> Answer (List Value)
  | _, [] => .ok []
  | kind, row :: rest => do
      let (kind, v) <- readRow type startName endName kind row
      return v.toList ++ (<- readRows type startName endName kind rest)

def values (found : DimensionRows) (type : DataType) (rows : List Feature) :
    Answer (List Value) :=
  readRows type found.startName found.endName none rows

end DimensionRows

namespace Reader

def readAll (reader : Reader) (dimension : String) (filter : Filter) (type : DataType)
    (direction : Direction) : Answer Domain := do
  match <- reader.dimensionRows dimension filter type with
  | none => return Domain.empty
  | some found =>
      match found.rows with
      | none => return Domain.empty
      | some rows =>
          let values <- found.values type rows
          return { bounds := Feature.boundsOf rows, values := <- Value.sort direction values }

def readDistinct (reader : Reader) (dimension : String) (filter : Filter) (type : DataType)
    (direction : Direction) : Answer Domain := do
  let domain <- reader.readAll dimension filter type direction
  return { domain with values := <- Value.dedup direction domain.values }

end Reader
end LayerAxes
