import LayerAxes.Domain.Value
import LayerAxes.Error

/-!
# Tokens

Stores keep domain values as tokens.  A token with a slash is a range, any
other one an instant.  What a token may be depends on the kind of the axis, and
a dimension of free type takes its kind from the first token of its domain.
-/

namespace LayerAxes

/--
The declared type of a dimension.  A custom dimension is of the kind that its
first token has.
-/
inductive DataType where
  | temporal
  | numeric
  | custom
deriving DecidableEq, Repr

def DataType.fixedKind : DataType -> Option Kind
  | temporal => some .temporal
  | numeric => some .numeric
  | custom => none

namespace Token

def sides? (cs : List Char) : Option (List Char × List Char) :=
  (Text.cutAt? '/' cs).map fun parts => (Text.trim parts.1, Text.trim parts.2)

/-- An instant of a kind; numbers have to be finite, and every text is one. -/
def readInstant? (kind : Kind) (cs : List Char) : Option Value :=
  match kind with
  | .temporal => (Timestamp.read? cs).map fun t => .time (.instant t)
  | .numeric =>
      ((Binary64.read? cs).filter Binary64.isFinite).map fun x => .number (.instant x)
  | .text => some (.text (.instant (String.ofList cs)))

def unreadable (kind : Kind) (cs : List Char) : ServiceError :=
  .unreadableValue kind.name (String.ofList cs)

def readInstant (kind : Kind) (cs : List Char) : Answer Value :=
  match readInstant? kind cs with
  | some v => .ok v
  | none => .error (unreadable kind cs)

/--
Read a token of a kind.  The first side of a range is read before the second,
and its bounds have to be in order.
-/
def read (kind : Kind) (cs : List Char) : Answer Value :=
  let cs := Text.trim cs
  match sides? cs with
  | none => readInstant kind cs
  | some (first, second) => do
      let lo <- readInstant kind first
      let hi <- readInstant kind second
      match Value.between? lo hi with
      | some v => return v
      | none => throw (unreadable kind cs)

def parse (kind : Kind) (token : String) : Answer Value :=
  read kind token.toList

def fits (kind : Kind) (token : String) : Bool :=
  (parse kind token).toBool

/--
The kind of a domain, given its declared type and its first token: the fixed
kind, or the first of time, number and text that the token fits.
-/
def classify (type : DataType) (token : String) : Kind :=
  type.fixedKind.getD <|
    if fits .temporal token then .temporal
    else if fits .numeric token then .numeric
    else .text

end Token
end LayerAxes
