import LayerAxes.Domain.Value
import LayerAxes.Error

/-!
# Ordered domains

A domain is listed in ascending or descending order.  Values of two kinds have
no order, so a domain that mixes kinds cannot be listed.  Sorting is stable,
and values that take the same place collapse into the first of them.
-/

namespace LayerAxes

inductive Direction where
  | ascending
  | descending
deriving DecidableEq, Repr

def Direction.orient : Direction -> Ordering -> Ordering
  | ascending, o => o
  | descending, o => o.swap

namespace Value

def mixedKinds (a b : Value) : ServiceError :=
  .unsupportedSort s!"{a.kind.name} values mixed with {b.kind.name} values"

def compareIn (direction : Direction) (a b : Value) : Answer Ordering :=
  match compareSameKind? a b with
  | some o => .ok (direction.orient o)
  | none => .error (mixedKinds a b)

def precedes (direction : Direction) (a b : Value) : Bool :=
  (direction.orient (compareValues a b)).isLE

/--
Sort a domain.  Every value is first compared with the first one, so that a
domain of mixed kinds is refused.
-/
def sort (direction : Direction) (values : List Value) : Answer (List Value) :=
  match values with
  | [] => .ok []
  | first :: rest => do
      rest.forM fun v => discard (compareIn direction first v)
      return values.mergeSort (precedes direction)

/-- Drop every value that takes the same place as the last one kept, `last`. -/
def dedupAfter (direction : Direction) (last : Value) : List Value -> Answer (List Value)
  | [] => .ok []
  | v :: rest => do
      if (<- compareIn direction last v) = .eq then dedupAfter direction last rest
      else return v :: (<- dedupAfter direction v rest)

/-- Keep the first of neighbouring values that take the same place. -/
def dedup (direction : Direction) : List Value -> Answer (List Value)
  | [] => .ok []
  | v :: rest => do return v :: (<- dedupAfter direction v rest)

end Value
end LayerAxes
