import LayerAxes.Domain.Order
import LayerAxes.Feature.Filter

/-!
# Queries

A query asks a store for rows: those that a filter accepts, in an order, cut to
a page, and with some of their attributes.  It may also join rows of other
tables.
-/

namespace LayerAxes

structure SortKey where
  property : String
  direction : Direction
deriving DecidableEq, Repr

/-- A join with another table; joined rows come as an attribute named `joinedAs`. -/
structure Join where
  table : String
  joinedAs : String
  foreignKey : String
  outer : Bool
deriving DecidableEq, Repr

structure Query where
  typeName : String
  filter : Filter := .everything
  properties : Option (List String) := none
  sortBy : List SortKey := []
  startIndex : Option Nat := none
  maxFeatures : Option Nat := none
  joins : List Join := []

/-!
# The order of rows
-/

def SortKey.compareRows (key : SortKey) (a b : Feature) : Ordering :=
  match a.present? key.property, b.present? key.property with
  | some x, some y => key.direction.orient (x.totalCompare y)
  | some _, none => .lt
  | none, some _ => .gt
  | none, none => .eq

def compareRows : List SortKey -> Feature -> Feature -> Ordering
  | [], _, _ => .eq
  | key :: keys, a, b => (key.compareRows a b).then (compareRows keys a b)

/-- Rows in the order of the criteria; rows that are equal keep their order. -/
def sortRows (keys : List SortKey) (rows : List Feature) : List Feature :=
  rows.mergeSort fun a b => (compareRows keys a b).isLE

namespace Query

/-!
# Parts of an answer
-/

def page {α : Type} (q : Query) (rows : List α) : List α :=
  let rest := rows.drop (q.startIndex.getD 0)
  match q.maxFeatures with
  | some n => rest.take n
  | none => rest

def projectRows (q : Query) (rows : List Feature) : List Feature :=
  match q.properties with
  | some names => rows.map fun row => row.project names
  | none => rows

def select (q : Query) (rows : List Feature) : List Feature :=
  rows.filter fun row => q.filter.evaluate row

end Query
end LayerAxes
