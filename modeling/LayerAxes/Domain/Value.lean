import LayerAxes.Time.Civil
import LayerAxes.Number.Shortest

/-!
# Domain values

A domain value lies on an axis of one of three kinds: time, number or text.  It
is a single instant of that axis or a range between two of them.  Both bounds
of a range are on the same axis because the kind is chosen first.
-/

namespace LayerAxes

/-- The kind of axis that a value lies on. -/
inductive Kind where
  | temporal
  | numeric
  | text
deriving DecidableEq, Repr

namespace Kind

def name : Kind -> String
  | temporal => "temporal"
  | numeric => "numeric"
  | text => "string"

def position : Kind -> Nat
  | temporal => 0
  | numeric => 1
  | text => 2

instance : Ord Kind where
  compare a b := compare a.position b.position

end Kind

inductive Extent (α : Type) where
  | instant (point : α)
  | range (lower upper : α)
deriving DecidableEq, Repr

namespace Extent

variable {α : Type}

def lower : Extent α -> α
  | instant x => x
  | range lo _ => lo

def upper : Extent α -> α
  | instant x => x
  | range _ hi => hi

def isRange : Extent α -> Bool
  | instant _ => false
  | range _ _ => true

/-- The lower bound decides, then the upper bound; an instant has equal bounds. -/
def compareBounds [Ord α] (a b : Extent α) : Ordering :=
  (compare a.lower b.lower).then (compare a.upper b.upper)

def between? [Ord α] (lo hi : α) : Option (Extent α) :=
  if compare lo hi = .gt then none else some (range lo hi)

def write (f : α -> List Char) : Extent α -> List Char
  | instant x => f x
  | range lo hi => f lo ++ ['/'] ++ f hi

end Extent

/-- A value of a dimension's domain. -/
inductive Value where
  | time (extent : Extent Timestamp)
  | number (extent : Extent Binary64)
  | text (extent : Extent String)
deriving DecidableEq

namespace Value

def kind : Value -> Kind
  | time _ => .temporal
  | number _ => .numeric
  | text _ => .text

def isRange : Value -> Bool
  | time e => e.isRange
  | number e => e.isRange
  | text e => e.isRange

def lower : Value -> Value
  | time e => time (.instant e.lower)
  | number e => number (.instant e.lower)
  | text e => text (.instant e.lower)

def upper : Value -> Value
  | time e => time (.instant e.upper)
  | number e => number (.instant e.upper)
  | text e => text (.instant e.upper)

/--
The range between two instants.  There is none between values of two kinds,
between ranges, or between instants in the wrong order.
-/
def between? : Value -> Value -> Option Value
  | time (.instant lo), time (.instant hi) => (Extent.between? lo hi).map time
  | number (.instant lo), number (.instant hi) => (Extent.between? lo hi).map number
  | text (.instant lo), text (.instant hi) => (Extent.between? lo hi).map text
  | _, _ => none

/--
The place of the lower bound on the number line: a number itself, a time in
milliseconds.  Texts have no place.
-/
def place? : Value -> Option Binary64
  | time e => some (Binary64.ofInt e.lower.millis)
  | number e => some e.lower
  | text _ => none

def write : Value -> List Char
  | time e => e.write Timestamp.write
  | number e => e.write Binary64.write
  | text e => e.write String.toList

def format (v : Value) : String :=
  String.ofList v.write

/-!
# Order
-/

def compareSameKind? : Value -> Value -> Option Ordering
  | time a, time b => some (a.compareBounds b)
  | number a, number b => some (a.compareBounds b)
  | text a, text b => some (a.compareBounds b)
  | _, _ => none

/-- Values of one kind by their bounds, values of two kinds by their kinds. -/
def compareValues (a b : Value) : Ordering :=
  (compareSameKind? a b).getD (compare a.kind b.kind)

instance : Ord Value := ⟨compareValues⟩

/-- The values take the same place in the order; a range may equal an instant. -/
def same (a b : Value) : Bool :=
  compare a b == .eq

end Value
end LayerAxes
