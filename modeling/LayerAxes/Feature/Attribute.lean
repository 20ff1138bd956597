import LayerAxes.Domain.Value
import LayerAxes.Envelope
import LayerAxes.NameMap

/-!
# Features and their attributes

A feature is a row of a store: an identifier and named attributes.  A joined
row carries the row that it was joined with as an attribute, so attributes and
features are defined together.
-/

namespace LayerAxes

mutual

/-- The value of an attribute of a row. -/
inductive Attribute where
  | null
  | bool (b : Bool)
  | integer (n : Int)
  | number (x : Binary64)
  | text (s : String)
  | time (t : Timestamp)
  | domain (v : Value)
  | geometry (e : Envelope)
  | feature (row : Feature)

/-- A row with an identifier, its attributes in the order of their names. -/
structure Feature where
  id : String
  attributes : List (String × Attribute)

end

namespace Attribute

instance : Inhabited Attribute := ⟨null⟩

def isNull : Attribute -> Bool
  | null => true
  | _ => false

def value? : Attribute -> Option Value
  | integer n => some (.number (.instant (Binary64.ofInt n)))
  | number x => some (.number (.instant x))
  | text s => some (.text (.instant s))
  | time t => some (.time (.instant t))
  | domain v => some v
  | _ => none

def text? : Attribute -> Option String
  | text s => some s
  | _ => none

def envelope? : Attribute -> Option Envelope
  | geometry e => some e
  | _ => none

def feature? : Attribute -> Option Feature
  | feature row => some row
  | _ => none

/-!
# Comparison

Filters compare attributes where they are comparable: truth values, integers
exactly, and domain values of one kind.  Sorting needs an answer for any two
attributes.
-/

def compare? : Attribute -> Attribute -> Option Ordering
  | bool a, bool b => some (compare a b)
  | integer a, integer b => some (compare a b)
  | a, b =>
      match a.value?, b.value? with
      | some v, some w => Value.compareSameKind? v w
      | _, _ => none

def group : Attribute -> Nat
  | bool _ => 0
  | integer _ => 1
  | number _ => 1
  | text _ => 1
  | time _ => 1
  | domain _ => 1
  | geometry _ => 2
  | feature _ => 3
  | null => 4

/--
The order in which rows are sorted: truth values and domain values by value,
anything else by its group.
-/
def totalCompare : Attribute -> Attribute -> Ordering
  | bool a, bool b => compare a b
  | a, b =>
      match a.value?, b.value? with
      | some v, some w => compare v w
      | _, _ => compare a.group b.group

/-!
# Equality

Two attributes are the same when they are of one sort and their contents are
the same by the comparison of that sort.
-/

mutual

def same : Attribute -> Attribute -> Bool
  | null, null => true
  | bool a, bool b => a == b
  | integer a, integer b => a == b
  | number a, number b => a.sameNumber b
  | text a, text b => a == b
  | time a, time b => a == b
  | domain a, domain b => a.same b
  | geometry a, geometry b => a.sameBounds b
  | feature a, feature b => sameRow a b
  | _, _ => false

def sameRow : Feature -> Feature -> Bool
  | ⟨idA, as⟩, ⟨idB, bs⟩ => idA == idB && sameEntries as bs

def sameEntries : List (String × Attribute) -> List (String × Attribute) -> Bool
  | [], [] => true
  | (nameA, a) :: as, (nameB, b) :: bs => nameA == nameB && same a b && sameEntries as bs
  | _, _ => false

end

end Attribute

namespace Feature

def ofId (id : String) : Feature :=
  ⟨id, []⟩

instance : Inhabited Feature := ⟨ofId ""⟩

def set (row : Feature) (name : String) (value : Attribute) : Feature :=
  { row with attributes := Entries.insert name value row.attributes }

/-- A row with the given attributes; of two for a name the later counts. -/
def ofList (id : String) (entries : List (String × Attribute)) : Feature :=
  ⟨id, Entries.insertAll [] entries⟩

def get? (row : Feature) (name : String) : Option Attribute :=
  Entries.find? name row.attributes

def present? (row : Feature) (name : String) : Option Attribute :=
  (row.get? name).filter fun a => !a.isNull

def project (row : Feature) (names : List String) : Feature :=
  { row with attributes := row.attributes.filter fun entry => names.contains entry.1 }

def bounds (row : Feature) : Envelope :=
  row.attributes.foldl
    (fun e entry =>
      match entry.2.envelope? with
      | some g => e.union g
      | none => e)
    Envelope.empty

def boundsOf (rows : List Feature) : Envelope :=
  rows.foldl (fun e row => e.union row.bounds) Envelope.empty

end Feature
end LayerAxes
