import LayerAxes.Feature.Attribute
import LayerAxes.Feature.Wildcard

/-!
# Filters

A filter is a predicate on rows.  A comparison with a missing attribute, with
null or with something incomparable holds for no operator.
-/

namespace LayerAxes

inductive Comparison where
  | equal
  | notEqual
  | less
  | atMost
  | greater
  | atLeast
deriving DecidableEq, Repr

def Comparison.accepts : Comparison -> Ordering -> Bool
  | equal, o => o.isEq
  | notEqual, o => o.isNe
  | less, o => o.isLT
  | atMost, o => o.isLE
  | greater, o => o.isGT
  | atLeast, o => o.isGE

/-- A predicate on rows. -/
inductive Filter where
  | everything
  | nothing
  | compare (property : String) (operator : Comparison) (operand : Attribute)
  | between (property : String) (lower upper : Attribute)
  | like (property : String) (pattern : String)
  | isNull (property : String)
  /-- The attribute is a geometry that has a point in common with an envelope. -/
  | touches (property : String) (envelope : Envelope)
  | ids (listed : List String)
  | all (filters : List Filter)
  | any (filters : List Filter)
  | not (filter : Filter)

namespace Filter

instance : Inhabited Filter := ⟨everything⟩

def isEverything : Filter -> Bool
  | everything => true
  | _ => false

/--
Both filters hold.  Filters that accept everything are left out, and a list of
filters on the left takes up what comes after it.
-/
def and : Filter -> Filter -> Filter
  | everything, f => f
  | f, everything => f
  | all fs, all gs => all (fs ++ gs)
  | all fs, g => all (fs ++ [g])
  | f, g => all [f, g]

def conjunction (filters : List Filter) : Filter :=
  filters.foldl and everything

/-!
# Evaluation
-/

def holds (operator : Comparison) (a b : Attribute) : Bool :=
  match a.compare? b with
  | some o => operator.accepts o
  | none => false

mutual

def evaluate (row : Feature) : Filter -> Bool
  | everything => true
  | nothing => false
  | compare property operator operand =>
      match row.present? property with
      | some a => holds operator a operand
      | none => false
  | between property lower upper =>
      match row.present? property with
      | some a => holds .atLeast a lower && holds .atMost a upper
      | none => false
  | like property pattern =>
      match (row.get? property).bind Attribute.text? with
      | some text => Wildcard.describes pattern.toList text.toList
      | none => false
  | isNull property => (row.present? property).isNone
  | touches property envelope =>
      match (row.get? property).bind Attribute.envelope? with
      | some g => g.intersects envelope
      | none => false
  | ids listed => listed.contains row.id
  | all filters => evaluateAll row filters
  | any filters => evaluateAny row filters
  | not filter => !evaluate row filter

def evaluateAll (row : Feature) : List Filter -> Bool
  | [] => true
  | f :: fs => evaluate row f && evaluateAll row fs

def evaluateAny (row : Feature) : List Filter -> Bool
  | [] => false
  | f :: fs => evaluate row f || evaluateAny row fs

end

/-!
# Renaming
-/

/-- The new name of a property; the error is the property without one. -/
def renameProperty (map : String -> Option String) (property : String) :
    Except String String :=
  match map property with
  | some name => .ok name
  | none => .error property

mutual

/--
The filter with all properties renamed.  The error is the first property, from
left to right, that has no new name.
-/
def rename (map : String -> Option String) : Filter -> Except String Filter
  | everything => .ok everything
  | nothing => .ok nothing
  | compare property operator operand => do
      return compare (<- renameProperty map property) operator operand
  | between property lower upper => do
      return between (<- renameProperty map property) lower upper
  | like property pattern => do
      return like (<- renameProperty map property) pattern
  | isNull property => do
      return isNull (<- renameProperty map property)
  | touches property envelope => do
      return touches (<- renameProperty map property) envelope
  | ids listed => .ok (ids listed)
  | all filters => do return all (<- renameList map filters)
  | any filters => do return any (<- renameList map filters)
  | not filter => do return not (<- rename map filter)

def renameList (map : String -> Option String) : List Filter -> Except String (List Filter)
  | [] => .ok []
  | f :: fs => do
      let first <- rename map f
      return first :: (<- renameList map fs)

end

end Filter
end LayerAxes
