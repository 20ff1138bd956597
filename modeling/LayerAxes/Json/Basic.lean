/-!
# JSON values

Layer files, configurations and reports are JSON documents.  A number is kept
as the text that it was written with, and the members of an object in their
order, repeated names included: what a number or a repetition means is decided
where a document is read.
-/

namespace LayerAxes

inductive Json where
  | null
  | bool (b : Bool)
  | number (literal : String)
  | string (s : String)
  | array (items : List Json)
  | object (members : List (String × Json))

namespace Json

instance : Inhabited Json := ⟨null⟩

def isNull : Json -> Bool
  | null => true
  | _ => false

def bool? : Json -> Option Bool
  | bool b => some b
  | _ => none

def string? : Json -> Option String
  | string s => some s
  | _ => none

def array? : Json -> Option (List Json)
  | array items => some items
  | _ => none

def object? : Json -> Option (List (String × Json))
  | object members => some members
  | _ => none

def ofOption {α : Type} (f : α -> Json) : Option α -> Json
  | some a => f a
  | none => null

def ofStrings (texts : List String) : Json :=
  array (texts.map string)

def ofNat (n : Nat) : Json :=
  number (toString n)

/-!
# Values inside values
-/

mutual

def every (p : Json -> Bool) : Json -> Bool
  | array items => p (array items) && everyItem p items
  | object members => p (object members) && everyMember p members
  | value => p value

def everyItem (p : Json -> Bool) : List Json -> Bool
  | [] => true
  | item :: rest => every p item && everyItem p rest

def everyMember (p : Json -> Bool) : List (String × Json) -> Bool
  | [] => true
  | (_, value) :: rest => every p value && everyMember p rest

end

/-- No object inside the value has two members of one name. -/
def hasDistinctNames (j : Json) : Bool :=
  j.every fun
    | object members => (members.map Prod.fst).eraseDups.length == members.length
    | _ => true

end Json
end LayerAxes
