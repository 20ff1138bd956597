import LayerAxes.Text.Basic

/-!
# Wildcard patterns

In a pattern every star stands for any text, and all other characters for
themselves.
-/

namespace LayerAxes
namespace Wildcard

/-- The segments occur in a text one after the other, without overlap. -/
def inOrder : List (List Char) -> List Char -> Bool
  | [], _ => true
  | segment :: rest, cs =>
      match Text.cut? segment cs with
      | some (_, after) => inOrder rest after
      | none => false

def dropEnding? (ending cs : List Char) : Option (List Char) :=
  if ending.isSuffixOf cs then some (cs.take (cs.length - ending.length)) else none

/--
The pattern describes the text.  The first segment between stars has to open
the text and the last one to close what is left; each one between them is
taken at its leftmost place.
-/
def describes (pattern text : List Char) : Bool :=
  match pattern.splitOn '*' with
  | [] => false
  | [only] => only == text
  | first :: second :: others =>
      let inner := (second :: others).dropLast
      let last := (second :: others).getLast (List.cons_ne_nil _ _)
      match (first.isPrefixOf? text).bind (dropEnding? last) with
      | some between => inOrder inner between
      | none => false

end Wildcard
end LayerAxes
