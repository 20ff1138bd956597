import LayerAxes.Settings
import LayerAxes.Text.Basic

/-!
# Variables in layer files

A dollar sign and an opening brace start an expression, which the next closing
brace ends.  It is the name of a variable, or a name and a default that stands
in for a variable that is unset or empty.  The value takes the place of the
expression and is not searched for expressions again.
-/

namespace LayerAxes
namespace Template

inductive Fault where
  | unclosed (text : String)
  | unset (expression : String)
deriving DecidableEq, Repr

def Fault.message : Fault -> String
  | unclosed text => s!"Unclosed variable substitution: $\x7b{text}"
  | unset expression =>
      s!"Environment variable {expression} not set: environment variable not found"

def opening : List Char :=
  ['$', '\x7b']

def closing : Char :=
  '\x7d'

def defaultMark : List Char :=
  [':', '-']

def variableName (cs : List Char) : String :=
  String.ofList (Text.trim cs)

def resolve (env : Environment) (expression : List Char) : Except Fault (List Char) :=
  match Text.cut? defaultMark expression with
  | some (name, standard) =>
      match (env (variableName name)).filter fun value => !value.isEmpty with
      | some value => .ok value.toList
      | none => .ok standard
  | none =>
      match env (variableName expression) with
      | some value => .ok value.toList
      | none => .error (.unset (String.ofList expression))

/-- A text in front of its first expression, the expression, and the text after it. -/
inductive Split where
  | plain
  | unclosed (after : List Char)
  | closed (before expression after : List Char)

def split (cs : List Char) : Split :=
  match Text.cut? opening cs with
  | none => .plain
  | some (before, after) =>
      match Text.cutAt? closing after with
      | none => .unclosed after
      | some (expression, rest) => .closed before expression rest

theorem split_shorter {cs before expression after : List Char}
    (h : split cs = .closed before expression after) : after.length < cs.length := by
  unfold split at h
  split at h
  · cases h
  · rename_i outer hOuter
    split at h
    · cases h
    · rename_i inner hInner
      cases h
      have hFirst := Text.cut?_length hOuter
      have hSecond := Text.cut?_length hInner
      simp [opening] at hFirst hSecond
      omega

def expand (env : Environment) (cs : List Char) : Except Fault (List Char) :=
  match _h : split cs with
  | .plain => .ok cs
  | .unclosed after => .error (.unclosed (String.ofList after))
  | .closed before expression after => do
      let value <- resolve env expression
      return before ++ value ++ (<- expand env after)
termination_by cs.length
decreasing_by exact split_shorter _h

def expressionVariable (expression : List Char) : String :=
  match Text.cut? defaultMark expression with
  | some (name, _) => variableName name
  | none => variableName expression

/-- The variables that a text refers to, in the order of their expressions. -/
def referencedVariables (cs : List Char) : List String :=
  match _h : split cs with
  | .closed _ expression after => expressionVariable expression :: referencedVariables after
  | _ => []
termination_by cs.length
decreasing_by exact split_shorter _h

end Template
end LayerAxes
