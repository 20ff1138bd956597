import LayerAxes.Json.Basic
import LayerAxes.Number.Shortest

/-!
# Writing JSON

A value is written on one line, or with a line for every item and member.  In
strings only quotes, backslashes and control characters are escaped.
-/

namespace LayerAxes
namespace Json

/-!
# Strings and numbers
-/

/-- A control character without an escape of its own, as four hexadecimal digits. -/
def escapeUnit (c : Char) : List Char :=
  ['\\', 'u', '0', '0'] ++ [Nat.digitChar (c.toNat / 16), Nat.digitChar (c.toNat % 16)]

def escape (c : Char) : List Char :=
  match c with
  | '"' => ['\\', '"']
  | '\\' => ['\\', '\\']
  | '\x08' => ['\\', 'b']
  | '\x0c' => ['\\', 'f']
  | '\n' => ['\\', 'n']
  | '\r' => ['\\', 'r']
  | '\t' => ['\\', 't']
  | c => if c.toNat < 32 then escapeUnit c else [c]

def quote (cs : List Char) : List Char :=
  ['"'] ++ cs.flatMap escape ++ ['"']

/--
Documents write numbers positionally from 10^-5 up to 10^16 and let a tie go to
the even digit.
-/
def numberLayout : Layout :=
  { lowest := -5, highest := 15, tie := .even }

/-- A binary64 number; documents have no form for values that are not finite. -/
def ofBinary64 (x : Binary64) : Json :=
  if x.isFinite then
    let sign := if x.negative then ['-'] else []
    number (String.ofList (sign ++ Binary64.renderRank numberLayout x.rank))
  else null

/-!
# Values
-/

structure Style where
  /-- What stands in front of an item at a depth, and of the closing bracket. -/
  lineBreak : Nat -> List Char
  colon : List Char

def Style.compact : Style :=
  { lineBreak := fun _ => [], colon := [':'] }

/-- A line for every item and member, indented by two blanks for each level. -/
def Style.pretty : Style :=
  { lineBreak := fun depth => '\n' :: List.replicate (2 * depth) ' ', colon := [':', ' '] }

mutual

def write (style : Style) (depth : Nat) : Json -> List Char
  | null => "null".toList
  | bool true => "true".toList
  | bool false => "false".toList
  | number literal => literal.toList
  | string s => quote s.toList
  | array items =>
      if items.isEmpty then ['[', ']']
      else ['['] ++ writeItems style (depth + 1) items ++ style.lineBreak depth ++ [']']
  | object members =>
      if members.isEmpty then ['\x7b', '\x7d']
      else
        ['\x7b'] ++ writeMembers style (depth + 1) members ++ style.lineBreak depth ++ ['\x7d']

def writeItems (style : Style) (depth : Nat) : List Json -> List Char
  | [] => []
  | item :: rest =>
      style.lineBreak depth ++ write style depth item ++
        (if rest.isEmpty then [] else ',' :: writeItems style depth rest)

def writeMembers (style : Style) (depth : Nat) : List (String × Json) -> List Char
  | [] => []
  | (name, value) :: rest =>
      style.lineBreak depth ++ quote name.toList ++ style.colon ++ write style depth value ++
        (if rest.isEmpty then [] else ',' :: writeMembers style depth rest)

end

def compact (value : Json) : String :=
  String.ofList (value.write Style.compact 0)

def pretty (value : Json) : String :=
  String.ofList (value.write Style.pretty 0)

end Json
end LayerAxes
