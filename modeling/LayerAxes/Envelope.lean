import LayerAxes.Number.Shortest
import LayerAxes.Text.Basic

/-!
# Envelopes

An envelope is an axis-parallel box in the plane, with its edges.  An envelope
whose lower bound exceeds its upper bound on some axis is empty; the union with
an empty envelope changes nothing.
-/

namespace LayerAxes

structure Envelope where
  minX : Binary64
  minY : Binary64
  maxX : Binary64
  maxY : Binary64
deriving DecidableEq, Repr

namespace Envelope

def empty : Envelope :=
  ⟨Binary64.infinity, Binary64.infinity, -Binary64.infinity, -Binary64.infinity⟩

instance : Inhabited Envelope := ⟨empty⟩

def ofPoint (x y : Binary64) : Envelope :=
  ⟨x, y, x, y⟩

def isEmpty (e : Envelope) : Bool :=
  e.maxX < e.minX || e.maxY < e.minY

def width (e : Envelope) : Binary64 :=
  if e.isEmpty then Binary64.zero else e.maxX - e.minX

def height (e : Envelope) : Binary64 :=
  if e.isEmpty then Binary64.zero else e.maxY - e.minY

def union (a b : Envelope) : Envelope :=
  if a.isEmpty then b
  else if b.isEmpty then a
  else
    { minX := a.minX.lesser b.minX
      minY := a.minY.lesser b.minY
      maxX := a.maxX.greater b.maxX
      maxY := a.maxY.greater b.maxY }

def intersects (a b : Envelope) : Bool :=
  !a.isEmpty && !b.isEmpty &&
    a.minX ≤ b.maxX && b.minX ≤ a.maxX && a.minY ≤ b.maxY && b.minY ≤ a.maxY

def containsPoint (e : Envelope) (x y : Binary64) : Bool :=
  e.minX ≤ x && x ≤ e.maxX && e.minY ≤ y && y ≤ e.maxY

def sameBounds (a b : Envelope) : Bool :=
  a.minX.sameNumber b.minX && a.minY.sameNumber b.minY &&
    a.maxX.sameNumber b.maxX && a.maxY.sameNumber b.maxY

/-!
# Reading
-/

inductive ReadError where
  | format (text : String)
  | number (text : String)
deriving DecidableEq, Repr

def ReadError.message : ReadError -> String
  | .format text => s!"Invalid BBOX format: {text}. Expected 'minx,miny,maxx,maxy'"
  | .number text => s!"Invalid number in BBOX: {text}"

def readBound (cs : List Char) : Except ReadError Binary64 :=
  match Binary64.read? cs with
  | some x => .ok x
  | none => .error (.number (String.ofList cs))

def parse (s : String) : Except ReadError Envelope := do
  match (s.toList.splitOn ',').map Text.trim with
  | [minX, minY, maxX, maxY] =>
      return {
        minX := <- readBound minX
        minY := <- readBound minY
        maxX := <- readBound maxX
        maxY := <- readBound maxY }
  | _ => throw (.format s)

end Envelope
end LayerAxes
