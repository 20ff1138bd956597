import LayerAxes.Number.Decimal

/-!
# Shortest decimals

A number is written with the fewest digits that read back to it, and with the
nearest such digits when several do.  `shortest` selects the decimal, and a
`Layout` decides how it is set out as text.
-/

namespace LayerAxes

/-- Which of two equally near decimals is taken. -/
inductive Tie where
  | up
  | even
deriving DecidableEq, Repr

/--
How decimals are set out.  Decimals whose leading digit stands for a power of
ten between `lowest` and `highest` are written with a point at its place, the
others with one digit before the point and an exponent.
-/
structure Layout where
  lowest : Int
  highest : Int
  tie : Tie
deriving DecidableEq, Repr

namespace Decimal

/-- The decimal without trailing zeros in its digits; `fuel` bounds their number. -/
def strip (fuel : Nat) (d : Decimal) : Decimal :=
  match fuel with
  | 0 => d
  | fuel + 1 =>
      if d.digits % 10 = 0 then strip fuel ⟨d.digits / 10, d.exponent + 1⟩ else d

def leadingPower (num den : Nat) : Int :=
  if den ≤ num then (Text.digits (num / den)).length - 1
  else -(Text.digits ((den - 1) / num)).length

def nearer (tie : Tie) (num den low : Nat) : Nat :=
  match compare (2 * num) ((2 * low + 1) * den) with
  | .lt => low
  | .gt => low + 1
  | .eq =>
      match tie with
      | .up => low + 1
      | .even => low + low % 2

/--
The decimal of the grid 10^exponent that reads back to `rank`, if one of the
two neighbours of the number on that grid does.
-/
def onGrid? (tie : Tie) (rank : Nat) (exponent : Int) : Option Decimal :=
  let num := Binary64.rankUnits rank * Nat.pow 10 (-exponent).toNat
  let den := Binary64.unitsPerOne * Nat.pow 10 exponent.toNat
  let low : Decimal := ⟨num / den, exponent⟩
  let high : Decimal := ⟨num / den + 1, exponent⟩
  match low.rank == rank, high.rank == rank with
  | true, true => some ⟨nearer tie num den low.digits, exponent⟩
  | true, false => some low
  | false, true => some high
  | false, false => none

def exact (rank : Nat) : Decimal :=
  ⟨Binary64.rankUnits rank * Nat.pow 5 1074, -1074⟩

/--
The decimal with the fewest digits that reads back to a positive finite rank.
Seventeen digits are enough for every number; the exact value stands in for
what the search would leave open.
-/
def shortest (tie : Tie) (rank : Nat) : Decimal :=
  let power := leadingPower (Binary64.rankUnits rank) Binary64.unitsPerOne
  let found := (List.range 17).findSome? fun (n : Nat) => onGrid? tie rank (power - n)
  strip 800 (found.getD (exact rank))

/-!
# Setting out
-/

/-- Digits with a point after the first `place` of them, filled up with zeros. -/
def positional (ds : List Char) (place : Int) : List Char :=
  if place ≤ 0 then
    ['0', '.'] ++ List.replicate (-place).toNat '0' ++ ds
  else if ds.length ≤ place then
    ds ++ List.replicate (place - ds.length).toNat '0' ++ ['.', '0']
  else
    ds.take place.toNat ++ ['.'] ++ ds.drop place.toNat

/-- One digit, a point and the other digits if there are any, and an exponent. -/
def scientific (ds : List Char) (power : Int) : List Char :=
  let mantissa := if ds.length ≤ 1 then ds else ds.take 1 ++ ['.'] ++ ds.drop 1
  let sign := if power < 0 then ['-'] else []
  mantissa ++ ['e'] ++ sign ++ Text.digits power.natAbs

def render (layout : Layout) (d : Decimal) : List Char :=
  let ds := Text.digits d.digits
  let power := ds.length + d.exponent - 1
  if layout.lowest ≤ power ∧ power ≤ layout.highest then positional ds (power + 1)
  else scientific ds power

end Decimal

namespace Binary64

def renderRank (layout : Layout) (rank : Nat) : List Char :=
  if rank = 0 then ['0', '.', '0']
  else (Decimal.shortest layout.tie rank).render layout

/--
Tokens write numbers positionally from 10^-4 up to 10^16 and let a tie go up.
-/
def tokenLayout : Layout :=
  { lowest := -4, highest := 15, tie := .up }

/-- The text of a number in a token; it always has a point or an exponent. -/
def write (x : Binary64) : List Char :=
  if x.isNaN then "NaN".toList
  else
    let sign := if x.negative then ['-'] else []
    let size := if x.isInfinite then "inf".toList else renderRank tokenLayout x.rank
    sign ++ size

def format (x : Binary64) : String :=
  String.ofList x.write

end Binary64
end LayerAxes
