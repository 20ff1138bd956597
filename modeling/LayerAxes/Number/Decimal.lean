import LayerAxes.Number.Arithmetic
import LayerAxes.Text.Basic

/-!
# Decimal numbers and their reading

A decimal is a whole number times a power of ten.  Its binary64 number is the
nearest one.  This module holds that rounding and the grammar in which numbers
are written: an optional sign, then `inf`, `infinity`, `nan` in any case, or
digits with an optional point and an optional exponent.
-/

namespace LayerAxes

structure Decimal where
  digits : Nat
  exponent : Int
deriving DecidableEq, Repr

namespace Decimal

def fraction (d : Decimal) (factor : Nat) : Nat × Nat :=
  (d.digits * factor * Nat.pow 10 d.exponent.toNat, Nat.pow 10 (-d.exponent).toNat)

/--
The rank of the binary64 number nearest to a decimal.  A decimal of at least
10^309 is infinite and one below 10^-324 is zero, whatever its digits are.
-/
def rank (d : Decimal) : Nat :=
  let size := (Text.digits d.digits).length + d.exponent
  if d.digits = 0 || size < -323 then 0
  else if 310 ≤ size then Binary64.infinityRank
  else
    let ratio := d.fraction Binary64.unitsPerOne
    Binary64.nearestRank ratio.1 ratio.2

theorem rank_lt (d : Decimal) : d.rank < 0x8000000000000000 := by
  unfold rank
  dsimp only
  split
  · decide
  · split
    · exact Binary64.infinityRank_lt
    · exact Binary64.nearestRank_lt _ _

def toBinary64 (negative : Bool) (d : Decimal) : Binary64 :=
  ⟨negative, d.rank, d.rank_lt⟩

/-!
# Reading
-/

def spanSign : List Char -> Bool × List Char
  | '-' :: cs => (true, cs)
  | '+' :: cs => (false, cs)
  | cs => (false, cs)

/-- The exponent after the digits: nothing, or `e` and a whole number. -/
def readExponent? : List Char -> Option Int
  | [] => some 0
  | c :: cs =>
      if c = 'e' ∨ c = 'E' then
        let signed := spanSign cs
        (Text.whole? signed.2).map fun n => if signed.1 then -n else n
      else none

/-- The digits after a point, when there is one, and the text after them. -/
def spanFraction : List Char -> List Char × List Char
  | '.' :: cs => Text.spanDigits cs
  | cs => ([], cs)

/--
An unsigned decimal: digits with an optional point, at least one digit in all,
and an optional exponent.
-/
def read? (cs : List Char) : Option Decimal :=
  let whole := Text.spanDigits cs
  let fraction := spanFraction whole.2
  let all := whole.1 ++ fraction.1
  if all.isEmpty then none
  else
    (readExponent? fraction.2).map fun exponent =>
      { digits := Text.digitsValue all, exponent := exponent - fraction.1.length }

end Decimal

namespace Binary64

def ofWord? (cs : List Char) : Option Binary64 :=
  let word := String.ofList (cs.map Char.toLower)
  if word = "inf" ∨ word = "infinity" then some infinity
  else if word = "nan" then some nan
  else none

def read? (cs : List Char) : Option Binary64 :=
  let signed := Decimal.spanSign cs
  match ofWord? signed.2 with
  | some x => some (x.withSign signed.1)
  | none => (Decimal.read? signed.2).map (Decimal.toBinary64 signed.1)

def parse? (s : String) : Option Binary64 :=
  read? s.toList

end Binary64
end LayerAxes
