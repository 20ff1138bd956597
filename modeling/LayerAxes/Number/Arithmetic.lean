import LayerAxes.Number.Binary64

/-!
# Binary64 arithmetic

Every finite number is a whole multiple of the least positive one, 2^-1074.
Arithmetic is done exactly on these multiples, as integers, and the exact
result is then rounded once: to the nearest binary64 number, and to the one of
even rank when two are equally near.
-/

namespace LayerAxes
namespace Binary64

def unitsPerOne : Nat :=
  Nat.pow 2 1074

def binadeSize : Nat :=
  0x10000000000000

/--
The number of a given finite rank, as a multiple of the least positive number.
In the first two binades the rank is the multiple itself; every further binade
doubles the distance between neighbours.
-/
def rankUnits (rank : Nat) : Nat :=
  if rank < binadeSize then rank
  else (binadeSize + rank % binadeSize) * Nat.pow 2 (rank / binadeSize - 1)

def units (x : Binary64) : Nat :=
  rankUnits x.rank

def signedUnits (x : Binary64) : Int :=
  if x.negative then -x.units else x.units

/-!
# Rounding
-/

/-- The whole number nearest to `num / den`; a half goes to the even neighbour. -/
def roundHalfEven (num den : Nat) : Nat :=
  let low := num / den
  let twice := 2 * (num % den)
  if twice < den then low
  else if den < twice then low + 1
  else low + low % 2

/--
The rank of the number nearest to `num / den` units.  The quotient keeps its
53 leading bits; what is rounded past the largest finite number is infinite.
-/
def nearestRank (num den : Nat) : Nat :=
  let shift := (num / den).log2 - 52
  min infinityRank (shift * binadeSize + roundHalfEven num (den * Nat.pow 2 shift))

theorem nearestRank_lt (num den : Nat) : nearestRank num den < 0x8000000000000000 :=
  Nat.lt_of_le_of_lt (Nat.min_le_left _ _) infinityRank_lt

def ofUnits (negative : Bool) (num den : Nat) : Binary64 :=
  ⟨negative, nearestRank num den, nearestRank_lt num den⟩

def ofInt (n : Int) : Binary64 :=
  ofUnits (n < 0) (n.natAbs * unitsPerOne) 1

def ofRatio (num den : Nat) : Binary64 :=
  ofUnits false (num * unitsPerOne) den

/-!
# Operations
-/

def add (x y : Binary64) : Binary64 :=
  if x.isNaN || y.isNaN then nan
  else if x.isInfinite then
    if y.isInfinite && x.negative != y.negative then nan else x
  else if y.isInfinite then y
  else
    let sum := x.signedUnits + y.signedUnits
    if sum = 0 then zero.withSign (x.negative && y.negative)
    else ofUnits (sum < 0) sum.natAbs 1

def sub (x y : Binary64) : Binary64 :=
  add x (-y)

def mul (x y : Binary64) : Binary64 :=
  let negative := x.negative != y.negative
  if x.isNaN || y.isNaN then nan
  else if x.isInfinite || y.isInfinite then
    if x.isZero || y.isZero then nan else infinity.withSign negative
  else ofUnits negative (x.units * y.units) unitsPerOne

def div (x y : Binary64) : Binary64 :=
  let negative := x.negative != y.negative
  if x.isNaN || y.isNaN then nan
  else if x.isInfinite then
    if y.isInfinite then nan else infinity.withSign negative
  else if y.isInfinite then zero.withSign negative
  else if y.isZero then
    if x.isZero then nan else infinity.withSign negative
  else ofUnits negative (x.units * unitsPerOne) y.units

instance : Add Binary64 := ⟨add⟩
instance : Sub Binary64 := ⟨sub⟩
instance : Mul Binary64 := ⟨mul⟩
instance : Div Binary64 := ⟨div⟩

/-!
# Whole numbers
-/

def floor (x : Binary64) : Int :=
  Int.fdiv x.signedUnits unitsPerOne

def ceil (x : Binary64) : Int :=
  -Int.fdiv (-x.signedUnits) unitsPerOne

/-- The integer nearest to a finite number; a half goes away from zero. -/
def round (x : Binary64) : Int :=
  let size := (2 * x.units + unitsPerOne) / (2 * unitsPerOne)
  if x.negative then -size else size

/--
An integer taken from a number and held within bounds.  The infinities take the
bound on their side, and a value that is no number counts as zero.
-/
def within (low high : Int) (whole : Binary64 -> Int) (x : Binary64) : Int :=
  if x.isNaN then 0
  else if x.isInfinite then
    if x.negative then low else high
  else max low (min high (whole x))

end Binary64
end LayerAxes
