/-!
# Binary64 numbers

A binary64 number is a sign and a rank: the number of representable
non-negative numbers below its absolute value.  Rank zero is zero, the ranks up
to `infinityRank` count the finite numbers in increasing order, and ranks above
it stand for values that are no numbers.  Both zeros and both signs of "not a
number" are kept apart.

Two orders live on these values.  The comparison of numbers, written `≤` and
`<`, holds for no value that is not a number and takes the two zeros for equal.
The total order, `totalCompare`, puts every value in a place of its own.
-/

namespace LayerAxes

/-- A binary64 number: a sign, and a rank of 63 bits among the absolute values. -/
structure Binary64 where
  negative : Bool
  rank : Nat
  rank_lt : rank < 0x8000000000000000
deriving DecidableEq, Repr

namespace Binary64

/-- The rank of the infinities: 2047 binades of 2^52 numbers lie below it. -/
def infinityRank : Nat :=
  0x7FF0000000000000

theorem infinityRank_lt : infinityRank < 0x8000000000000000 := by
  decide

def zero : Binary64 :=
  ⟨false, 0, by decide⟩

def infinity : Binary64 :=
  ⟨false, infinityRank, infinityRank_lt⟩

def nan : Binary64 :=
  ⟨false, 0x7FF8000000000000, by decide⟩

def withSign (negative : Bool) (x : Binary64) : Binary64 :=
  { x with negative }

def neg (x : Binary64) : Binary64 :=
  { x with negative := !x.negative }

def abs (x : Binary64) : Binary64 :=
  x.withSign false

instance : Neg Binary64 := ⟨neg⟩

instance : Inhabited Binary64 := ⟨zero⟩

def isNaN (x : Binary64) : Bool :=
  infinityRank < x.rank

def isFinite (x : Binary64) : Bool :=
  x.rank < infinityRank

def isInfinite (x : Binary64) : Bool :=
  x.rank == infinityRank

def isZero (x : Binary64) : Bool :=
  x.rank == 0

/-!
# Comparison of numbers
-/

/-- The place of a number on the number line; both zeros have place zero. -/
def place (x : Binary64) : Int :=
  if x.negative then -x.rank else x.rank

instance : LE Binary64 where
  le x y := x.isNaN = false ∧ y.isNaN = false ∧ x.place ≤ y.place

instance : LT Binary64 where
  lt x y := x.isNaN = false ∧ y.isNaN = false ∧ x.place < y.place

instance (x y : Binary64) : Decidable (x ≤ y) :=
  inferInstanceAs (Decidable (_ ∧ _ ∧ _))

instance (x y : Binary64) : Decidable (x < y) :=
  inferInstanceAs (Decidable (_ ∧ _ ∧ _))

/-- Equality of numbers: the zeros are equal, and "not a number" equals nothing. -/
def sameNumber (x y : Binary64) : Bool :=
  !x.isNaN && !y.isNaN && x.place == y.place

/-- The lesser of two numbers; a value that is no number loses against a number. -/
def lesser (x y : Binary64) : Binary64 :=
  if x.isNaN then y else if y < x then y else x

/-- The greater of two numbers; a value that is no number loses against a number. -/
def greater (x y : Binary64) : Binary64 :=
  if x.isNaN then y else if x < y then y else x

/-!
# The total order
-/

/--
A place for every value: the negative values come in reverse order of rank,
then the positive ones in order of rank.
-/
def totalPlace (x : Binary64) : Int :=
  if x.negative then -x.rank - 1 else x.rank

def totalCompare (x y : Binary64) : Ordering :=
  compare x.totalPlace y.totalPlace

instance : Ord Binary64 := ⟨totalCompare⟩

end Binary64
end LayerAxes
