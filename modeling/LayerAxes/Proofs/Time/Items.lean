import LayerAxes.Proofs.Number.Product
import LayerAxes.Proofs.Text.Digits
import LayerAxes.Proofs.Time.Totals

/-!
# Items of a duration

A component is read just if it is an item: a whole number of 32 bits and the letter of
a calendar or clock unit, or a number of seconds.  Each item has its own component, and
stands for some months and some milliseconds.
-/

namespace LayerAxes
namespace Duration

/-!
# Amounts
-/

/-- Digits for a whole number of at most 32 bits. -/
@[ext]
structure Whole where
  digits : List Char
  digits_ne_nil : digits ≠ []
  all_digits : Text.AllDigits digits
  value_le : Text.digitsValue digits ≤ wholeLimit

def Whole.value (n : Whole) : Nat :=
  Text.digitsValue n.digits

theorem isUnit_of_isDigit {c : Char} (h : c.isDigit = true) : isUnit c = false := by
  have hRange : 48 ≤ c.toNat ∧ c.toNat ≤ 57 := by
    simpa [Char.isDigit, UInt32.le_iff_toNat_le] using h
  have hUpper : c.isUpper = false := by
    apply decide_eq_false
    rintro ⟨hFirst, _⟩
    have hLetter : 65 ≤ c.toNat := UInt32.le_iff_toNat_le.mp hFirst
    omega
  have hLower : c.isLower = false := by
    apply Bool.and_eq_false_imp.mpr
    intro hFirst
    have hLetter : 97 ≤ c.toNat := UInt32.le_iff_toNat_le.mp (of_decide_eq_true hFirst)
    omega
  show (c.isUpper || c.isLower) = false
  rw [hUpper, hLower, Bool.or_false]

theorem Whole.letterless (n : Whole) : Letterless n.digits :=
  fun c hc => isUnit_of_isDigit (n.all_digits c hc)

theorem whole?_eq_some_iff {cs : List Char} {k : Nat} :
    whole? cs = some k <-> exists n : Whole, n.digits = cs ∧ n.value = k := by
  unfold whole? Text.whole?
  rw [Option.filter_eq_some_iff, Option.ite_none_right_eq_some, Bool.and_eq_true,
    Bool.not_eq_true', List.isEmpty_eq_false_iff, List.all_eq_true, decide_eq_true_iff]
  constructor
  · rintro ⟨⟨⟨hSome, hDigits⟩, hValue⟩, hLimit⟩
    cases hValue
    exact ⟨⟨cs, hSome, hDigits, hLimit⟩, rfl, rfl⟩
  · rintro ⟨n, rfl, rfl⟩
    exact ⟨⟨⟨n.digits_ne_nil, n.all_digits⟩, rfl⟩, n.value_le⟩

/-- A text without letters for a finite number of seconds that is not below zero. -/
structure Seconds where
  chars : List Char
  letterless : Letterless chars
  amount : Binary64
  read : Binary64.read? chars = some amount
  finite : amount.isFinite = true
  zero_le : Binary64.zero ≤ amount

namespace Seconds

open Binary64

/-- The number nearest to a thousand times the amount. -/
def product (x : Seconds) : Binary64 :=
  x.amount * ofInt 1000

def millis (x : Seconds) : Nat :=
  x.product.round.toNat

theorem chars_ne_nil (x : Seconds) : x.chars ≠ [] := by
  intro hNil
  have hRead := x.read
  rw [hNil] at hRead
  cases hRead

theorem eq_of_chars_eq {x y : Seconds} (h : x.chars = y.chars) : x = y := by
  rcases x with ⟨chars, _, amount, hRead, _, _⟩
  rcases y with ⟨others, _, amount', hRead', _, _⟩
  cases h
  cases hRead.symm.trans hRead'
  rfl

theorem product_eq (x : Seconds) :
    x.product = ofUnits x.amount.negative (1000 * x.amount.units) 1 := by
  have hProduct := mul_ofInt (n := 1000) x.finite (by decide)
  rw [Nat.cast_ofNat] at hProduct
  exact hProduct

theorem negative_product (x : Seconds) : x.product.negative = x.amount.negative := by
  rw [product_eq, negative_ofUnits]

theorem units_product_of_negative {x : Seconds} (h : x.amount.negative = true) :
    x.product.units = 0 := by
  have hPlace : (0 : Int) ≤ x.amount.place := x.zero_le.2.2
  have hRank : x.amount.rank = 0 := by
    unfold place at hPlace
    rw [h, if_pos rfl] at hPlace
    omega
  have hUnits : x.amount.units = 0 := rankUnits_eq_zero_iff.mpr hRank
  rw [product_eq, hUnits]
  rfl

theorem size_eq_zero_of_negative {x : Seconds} (h : x.amount.negative = true) :
    (2 * x.product.units + unitsPerOne) / (2 * unitsPerOne) = 0 := by
  have hPositive := unitsPerOne_pos
  rw [units_product_of_negative h]
  exact Nat.div_eq_of_lt (by omega)

theorem round_product (x : Seconds) :
    x.product.round = ((2 * x.product.units + unitsPerOne) / (2 * unitsPerOne) : Nat) := by
  unfold Binary64.round
  dsimp only
  rw [negative_product]
  cases hSign : x.amount.negative with
  | false => rfl
  | true =>
      rw [size_eq_zero_of_negative hSign]
      rfl

theorem millis_eq (x : Seconds) :
    x.millis = (2 * x.product.units + unitsPerOne) / (2 * unitsPerOne) := by
  unfold millis
  rw [round_product, Int.toNat_natCast]

theorem isNaN_product (x : Seconds) : x.product.isNaN = false := by
  rw [product_eq]
  exact isNaN_ofUnits _ _ _

/-- An infinite product counts as the power of two after the last finite number. -/
theorem maxMillis_lt_of_isInfinite {x : Seconds} (h : x.product.isInfinite = true) :
    maxMillis < x.millis := by
  have hUnits : x.product.units = rankUnits infinityRank := congrArg rankUnits (beq_iff_eq.mp h)
  rw [millis_eq, hUnits]
  decide +kernel

theorem negative_product_of_isInfinite {x : Seconds} (h : x.product.isInfinite = true) :
    x.product.negative = false := by
  have hMost := maxMillis_lt_of_isInfinite h
  rw [negative_product]
  cases hSign : x.amount.negative with
  | false => rfl
  | true =>
      have hNone : x.millis = 0 := (millis_eq x).trans (size_eq_zero_of_negative hSign)
      omega

theorem within_product (x : Seconds) :
    x.product.within (-0x8000000000000000) 0x7FFFFFFFFFFFFFFF Binary64.round =
      (min x.millis maxMillis : Nat) := by
  have hRound : x.product.round = x.millis := by rw [round_product, millis_eq]
  unfold within
  rw [isNaN_product, if_neg Bool.false_ne_true, hRound]
  cases hInfinite : x.product.isInfinite with
  | true =>
      have hMost := maxMillis_lt_of_isInfinite hInfinite
      rw [if_pos rfl, negative_product_of_isInfinite hInfinite,
        Nat.min_eq_right (Nat.le_of_lt hMost)]
      rfl
  | false =>
      have hMost : (maxMillis : Int) = 0x7FFFFFFFFFFFFFFF := rfl
      rw [if_neg Bool.false_ne_true]
      omega

theorem secondsMillis?_chars (x : Seconds) :
    secondsMillis? x.chars = some ((min x.millis maxMillis : Nat) : Int) := by
  have hTest : (x.amount.isFinite && !decide (x.amount < Binary64.zero)) = true := by
    rw [x.finite, Bool.true_and, Bool.not_eq_true', decide_eq_false_iff_not]
    exact not_lt_of_le x.zero_le
  unfold secondsMillis?
  rw [x.read, Option.bind_some, if_pos hTest]
  exact congrArg some x.within_product

theorem exists_of_secondsMillis?_eq_some {cs : List Char} {k : Int}
    (hLetterless : Letterless cs) (h : secondsMillis? cs = some k) :
    exists x : Seconds, x.chars = cs := by
  rcases Option.bind_eq_some_iff.mp h with ⟨amount, hRead, hMore⟩
  rcases Option.ite_none_right_eq_some.mp hMore with ⟨hAmount, _⟩
  simp only [Bool.and_eq_true, Bool.not_eq_true', decide_eq_false_iff_not] at hAmount
  exact ⟨{
    chars := cs
    letterless := hLetterless
    amount
    read := hRead
    finite := hAmount.1
    zero_le := le_of_not_lt rfl (isNaN_of_isFinite hAmount.1) hAmount.2 }, rfl⟩

end Seconds

/-!
# Items
-/

namespace Share

theorem part_months (months : Nat) : part ⟨months, 0⟩ = ⟨months, 0⟩ :=
  rfl

theorem part_whole (n : Whole) {unit : Nat} (hUnit : unit ≤ 604800000) :
    part ⟨0, unit * n.value⟩ = ofMillis (n.value * unit) := by
  have hAmount : n.value ≤ 4294967295 := n.value_le
  have hMost : 604800000 * 4294967295 ≤ maxMillis := by decide
  have hLE : unit * n.value ≤ maxMillis := Nat.le_trans (Nat.mul_le_mul hUnit hAmount) hMost
  unfold part counted ofMillis
  rw [Nat.min_eq_left hLE, Nat.mul_comm, Nat.cast_mul]

end Share

inductive DateUnit where
  | year
  | month
  | week
  | day

namespace DateUnit

def letter : DateUnit -> Char
  | year => 'Y'
  | month => 'M'
  | week => 'W'
  | day => 'D'

def months : DateUnit -> Nat
  | year => 12
  | month => 1
  | week => 0
  | day => 0

def millis : DateUnit -> Nat
  | year => 0
  | month => 0
  | week => 604800000
  | day => 86400000

theorem letter_injective : Function.Injective letter := by
  intro a b h
  cases a <;> cases b <;> simp [letter] at h ⊢

end DateUnit

structure DateItem where
  amount : Whole
  unit : DateUnit

namespace DateItem

def component (i : DateItem) : List Char × Char :=
  (i.amount.digits, i.unit.letter)

def share (i : DateItem) : Share :=
  ⟨i.unit.months * i.amount.value, i.unit.millis * i.amount.value⟩

theorem isComponent (i : DateItem) : IsComponent i.component where
  amount_ne_nil := i.amount.digits_ne_nil
  amount_letterless := i.amount.letterless
  unit_letter := by
    rcases i with ⟨amount, unit⟩
    cases unit <;> rfl

theorem dateComponent?_component (i : DateItem) :
    dateComponent? i.component = some i.share.part := by
  rcases i with ⟨n, unit⟩
  have hAmount : whole? n.digits = some n.value := whole?_eq_some_iff.mpr ⟨n, rfl, rfl⟩
  unfold dateComponent? component share
  dsimp only
  rw [hAmount, Option.bind_some]
  cases unit with
  | year => simp [DateUnit.letter, DateUnit.months, DateUnit.millis, Share.part_months]
  | month => simp [DateUnit.letter, DateUnit.months, DateUnit.millis, Share.part_months]
  | week => simp [DateUnit.letter, DateUnit.months, DateUnit.millis, Share.part_whole]
  | day => simp [DateUnit.letter, DateUnit.months, DateUnit.millis, Share.part_whole]

theorem component_injective : Function.Injective component := by
  rintro ⟨n, unit⟩ ⟨m, other⟩ h
  rcases Prod.mk.inj h with ⟨hDigits, hLetter⟩
  cases Whole.ext hDigits
  cases DateUnit.letter_injective hLetter
  rfl

theorem exists_of_dateComponent?_eq_some {c : List Char × Char} {d : Duration}
    (h : dateComponent? c = some d) : exists i : DateItem, i.component = c := by
  rcases c with ⟨amount, letter⟩
  rcases Option.bind_eq_some_iff.mp h with ⟨k, hAmount, hUnit⟩
  rcases whole?_eq_some_iff.mp hAmount with ⟨n, rfl, _⟩
  dsimp only at hUnit
  split at hUnit
  · exact ⟨⟨n, .year⟩, rfl⟩
  · exact ⟨⟨n, .month⟩, rfl⟩
  · exact ⟨⟨n, .week⟩, rfl⟩
  · exact ⟨⟨n, .day⟩, rfl⟩
  · cases hUnit

theorem reads : Reads dateComponent? component share where
  isComponent := isComponent
  injective := component_injective
  read := dateComponent?_component
  only _ _ _ := exists_of_dateComponent?_eq_some

end DateItem

inductive ClockUnit where
  | hour
  | minute

namespace ClockUnit

def letter : ClockUnit -> Char
  | hour => 'H'
  | minute => 'M'

def millis : ClockUnit -> Nat
  | hour => 3600000
  | minute => 60000

theorem letter_injective : Function.Injective letter := by
  intro a b h
  cases a <;> cases b <;> simp [letter] at h ⊢

theorem letter_ne (unit : ClockUnit) : unit.letter ≠ 'S' := by
  cases unit <;> decide

end ClockUnit

inductive TimeItem where
  | clock (amount : Whole) (unit : ClockUnit)
  | seconds (amount : Seconds)

namespace TimeItem

def component : TimeItem -> List Char × Char
  | clock n unit => (n.digits, unit.letter)
  | seconds x => (x.chars, 'S')

def millis : TimeItem -> Nat
  | clock n unit => unit.millis * n.value
  | seconds x => x.millis

def share (i : TimeItem) : Share :=
  ⟨0, i.millis⟩

theorem isComponent (i : TimeItem) : IsComponent i.component := by
  cases i with
  | clock n unit =>
      exact ⟨n.digits_ne_nil, n.letterless, by cases unit <;> rfl⟩
  | seconds x => exact ⟨x.chars_ne_nil, x.letterless, rfl⟩

theorem timeComponent?_component (i : TimeItem) :
    timeComponent? i.component = some i.share.part := by
  cases i with
  | clock n unit =>
      have hAmount : whole? n.digits = some n.value := whole?_eq_some_iff.mpr ⟨n, rfl, rfl⟩
      unfold timeComponent? component share millis
      cases unit with
      | hour => simp [ClockUnit.letter, ClockUnit.millis, hAmount, Share.part_whole]
      | minute => simp [ClockUnit.letter, ClockUnit.millis, hAmount, Share.part_whole]
  | seconds x =>
      unfold timeComponent? component
      dsimp only
      rw [x.secondsMillis?_chars]
      rfl

theorem component_injective : Function.Injective component := by
  intro i j h
  rcases Prod.mk.inj h with ⟨hChars, hLetter⟩
  cases i with
  | clock n unit =>
      cases j with
      | clock m other =>
          cases Whole.ext hChars
          cases ClockUnit.letter_injective hLetter
          rfl
      | seconds y => exact absurd hLetter unit.letter_ne
  | seconds x =>
      cases j with
      | clock m other => exact absurd hLetter.symm other.letter_ne
      | seconds y => exact congrArg seconds (Seconds.eq_of_chars_eq hChars)

theorem exists_of_timeComponent?_eq_some {c : List Char × Char} (hc : IsComponent c)
    {d : Duration} (h : timeComponent? c = some d) : exists i : TimeItem, i.component = c := by
  rcases c with ⟨amount, letter⟩
  have hClock (unit : ClockUnit) {f : Int -> Duration}
      (hRead : ((whole? amount).bind fun k => some (k : Int)).map f = some d) :
      exists i : TimeItem, i.component = (amount, unit.letter) := by
    rcases Option.map_eq_some_iff.mp hRead with ⟨_, hBind, _⟩
    rcases Option.bind_eq_some_iff.mp hBind with ⟨k, hAmount, _⟩
    rcases whole?_eq_some_iff.mp hAmount with ⟨n, rfl, _⟩
    exact ⟨.clock n unit, rfl⟩
  unfold timeComponent? at h
  dsimp only at h
  split at h
  · exact hClock .hour h
  · exact hClock .minute h
  · rcases Option.map_eq_some_iff.mp h with ⟨k, hAmount, _⟩
    rcases Seconds.exists_of_secondsMillis?_eq_some hc.amount_letterless hAmount with ⟨x, rfl⟩
    exact ⟨.seconds x, rfl⟩
  · cases h

theorem reads : Reads timeComponent? component share where
  isComponent := isComponent
  injective := component_injective
  read := timeComponent?_component
  only _ hc _ := exists_of_timeComponent?_eq_some hc

end TimeItem

end Duration
end LayerAxes
