import OpMachine.Floating.Layout
import OpMachine.Text.Digits

namespace OpMachine
namespace Floating

/-!
Decimal digits of binary floating-point numbers.

There are two ways to choose the digits.  The shortest form has the fewest
digits that still read back as the same number: among the multiples of the
largest power of ten that hit the rounding interval, it takes the one nearest
to the number, and the larger one when two are equally near.  The fixed form
rounds the exact value to a number of places, an exact half going to the even
neighbour.  Both are computed with exact integers.
-/

structure Decimal where
  digits : Nat
  exponent : Int

/-- Positional text: the digits with zeros filled up to the units, and a point
when there are places after it. -/
def Decimal.text (number : Decimal) : List Char :=
  let digits := Text.decimalDigits number.digits
  if 0 ≤ number.exponent then
    digits ++ List.replicate number.exponent.toNat '0'
  else
    let places := (-number.exponent).toNat
    let filled := Text.padLeft '0' (places + 1) digits
    filled.take (filled.length - places) ++ '.' :: filled.drop (filled.length - places)

/-- The reals that round to a number, scaled to integers.  With the unit
`2 ^ scale` the number itself is `middle`, and the interval reaches from `low`
to `high`, its ends included when `closed` holds. -/
structure Interval where
  low : Nat
  middle : Nat
  high : Nat
  scale : Int
  closed : Bool

namespace Interval

/-- The rounding interval of a finite number.  Below a power of two the
neighbour is only half as far away. -/
def of (layout : Layout) (number : Finite) : Interval :=
  let atPower := number.significand = layout.hiddenBit
    ∧ layout.leastExponent < number.exponent
  { low := 4 * number.significand - (if atPower then 1 else 2)
    middle := 4 * number.significand
    high := 4 * number.significand + 2
    scale := number.exponent - 2
    closed := number.significand % 2 == 0 }

variable (interval : Interval)

/-- The numerator and denominator that put a multiple of `10 ^ exponent` and a
multiple of the interval's unit over one denominator. -/
def factors (exponent : Int) : Nat × Nat :=
  (Nat.pow 10 exponent.toNat <<< (-interval.scale).toNat,
    Nat.pow 10 (-exponent).toNat <<< interval.scale.toNat)

/-- Whether a value, already over the common denominator, lies in the interval. -/
def contains (unit value : Nat) : Bool :=
  let low := interval.low * unit
  let high := interval.high * unit
  if interval.closed then low ≤ value && value ≤ high else low < value && value < high

/-- The multiple of `10 ^ exponent` nearest to the number, if one of the two
around the number lies in the interval. -/
def multiple? (exponent : Int) : Option Nat :=
  let (ten, unit) := interval.factors exponent
  let middle := interval.middle * unit
  let below := middle / ten
  let above := below + 1
  match interval.contains unit (below * ten), interval.contains unit (above * ten) with
  | true, true =>
      if middle - below * ten < above * ten - middle then some below else some above
  | true, false => some below
  | false, true => some above
  | false, false => none

/-- The first exponent, going down, for which a multiple lies in the interval. -/
def search (interval : Interval) : Nat -> Int -> Option Decimal
  | 0, _ => none
  | steps + 1, exponent =>
      match interval.multiple? exponent with
      | some digits => some ⟨digits, exponent⟩
      | none => interval.search steps (exponent - 1)

def startExponent : Int :=
  let numerator := interval.high <<< interval.scale.toNat
  let denominator := 1 <<< (-interval.scale).toNat
  if denominator ≤ numerator then
    (Text.decimalDigits (numerator / denominator)).length
  else
    2 - (Text.decimalDigits (denominator / numerator)).length

end Interval

def shortest (layout : Layout) (number : Finite) : Decimal :=
  if number.significand = 0 then ⟨0, 0⟩
  else
    let interval := Interval.of layout number
    (interval.search 24 interval.startExponent).getD ⟨0, 0⟩

/-- A quotient rounded to the nearest integer, an exact half to the even one. -/
def roundHalfEven (numerator denominator : Nat) : Nat :=
  let quotient := numerator / denominator
  let twice := 2 * (numerator % denominator)
  if twice < denominator then quotient
  else if denominator < twice then quotient + 1
  else quotient + quotient % 2

/-- A number rounded to decimal places. -/
def fixed (places : Nat) (number : Finite) : Decimal :=
  let numerator := (number.significand <<< number.exponent.toNat) * Nat.pow 10 places
  let denominator := 1 <<< (-number.exponent).toNat
  ⟨roundHalfEven numerator denominator, -places⟩

/-- The text of what a word stands for, given how digits are chosen. -/
def textOf (choose : Finite -> Decimal) : Reading -> List Char
  | .nan => "NaN".toList
  | .infinite false => "inf".toList
  | .infinite true => "-inf".toList
  | .finite number =>
      if number.negative then '-' :: (choose number).text else (choose number).text

def text (number : Float) : String :=
  .ofList (textOf (shortest .double) (Layout.double.read number.toBits.toNat))

def text32 (number : Float32) : String :=
  .ofList (textOf (shortest .single) (Layout.single.read number.toBits.toNat))

def fixedText (places : Nat) (number : Float) : List Char :=
  textOf (fixed places) (Layout.double.read number.toBits.toNat)

end Floating
end OpMachine
