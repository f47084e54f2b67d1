import StorageGateway.Binary64

/-!
# The shortest decimal form

A binary number stands for all the numbers that round to it. Among the decimal numbers there,
those with the fewest digits are singled out, and among those the nearest to the binary number,
or the one whose last digit is even if there are two.

Everything is counted in quarters of a unit, so that the ends of the interval are integers, and
compared by multiplying out.

## Main definitions

* `Binary64.isInside` — whether a number lies in the interval.
* `Binary64.shortest` — the shortest decimal form.
-/

namespace StorageGateway

/-- A decimal number: the first of its digits, a point, the others, and all that times
`10 ^ exponent`. -/
structure Scientific where
  /-- The digits, of which there is at least one. -/
  digits : List Char
  /-- The place of the first digit. -/
  exponent : Int

namespace Scientific

/-- The digits without zeros at the end. -/
def dropZeros (digits : List Char) : List Char := (digits.reverse.dropWhile (· = '0')).reverse

/-- The number `n * 10 ^ place`, which is not zero. -/
def ofScaled (n : Nat) (place : Int) : Scientific :=
  let digits := Nat.toDigits 10 n
  { digits := dropZeros digits, exponent := place + digits.length - 1 }

/-- The number zero. -/
def zero : Scientific := { digits := ['0'], exponent := 0 }

end Scientific

namespace Binary64

/-! ## The interval -/

/-- The size in quarters of a unit. -/
def quarters (x : Binary64) : Nat := 4 * x.units

/-- Whether the next smaller number is only half as far away as the next larger one. -/
def isNarrowBelow (x : Binary64) : Bool := 2 * x.mantissa = mantissaLimit && x.exponent ≠ 0

/-- The lower end of the interval, in quarters of a unit. -/
def lowerEnd (x : Binary64) : Nat :=
  x.quarters - (if x.isNarrowBelow then 1 else 2) <<< x.exponent

/-- The upper end of the interval, in quarters of a unit. -/
def upperEnd (x : Binary64) : Nat := x.quarters + 2 <<< x.exponent

/-- Whether `num / den` quarters of a unit round to a number. The ends round to the even one of two
neighbours. -/
def isInside (x : Binary64) (num den : Nat) : Bool :=
  let low := x.lowerEnd * den
  let high := x.upperEnd * den
  if x.mantissa % 2 = 0 then low ≤ num && num ≤ high else low < num && num < high

/-! ## The search -/

/-- The numerator of `10 ^ place` in quarters of a unit. -/
def placeNum (place : Int) : Nat := Nat.pow 10 place.toNat <<< (unitDigits + 2)

/-- The denominator of `10 ^ place` in quarters of a unit. -/
def placeDen (place : Int) : Nat := Nat.pow 10 (-place).toNat

/-- The multiple of `10 ^ place` that is nearest to a number. -/
def nearestAt (x : Binary64) (place : Int) : Nat :=
  roundQuotient (x.quarters * placeDen place) (placeNum place)

/-- The multiple of `10 ^ place` in the interval that is nearest to the number. Only the two next
to the number are looked at, for there is none in the interval if they are not. -/
def insideAt? (x : Binary64) (place : Int) : Option Nat :=
  let num := placeNum place
  let den := placeDen place
  let below := x.quarters * den / num
  match x.isInside (below * num) den, x.isInside ((below + 1) * num) den with
  | true, true => some (x.nearestAt place)
  | true, false => some below
  | false, true => some (below + 1)
  | false, false => none

/-- The number of decimal places between the point and the first digit of the unit. -/
def unitPlaces : Nat := 324

/-- The place of the first decimal digit of a number that is not zero. -/
def firstPlace (x : Binary64) : Int :=
  let scaled := (x.units * Nat.pow 10 unitPlaces) >>> unitDigits
  (Nat.toDigits 10 scaled).length - 1 - unitPlaces

/-- As many decimal digits as it takes at most to tell a number from all others. -/
def enoughDigits : Nat := 17

/-- The shortest decimal form. With as many digits as are ever needed the nearest decimal number is
always in the interval. -/
def shortest (x : Binary64) : Scientific :=
  if x.isZero then .zero
  else
    let first := x.firstPlace
    let last := first - (enoughDigits - 1 : Nat)
    let shorter := (List.range (enoughDigits - 1)).findSome? fun (behind : Nat) =>
      (x.insideAt? (first - behind)).map fun n => Scientific.ofScaled n (first - behind)
    shorter.getD (.ofScaled (x.nearestAt last) last)

end Binary64

end StorageGateway
