/-!
# Binary numbers with 53 digits

The numbers that 64 bits hold in the usual way, without their sign. Each is a multiple of the
least one above zero, the unit `2 ^ -1074`. There is no largest number here; whether one is small
enough for its 64 bits is asked where it matters.

Results are rounded to the nearest number, half-way cases to the one with the even mantissa.

## Main definitions

* `Binary64` — the numbers, and `Binary64.units` — their sizes in units.
* `Binary64.round` — the number nearest to a quotient of units.
* `Binary64.mul`, `Binary64.div` — rounded products and quotients.
* `Binary64.scale?` — a number times a power of ten.
-/

namespace StorageGateway

/-- The least number that has more than 53 binary digits. -/
def mantissaLimit : Nat := 0x20000000000000

/-- The number `mantissa * 2 ^ exponent` units. -/
structure Binary64 where
  /-- The leading binary digits; 53 of them, unless the exponent is zero. -/
  mantissa : Nat
  /-- The number of binary digits between the mantissa and the unit. -/
  exponent : Nat
deriving DecidableEq

namespace Binary64

/-- A unit is `2 ^ -unitDigits`. -/
def unitDigits : Nat := 1074

/-- The largest exponent that 64 bits have room for. -/
def maxExponent : Nat := 2045

/-- The size in units. -/
def units (x : Binary64) : Nat := x.mantissa <<< x.exponent

/-- Whether the number is zero. -/
def isZero (x : Binary64) : Bool := x.mantissa = 0

/-! ## Rounding -/

/-- The integer nearest to a quotient, the even one of two. -/
def roundQuotient (num den : Nat) : Nat :=
  let quotient := num / den
  let twice := 2 * (num % den)
  if twice < den ∨ (twice = den ∧ quotient % 2 = 0) then quotient else quotient + 1

/-- The number nearest to `num / den` units. A mantissa that is rounded up to a 54th digit is the
power of two below it with the next exponent. -/
def round (num den : Nat) : Binary64 :=
  let exponent := (num / den).log2 - 52
  let mantissa := roundQuotient num (den <<< exponent)
  if mantissa < mantissaLimit then ⟨mantissa, exponent⟩ else ⟨mantissa / 2, exponent + 1⟩

/-- The number nearest to a natural number. -/
def ofNat (n : Nat) : Binary64 := round (n <<< unitDigits) 1

/-- The rounded product. -/
def mul (x y : Binary64) : Binary64 := round (x.units * y.units) (1 <<< unitDigits)

/-- The rounded quotient. -/
def div (x y : Binary64) : Binary64 := round (x.units <<< unitDigits) y.units

/-! ## Powers of ten -/

/-- The last power of ten that 64 bits have room for. -/
def maxTens : Nat := 308

/-- The number nearest to a power of ten. -/
def powerOfTen (n : Nat) : Binary64 := ofNat (Nat.pow 10 n)

/-- A number divided by a power of ten, at most 308 places at a time. -/
def scaleDown (x : Binary64) (places : Nat) : Binary64 :=
  if places ≤ maxTens then x.div (powerOfTen places)
  else if x.isZero then x
  else (x.div (powerOfTen maxTens)).scaleDown (places - maxTens)
termination_by places
decreasing_by simp only [maxTens] at *; omega

/-- A number multiplied by a power of ten, unless 64 bits have no room for the result. -/
def scaleUp? (x : Binary64) (places : Nat) : Option Binary64 :=
  if places ≤ maxTens then
    let y := x.mul (powerOfTen places)
    if y.exponent ≤ maxExponent then some y else none
  else if x.isZero then some x
  else none

/-- A number times `10 ^ places`, unless 64 bits have no room for the result. Powers of ten and
the results of every step are rounded, so the answer may be next to the nearest number. -/
def scale? (x : Binary64) : (places : Int) → Option Binary64
  | .ofNat places => x.scaleUp? places
  | .negSucc places => some (x.scaleDown (places + 1))

end Binary64

end StorageGateway
