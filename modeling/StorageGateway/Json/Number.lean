import StorageGateway.Binary64.Shortest
import StorageGateway.Bytes
import StorageGateway.Json

/-!
# Numbers in JSON

An integer that fits in 64 bits, with or without a sign, is kept as it is. Any other number is
rounded to a binary one, and written with the fewest digits that are read as that number.

Negative zero is no integer.

## Main definitions

* `Json.numberOf?` — the value of a number from the digits that it is written with.
* `Json.realText` — how a number is written that is no integer.
-/

namespace StorageGateway.Json

/-! ## Reading -/

/-- The number that digits denote after `n`, taken as long as it fits in 64 bits, and the digits
that are left. -/
def takeDigits : (n : Nat) → List Char → Nat × List Char
  | n, [] => (n, [])
  | n, c :: cs =>
    let m := 10 * n + (c.toNat - '0'.toNat)
    if m < limit64 then takeDigits m cs else (n, c :: cs)

/-- The binary number for `whole.fraction * 10 ^ exponent`, unless it is too large. Of the whole
digits and of those of the fraction, the ones from the first that no longer fits in 64 bits only
count as places. -/
def magnitude? (whole fraction : List Char) (exponent : Int) : Option Binary64 :=
  let (n, skipped) := takeDigits 0 whole
  let (m, unread) := takeDigits n fraction
  let places : Int := fraction.length - unread.length
  (Binary64.ofNat m).scale? (exponent + skipped.length - places)

/-- Whether an integer fits in 64 bits, with a sign if it is negative. -/
def fits64 (n : Int) : Bool := -(limit64 / 2 : Nat) ≤ n && n < limit64

/-- The value of a number from its digits and its exponent, if it has one; `none` if it is too
large. -/
def numberOf? (negative : Bool) (whole fraction : List Char) (exponent : Option Int) :
    Option Json :=
  let n := Nat.ofDigitChars 10 whole 0
  let signed : Int := if negative then -n else n
  if fraction.isEmpty && exponent.isNone && !(negative && n = 0) && fits64 signed then
    some (int signed)
  else (magnitude? whole fraction (exponent.getD 0)).map (real negative)

/-! ## Writing -/

/-- The places of a first digit for which a number is written without an exponent. -/
def isPlain (place : Int) : Bool := -5 ≤ place && place ≤ 15

/-- A number without an exponent, always with a digit after the point. -/
def plainText (s : Scientific) : List Char :=
  match s.exponent with
  | .ofNat place =>
    let whole := s.digits.take (place + 1)
    let fraction := s.digits.drop (place + 1)
    whole ++ List.replicate (place + 1 - whole.length) '0' ++ ['.'] ++
      (if fraction.isEmpty then ['0'] else fraction)
  | .negSucc zeros => ['0', '.'] ++ List.replicate zeros '0' ++ s.digits

/-- An exponent, which always has a sign. -/
def exponentText (place : Int) : List Char :=
  (if place < 0 then '-' else '+') :: Nat.toDigits 10 place.natAbs

/-- A number with an exponent, with a point only if digits follow it. -/
def scientificText (s : Scientific) : List Char :=
  let rest := s.digits.drop 1
  s.digits.take 1 ++ (if rest.isEmpty then [] else '.' :: rest) ++ ['e'] ++ exponentText s.exponent

/-- A number that is no integer. -/
def realText (negative : Bool) (magnitude : Binary64) : String :=
  let s := magnitude.shortest
  String.ofList ((if negative then ['-'] else []) ++
    (if isPlain s.exponent then plainText s else scientificText s))

end StorageGateway.Json
