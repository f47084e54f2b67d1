import StorageGateway.Json.Token

/-!
# What follows the last byte

A byte string of fixed length may be written as an array of its bytes. Who reads one looks for a
byte after the last, to refuse it. Anything else that is found there is not refused: the reading of
the byte is given up at the place where the text turns out to be none, and the array may end at
that place.

So an array may have one item too many if that is no byte, and it may have a comma too many; but an
array or an object is given up at its opening bracket, which ends nothing.

## Main definitions

* `Json.giveUp` — the place where the reading of a byte is given up.
* `Json.endAfterComma` — the text after an array whose last byte is followed by a comma.
-/

namespace StorageGateway.Json

/-- The text after one more byte, unless that is only a part of a character. -/
def passByte : List Char → Option (List Char)
  | [] => none
  | c :: cs => if c.toNat < 128 then some cs else none

/-- The text after `count` more bytes, unless they end inside a character. -/
def passBytes : List Char → (count : Nat) → Option (List Char)
  | cs, 0 => some cs
  | [], _ + 1 => none
  | c :: cs, count + 1 =>
    if c.utf8Size ≤ count + 1 then passBytes cs (count + 1 - c.utf8Size) else none

/-- The text after a word, or after the first character that differs from it. -/
def passWord : (word : List Char) → List Char → Option (List Char)
  | [], cs => some cs
  | _ :: _, [] => none
  | w :: word, c :: cs => if c = w then passWord word cs else passByte (c :: cs)

/-! ## Strings -/

/-- The text after the closing quote of a string, or after the first character or escape that
stands for nothing. The four digits of an escape are taken as four bytes at once, whatever stands
in their place: the text is too short only if it has fewer bytes than that. -/
def passString : List Char → Option (List Char)
  | [] => none
  | '"' :: rest => some rest
  | '\\' :: 'u' :: a :: b :: c :: d :: rest =>
    match unit? a b c d with
    | none => passBytes (a :: b :: c :: d :: rest) 4
    | some n =>
      if isLow n then some rest
      else if isHigh n then
        match rest with
        | '\\' :: 'u' :: e :: f :: g :: h :: rest =>
          match unit? e f g h with
          | none => passBytes (e :: f :: g :: h :: rest) 4
          | some m => if isLow m then passString rest else some rest
        | '\\' :: 'u' :: rest => passBytes rest 4
        | '\\' :: rest => passByte rest
        | rest => passByte rest
      else passString rest
  | '\\' :: 'u' :: rest => passBytes rest 4
  | '\\' :: c :: rest =>
    match unescape? c with
    | some _ => passString rest
    | none => passByte (c :: rest)
  | c :: rest => if c.toNat < 32 then some rest else passString rest

/-! ## Numbers -/

/-- The largest exponent that is computed. -/
def maxExponent : Nat := 2147483647

/-- The text after the digits of an exponent, or after the digit that makes it too large if the
number is then too large as well. -/
def passExponentDigits (isLarge : Bool) : (exponent : Nat) → List Char → List Char
  | _, [] => []
  | exponent, c :: cs =>
    let exponent := 10 * exponent + (c.toNat - '0'.toNat)
    if !c.isDigit then c :: cs
    else if exponent ≤ maxExponent then passExponentDigits isLarge exponent cs
    else if isLarge then cs
    else cs.dropWhile Char.isDigit

/-- The text after an exponent without its letter, or after the character that is no digit of
it. -/
def passExponent (isZero : Bool) (cs : List Char) : Option (List Char) :=
  let (sign, cs) := readSign cs
  match cs with
  | [] => none
  | c :: rest =>
    if c.isDigit then some (passExponentDigits (!isZero && sign ≠ ['-']) 0 (c :: rest))
    else passByte (c :: rest)

/-- Whether a number with these digits is zero. -/
def areZero (digits : List Char) : Bool := digits.all (· = '0')

/-- The text after a fraction without its point, and after the exponent that may follow it. A
fraction without digits is given up at its end. -/
def passFraction (whole cs : List Char) : Option (List Char) :=
  let (fraction, rest) := spanDigits cs
  match rest with
  | [] => none
  | c :: cs =>
    if !fraction.isEmpty && isExponentMark c then passExponent (areZero (whole ++ fraction)) cs
    else some (c :: cs)

/-- The text after a number without its sign, or up to where it is malformed; `none` if the number
is a byte, or has a leading zero, after which nothing can end. -/
def passUnsigned (negative : Bool) (cs : List Char) : Option (List Char) :=
  let (whole, rest) := spanDigits cs
  if whole.isEmpty then passByte rest
  else if hasLeadingZero whole then none
  else
    match rest with
    | [] => none
    | c :: cs =>
      if c = '.' then passFraction whole cs
      else if isExponentMark c then passExponent (areZero whole) cs
      else if negative || 256 ≤ Nat.ofDigitChars 10 whole 0 then some (c :: cs)
      else none

/-! ## Items -/

/-- The place where the reading of a byte is given up; `none` if there is a byte, or if the text
ends before. -/
def giveUp : List Char → Option (List Char)
  | 'n' :: rest => passWord ['u', 'l', 'l'] rest
  | 't' :: rest => passWord ['r', 'u', 'e'] rest
  | 'f' :: rest => passWord ['a', 'l', 's', 'e'] rest
  | '"' :: rest => passString rest
  | '-' :: rest => passUnsigned true rest
  | c :: rest => if c.isDigit then passUnsigned false (c :: rest) else some (c :: rest)
  | [] => none

/-- The text after the closing bracket of an array whose last byte is followed by a comma. -/
def endAfterComma (cs : List Char) : Option (List Char) :=
  match (giveUp (skipBlanks cs)).map skipBlanks with
  | some (']' :: rest) => some rest
  | _ => none

end StorageGateway.Json
