import StorageGateway.Hex
import StorageGateway.Json.Number

/-!
# Tokens of JSON text

The strings and numbers of JSON text, and the blanks between them. Control characters inside
strings and numbers with leading zeros are refused.

An escape for half of a surrogate pair is put up with here; a string with one stands for no text.
A number that is too large is put up with as well; it has no value.

## Main definitions

* `Json.skipBlanks` — the text after leading blanks.
* `Json.readString` — the text of a string, if it stands for one, and what follows it.
* `Json.readUnsigned` — the value of a number, if it has one, and what follows it.
-/

namespace StorageGateway.Json

/-- The blanks that may stand between tokens. -/
def isBlank (c : Char) : Bool := c = ' ' || c = '\t' || c = '\n' || c = '\r'

/-- The characters after leading blanks. -/
def skipBlanks (cs : List Char) : List Char := cs.dropWhile isBlank

/-! ## Strings -/

/-- The character that a one-letter escape stands for. -/
def unescape? : Char → Option Nat
  | '"' => some 34
  | '\\' => some 92
  | '/' => some 47
  | 'b' => some 8
  | 'f' => some 12
  | 'n' => some 10
  | 'r' => some 13
  | 't' => some 9
  | _ => none

/-- The number that four hexadecimal digits denote. -/
def unit? (a b c d : Char) : Option Nat := do
  let a ← Hex.value? a
  let b ← Hex.value? b
  let c ← Hex.value? c
  let d ← Hex.value? d
  pure (4096 * a + 256 * b + 16 * c + d)

/-- The characters of a string up to its closing quote, as numbers, put in front of `taken` in
reverse; and the rest of the text. -/
def scanString (taken : List Nat) : List Char → Option (List Nat × List Char)
  | [] => none
  | '"' :: rest => some (taken, rest)
  | '\\' :: 'u' :: a :: b :: c :: d :: rest =>
    match unit? a b c d with
    | some n => scanString (n :: taken) rest
    | none => none
  | '\\' :: c :: rest =>
    match unescape? c with
    | some n => scanString (n :: taken) rest
    | none => none
  | c :: rest => if c = '\\' || c.toNat < 32 then none else scanString (c.toNat :: taken) rest

/-- The first half of a surrogate pair. -/
def isHigh (n : Nat) : Bool := 0xd800 ≤ n && n < 0xdc00

/-- The second half of a surrogate pair. -/
def isLow (n : Nat) : Bool := 0xdc00 ≤ n && n < 0xe000

/-- The text of scanned numbers, the last one first, put in front of `text`; `none` if half of a
surrogate pair stands alone. -/
def pairUp? (text : List Char) : List Nat → Option (List Char)
  | [] => some text
  | [n] => if isHigh n || isLow n then none else some (Char.ofNat n :: text)
  | n :: m :: rest =>
    if isLow n then
      if isHigh m then
        pairUp? (Char.ofNat (0x10000 + 1024 * (m - 0xd800) + (n - 0xdc00)) :: text) rest
      else none
    else if isHigh n then none
    else pairUp? (Char.ofNat n :: text) (m :: rest)

/-- The text of a string whose opening quote is already read, if it stands for one, and the rest. -/
def readString (cs : List Char) : Option (Option String × List Char) :=
  (scanString [] cs).map fun (taken, rest) => ((pairUp? [] taken).map String.ofList, rest)

/-! ## Numbers -/

/-- The leading digits of a text, and the rest. -/
def spanDigits (cs : List Char) : List Char × List Char :=
  (cs.takeWhile Char.isDigit, cs.dropWhile Char.isDigit)

/-- The digits of a fraction, none if there is no fraction, and the rest. -/
def readFraction : List Char → Option (List Char × List Char)
  | '.' :: cs =>
    let (digits, rest) := spanDigits cs
    if digits.isEmpty then none else some (digits, rest)
  | cs => some ([], cs)

/-- The sign of an exponent, empty if there is none, and the rest. -/
def readSign : List Char → List Char × List Char
  | '+' :: cs => (['+'], cs)
  | '-' :: cs => (['-'], cs)
  | cs => ([], cs)

/-- Whether a letter starts an exponent. -/
def isExponentMark (c : Char) : Bool := c = 'e' || c = 'E'

/-- The exponent of a number, if there is one, and the rest. -/
def readExponent : List Char → Option (Option Int × List Char)
  | c :: cs =>
    if isExponentMark c then
      let (sign, cs) := readSign cs
      let (digits, rest) := spanDigits cs
      let n := Nat.ofDigitChars 10 digits 0
      if digits.isEmpty then none else some (some (if sign = ['-'] then -n else n), rest)
    else some (none, c :: cs)
  | [] => some (none, [])

/-- Whether a number is written with a zero in front of its digits. -/
def hasLeadingZero (whole : List Char) : Bool := whole.head? = some '0' && 1 < whole.length

/-- The value of a number without its sign, if it has one, and the rest. -/
def readUnsigned (negative : Bool) (cs : List Char) : Option (Option Json × List Char) := do
  let (whole, rest) := spanDigits cs
  if whole.isEmpty || hasLeadingZero whole then none
  else
    let (fraction, rest) ← readFraction rest
    let (exponent, rest) ← readExponent rest
    pure (numberOf? negative whole fraction exponent, rest)

end StorageGateway.Json
