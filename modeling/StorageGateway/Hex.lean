import StorageGateway.Bytes

/-!
# Hexadecimal text

Byte strings are shown as `0x` and two lower-case digits per byte, numbers as `0x` and the fewest
lower-case digits. Reading accepts digits of either case.

## Main definitions

* `Hex.ofBytes`, `Hex.quantity` — the two ways of showing.
* `Hex.bytes?` — reading a byte string, whose `0x` may be left out.
* `Hex.read` — the same, with the `Flaw` of a text that is none.
-/

namespace StorageGateway.Hex

/-- The lower-case digit of a number below sixteen. -/
def digit (n : Nat) : Char := Nat.digitChar n

/-- The value of a hexadecimal digit of either case. -/
def value? (c : Char) : Option Nat :=
  if '0' ≤ c ∧ c ≤ '9' then some (c.toNat - '0'.toNat)
  else if 'a' ≤ c ∧ c ≤ 'f' then some (c.toNat - 'a'.toNat + 10)
  else if 'A' ≤ c ∧ c ≤ 'F' then some (c.toNat - 'A'.toNat + 10)
  else none

/-- The two digits of a byte. -/
def pair (b : UInt8) : List Char := [digit (b.toNat / 16), digit (b.toNat % 16)]

/-- The digits of a byte string, two per byte. -/
def digits (bs : Bytes) : String := String.ofList (bs.flatMap pair)

/-- A byte string with its `0x`. -/
def ofBytes (bs : Bytes) : String := "0x" ++ digits bs

/-- A number with its `0x` and no leading zeros. -/
def quantity (n : Nat) : String := "0x" ++ String.ofList (Nat.toDigits 16 n)

/-- The bytes that pairs of digits stand for. -/
def pairs? : List Char → Option Bytes
  | [] => some []
  | [_] => none
  | hi :: lo :: rest =>
    match value? hi, value? lo, pairs? rest with
    | some h, some l, some bs => some (UInt8.ofNat (16 * h + l) :: bs)
    | _, _, _ => none

/-- The characters after a leading `0x` or `0X`, if there is one. -/
def withoutMark : List Char → List Char
  | '0' :: 'x' :: rest => rest
  | '0' :: 'X' :: rest => rest
  | cs => cs

/-- Reads a byte string; the `0x` may be left out. -/
def bytes? (text : String) : Option Bytes := pairs? (withoutMark text.toList)

/-- Reads a byte string of exactly `n` bytes. -/
def fixed? (n : Nat) (text : String) : Option (FixedBytes n) :=
  (bytes? text).bind (FixedBytes.ofList? n)

/-! ## Flaws -/

/-- Why a text is no byte string. -/
inductive Flaw where
  /-- A digit is left over. -/
  | oddLength
  /-- A byte of the text is no digit. -/
  | noDigit (byte : UInt8) (position : Nat)
deriving DecidableEq

/-- A byte as a character in quotes; blanks and other marks that do not show are escaped. -/
def quotedByte (b : UInt8) : String :=
  let n := b.toNat
  let inside :=
    if n = 0 then "\\0"
    else if n = 9 then "\\t"
    else if n = 10 then "\\n"
    else if n = 13 then "\\r"
    else if n = 39 || n = 92 then "\\" ++ String.singleton (Char.ofNat n)
    else if n < 32 || (127 ≤ n && n ≤ 160) || n = 173 then
      "\\u\x7b" ++ String.ofList (Nat.toDigits 16 n) ++ "\x7d"
    else String.singleton (Char.ofNat n)
  "'" ++ inside ++ "'"

/-- The wording of a flaw. -/
def Flaw.message : Flaw → String
  | oddLength => "odd number of digits"
  | noDigit byte position => s!"invalid character {quotedByte byte} at position {position}"

/-- The flaw of a text that is no byte string; positions count the bytes after the `0x`. -/
def flaw (text : String) : Flaw :=
  let bs := Bytes.ofText (String.ofList (withoutMark text.toList))
  if bs.length % 2 = 1 then .oddLength
  else
    match bs.zipIdx.find? fun (b, _) => (value? (Char.ofNat b.toNat)).isNone with
    | some (b, i) => .noDigit b i
    | none => .oddLength

/-- Reads a byte string, or tells what is wrong with the text. -/
def read (text : String) : Except Flaw Bytes :=
  match bytes? text with
  | some bs => .ok bs
  | none => .error (flaw text)

/-! ## Reading what is shown -/

theorem value?_digit {n : Nat} (h : n < 16) : value? (digit n) = some n := by
  have : ∀ m : Fin 16, value? (digit m.val) = some m.val := by decide
  exact this ⟨n, h⟩

theorem pairs?_flatMap_pair (bs : Bytes) : pairs? (bs.flatMap pair) = some bs := by
  induction bs with
  | nil => rfl
  | cons b bs ih =>
    have hb := b.toNat_lt
    simp only [List.flatMap_cons, pair, List.cons_append, List.nil_append, pairs?, ih,
      value?_digit (show b.toNat / 16 < 16 by omega), value?_digit (Nat.mod_lt _ (by omega))]
    congr 2
    apply UInt8.toNat_inj.mp
    rw [UInt8.toNat_ofNat']
    omega

/-- Reading a shown byte string gives it back. -/
theorem bytes?_ofBytes (bs : Bytes) : bytes? (ofBytes bs) = some bs := by
  simp [bytes?, ofBytes, digits, String.toList_append, withoutMark, pairs?_flatMap_pair]

theorem fixed?_ofBytes {n : Nat} (a : FixedBytes n) : fixed? n (ofBytes a.toList) = some a := by
  simp [fixed?, bytes?_ofBytes]

end StorageGateway.Hex
