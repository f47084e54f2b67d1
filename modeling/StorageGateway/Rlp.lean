import StorageGateway.Slot

/-!
# RLP

The recursive length encoding of trie nodes, account leaves and block headers. An item is a byte
string or a list, and starts with a header that gives its kind and the length of its payload; a
single byte below `0x80` is its own item and has no header.

Each item has exactly one encoding: readers refuse lengths and numbers that are written longer
than needed.

## Main definitions

* `Rlp.Reader` — reads an item off the front of a byte string.
* `Rlp.Header` — kind and payload length of an item, with `Header.encode` and `Header.read`.
* `Rlp.string`, `Rlp.number`, `Rlp.list` — encoders, and `Rlp.readString`, `Rlp.readNumber`,
  `Rlp.readFixed`, `Rlp.readStrings` — the readers beside them.
* `Rlp.headerLength`, `Rlp.stringLength`, `Rlp.numberLength` — encoded lengths, computed without
  encoding.
-/

namespace StorageGateway.Rlp

/-- Why a byte string is no encoding of what was asked for. -/
inductive Error where
  /-- A number has more bytes than its type. -/
  | overflow
  /-- A number or a length starts with a zero byte. -/
  | leadingZero
  /-- The input ends inside the item. -/
  | inputTooShort
  /-- A byte below `0x80` has a header. -/
  | nonCanonicalSingleByte
  /-- A length below 56 is written in long form. -/
  | nonCanonicalSize
  /-- A string of another length was wanted, or bytes are left. -/
  | unexpectedLength
  /-- A list was wanted. -/
  | unexpectedString
  /-- A string was wanted. -/
  | unexpectedList
  /-- The fields of a list do not end where its payload ends. -/
  | listLengthMismatch (expected got : Nat)
deriving DecidableEq, Repr

/-- The wording of an error. -/
def Error.message : Error → String
  | overflow => "overflow"
  | leadingZero => "leading zero"
  | inputTooShort => "input too short"
  | nonCanonicalSingleByte => "non-canonical single byte"
  | nonCanonicalSize => "non-canonical size"
  | unexpectedLength => "unexpected length"
  | unexpectedString => "unexpected string"
  | unexpectedList => "unexpected list"
  | listLengthMismatch expected got => s!"unexpected list length (got {got}, expected {expected})"

/-- Reads a value off the front of a byte string. -/
abbrev Reader := StateT Bytes (Except Error)

/-! ## Item headers -/

/-- The kind of an item and the length of its payload. -/
structure Header where
  /-- Whether the payload is a sequence of items. -/
  isList : Bool
  /-- How many bytes follow the header. -/
  payloadLength : Nat
deriving DecidableEq, Repr

namespace Header

/-- The first byte of an empty string or list. -/
def base (isList : Bool) : Nat := if isList then 0xc0 else 0x80

/-- A length below 56 is added to the first byte; any other follows it, in the fewest bytes. -/
def encode (h : Header) : Bytes :=
  if h.payloadLength < 56 then [UInt8.ofNat (base h.isList + h.payloadLength)]
  else
    let digits := BigEndian.minimal 8 h.payloadLength
    UInt8.ofNat (base h.isList + 55 + digits.length) :: digits

/-- A length written in `width` bytes at the front of `buffer`. -/
def readLength (width : Nat) : Reader Nat := fun buffer =>
  if buffer.length < width then .error .inputTooShort
  else if buffer.head? = some 0 then .error .leadingZero
  else
    let n := BigEndian.decode (buffer.take width)
    if n < 56 then .error .nonCanonicalSize else .ok (n, buffer.drop width)

/-- The header that a first byte announces. The header of a single byte is empty. -/
def readStart : Reader Header := fun buffer =>
  match buffer with
  | [] => .error .inputTooShort
  | b :: rest =>
    if b.toNat < 0x80 then .ok (⟨false, 1⟩, buffer)
    else if b = 0x81 then
      match rest with
      | [] => .error .inputTooShort
      | c :: _ => if c.toNat < 0x80 then .error .nonCanonicalSingleByte else .ok (⟨false, 1⟩, rest)
    else if b.toNat < 0xb8 then .ok (⟨false, b.toNat - 0x80⟩, rest)
    else if b.toNat < 0xc0 then
      (readLength (b.toNat - 0xb7) rest).map fun (n, rest) => (⟨false, n⟩, rest)
    else if b.toNat < 0xf8 then .ok (⟨true, b.toNat - 0xc0⟩, rest)
    else (readLength (b.toNat - 0xf7) rest).map fun (n, rest) => (⟨true, n⟩, rest)

/-- The header of the item at the front, whose payload must be there in full. -/
def read : Reader Header := fun buffer => do
  let (h, rest) ← readStart buffer
  if rest.length < h.payloadLength then .error .inputTooShort else .ok (h, rest)

end Header

/-- The first `n` bytes, which the caller knows to be there. -/
def readRaw (n : Nat) : Reader Bytes := fun buffer => .ok (buffer.take n, buffer.drop n)

/-! ## Strings -/

/-- The encoding of a byte string. -/
def string (bs : Bytes) : Bytes :=
  match bs with
  | [b] => if b.toNat < 0x80 then [b] else Header.encode ⟨false, 1⟩ ++ [b]
  | _ => Header.encode ⟨false, bs.length⟩ ++ bs

/-- Reads a byte string. -/
def readString : Reader Bytes := do
  let h ← Header.read
  if h.isList then throw .unexpectedList
  readRaw h.payloadLength

/-- Reads a byte string of exactly `n` bytes. -/
def readFixed (n : Nat) : Reader (FixedBytes n) := do
  let bs ← readString
  match FixedBytes.ofList? n bs with
  | some a => pure a
  | none => throw .unexpectedLength

/-! ## Numbers -/

/-- The encoding of a number: the string of its bytes without leading zeros. -/
def number {w : Nat} (n : BitVec w) : Bytes := string (BigEndian.minimal (w / 8) n.toNat)

/-- Reads a number of `w` bits. -/
def readNumber (w : Nat) : Reader (BitVec w) := do
  let bs ← readString
  if bs.head? = some 0 then throw .leadingZero
  if w / 8 < bs.length then throw .overflow
  pure (BitVec.ofNat w (BigEndian.decode bs))

/-! ## Lists -/

/-- The encoding of a list whose items are encoded one after the other in `payload`. -/
def list (payload : Bytes) : Bytes := Header.encode ⟨true, payload.length⟩ ++ payload

/-- Reads the header of a list. -/
def readListHeader : Reader Nat := do
  let h ← Header.read
  if h.isList then pure h.payloadLength else throw .unexpectedString

/-- The strings of a payload that holds at most `count` of them. -/
def stringsUpTo : (count : Nat) → Bytes → Except Error (List Bytes)
  | _, [] => .ok []
  | 0, _ :: _ => .error .unexpectedLength
  | count + 1, b :: bs => do
    let (s, rest) ← readString (b :: bs)
    let more ← stringsUpTo count rest
    pure (s :: more)

/-- Reads a list of byte strings; each string takes at least one byte of the payload. -/
def readStrings : Reader (List Bytes) := do
  let n ← readListHeader
  let payload ← readRaw n
  stringsUpTo payload.length payload

/-- The encoding of a list of byte strings. -/
def strings (items : List Bytes) : Bytes := list (items.flatMap string)

/-! ## Lengths -/

/-- How many bytes a nonzero number takes without leading zeros. -/
def byteCount (n : Nat) : Nat := n.log2 / 8 + 1

/-- The length of the header of a payload of `n` bytes. -/
def headerLength (n : Nat) : Nat := if n < 56 then 1 else 1 + byteCount n

/-- The length of the encoding of a byte string. -/
def stringLength (bs : Bytes) : Nat :=
  match bs with
  | [b] => if b.toNat < 0x80 then 1 else 2
  | _ => headerLength bs.length + bs.length

/-- The length of the encoding of a number. -/
def numberLength (n : Nat) : Nat := if n < 0x80 then 1 else 1 + byteCount n

end StorageGateway.Rlp
