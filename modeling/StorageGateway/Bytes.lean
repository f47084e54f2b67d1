/-!
# Byte strings

Byte strings are lists of bytes. This module holds what every format of the library shares:
numbers written most significant byte first, strings of a fixed length, cutting a string into
pieces, and the bytes of a text.

## Main definitions

* `BigEndian.encode`, `BigEndian.decode` — a number in a fixed count of bytes, and back.
* `BigEndian.minimal` — the same without leading zero bytes.
* `FixedBytes n` — byte strings of exactly `n` bytes.
* `Bytes.chunks` — a byte string cut into pieces of equal width, the last one possibly shorter.
-/

namespace StorageGateway

/-- A byte string. -/
abbrev Bytes := List UInt8

/-- What fits in 64 bits is below this bound: `2 ^ 64`. -/
def limit64 : Nat := 0x10000000000000000

/-! ## Numbers, most significant byte first -/

namespace BigEndian

/-- The `width` low bytes of `n`, most significant first. -/
def encode : (width n : Nat) → Bytes
  | 0, _ => []
  | width + 1, n => encode width (n / 256) ++ [UInt8.ofNat n]

/-- The number that a byte string denotes, most significant byte first. -/
def decode (bs : Bytes) : Nat := bs.foldl (fun n b => 256 * n + b.toNat) 0

@[simp] theorem length_encode (width n : Nat) : (encode width n).length = width := by
  induction width generalizing n with
  | zero => rfl
  | succ width ih => simp [encode, ih]

@[simp] theorem decode_nil : decode [] = 0 := rfl

theorem decode_append_singleton (bs : Bytes) (b : UInt8) :
    decode (bs ++ [b]) = 256 * decode bs + b.toNat := by
  simp [decode]

/-- A byte string is the number it denotes, written in as many bytes. -/
theorem encode_decode (bs : Bytes) : encode bs.length (decode bs) = bs := by
  suffices h : ∀ rs : Bytes, encode rs.length (decode rs.reverse) = rs.reverse by
    simpa using h bs.reverse
  intro rs
  induction rs with
  | nil => rfl
  | cons b rs ih =>
    have hb := b.toNat_lt
    rw [List.reverse_cons, decode_append_singleton, List.length_cons, encode,
      show (256 * decode rs.reverse + b.toNat) / 256 = decode rs.reverse by omega, ih]
    congr 2
    apply UInt8.toNat_inj.mp
    simp

/-- The bytes of `n` without leading zero bytes, as long as `n` fits in `width` bytes; zero is the
empty string. -/
def minimal (width n : Nat) : Bytes := (encode width n).dropWhile (· == 0)

end BigEndian

/-! ## Byte strings of a fixed length -/

/-- A byte string of exactly `n` bytes. -/
structure FixedBytes (n : Nat) where
  /-- The bytes. -/
  toList : Bytes
  /-- There are `n` of them. -/
  length_toList : toList.length = n
deriving DecidableEq

namespace FixedBytes

variable {n : Nat}

attribute [simp] length_toList

@[ext] theorem ext {a b : FixedBytes n} (h : a.toList = b.toList) : a = b := by
  cases a; cases b; simp_all

/-- The string of `n` zero bytes. -/
def zero (n : Nat) : FixedBytes n := ⟨List.replicate n 0, by simp⟩

instance : Inhabited (FixedBytes n) := ⟨zero n⟩

/-- A byte string of the right length. -/
def ofList? (n : Nat) (bs : Bytes) : Option (FixedBytes n) :=
  if h : bs.length = n then some ⟨bs, h⟩ else none

@[simp] theorem ofList?_toList (a : FixedBytes n) : ofList? n a.toList = some a := by
  simp [ofList?]

theorem isSome_ofList?_iff {bs : Bytes} : (ofList? n bs).isSome ↔ bs.length = n := by
  unfold ofList?
  split <;> simp_all

theorem toList_of_ofList? {bs : Bytes} {a : FixedBytes n} (h : ofList? n bs = some a) :
    a.toList = bs := by
  unfold ofList? at h
  split at h
  · cases h; rfl
  · cases h

/-- The first `n` bytes of a string, which may be followed by more. -/
def take? (n : Nat) (bs : Bytes) : Option (FixedBytes n × Bytes) :=
  (ofList? n (bs.take n)).map (·, bs.drop n)

@[simp] theorem take?_append (a : FixedBytes n) (rest : Bytes) :
    take? n (a.toList ++ rest) = some (a, rest) := by
  have h : (a.toList ++ rest).take n = a.toList := by simp
  have h' : (a.toList ++ rest).drop n = rest := by simp
  simp [take?, h, h']

/-- The first `n` bytes of a string, with zero bytes for those that it lacks. -/
def padded (n : Nat) (bs : Bytes) : FixedBytes n := ⟨(bs ++ List.replicate n 0).take n, by simp⟩

/-- The number that the bytes denote, most significant byte first. -/
def toNat (a : FixedBytes n) : Nat := BigEndian.decode a.toList

/-- The `n` low bytes of a number. -/
def ofNat (n v : Nat) : FixedBytes n := ⟨BigEndian.encode n v, by simp⟩

@[simp] theorem ofNat_toNat (a : FixedBytes n) : ofNat n a.toNat = a := by
  apply ext
  simpa [ofNat, toNat] using BigEndian.encode_decode a.toList

end FixedBytes

/-! ## Pieces and paddings -/

namespace Bytes

/-- The bytes of a text. -/
def ofText (text : String) : Bytes := text.toList.flatMap String.utf8EncodeChar

/-- How many pieces of `width` bytes cover `length` bytes. -/
def pieces (width length : Nat) : Nat := (length + width - 1) / width

/-- At most `count` pieces of `width` bytes off the front. -/
def chunksUpTo (width : Nat) : (count : Nat) → Bytes → List Bytes
  | 0, _ => []
  | _ + 1, [] => []
  | count + 1, b :: bs =>
    (b :: bs).take width :: chunksUpTo width count ((b :: bs).drop width)

/-- A byte string cut into pieces of `width` bytes; the last one may be shorter. -/
def chunks (width : Nat) (bs : Bytes) : List Bytes := chunksUpTo width (pieces width bs.length) bs

end Bytes

end StorageGateway
