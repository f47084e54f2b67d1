import StorageGateway.Abi.Part

/-!
# Encodings of call data

A `Codec` encodes the values of one type, a `Fields` the values of a sequence of types. They are
built from the few types that requests, answers and proofs use: words, byte strings, arrays and
tuples.

Decoding is strict. `Fields.decode` reads the values, encodes them again, and refuses any input
that differs from the result; so each sequence of values has one encoding, whatever a reader on
its own would put up with.

## Main definitions

* `Codec.word`, `Codec.address`, `Codec.uint64`, `Codec.bytes`, `Codec.array`, `Codec.tuple`.
* `Fields.single`, `Fields.cons` — sequences.
* `Fields.encode`, `Fields.decode` — the encoding of a sequence that stands alone.
-/

namespace StorageGateway.Abi

/-- The encoding of the values of one type. -/
structure Codec (α : Type) where
  /-- Whether values are reached through an offset. -/
  isDynamic : Bool
  /-- How many bytes a reader sets aside for a value, its byte strings and arrays not counted. -/
  footprint : Nat
  /-- The bytes of a value. -/
  encode : α → Bytes
  /-- Reads a value off the front. -/
  read : Bytes → Except Error (α × Bytes)
  /-- Whether the words of a value are in the range of their types. -/
  valid : α → Bool

/-- The encoding of the values of a sequence of types. -/
structure Fields (α : Type) where
  /-- Whether some value is reached through an offset. -/
  isDynamic : Bool
  /-- How many bytes a reader sets aside for the values. -/
  footprint : Nat
  /-- The parts of the values. -/
  parts : α → List Part
  /-- Reads the values off the front of the second string; offsets count from the start of the
  first. -/
  read : (base input : Bytes) → Except Error (α × Bytes)
  /-- Whether the words of the values are in the range of their types. -/
  valid : α → Bool

namespace Codec

variable {α : Type}

/-- The part that a value is in a sequence. -/
def part (c : Codec α) (a : α) : Part := ⟨c.isDynamic, c.encode a⟩

/-- Reads a value whose head is at the front of `input`. -/
def readHead (c : Codec α) (base input : Bytes) : Except Error (α × Bytes) :=
  if c.isDynamic then do
    let (offset, rest) ← readSize input
    if base.length < offset then throw .overrun
    let (a, _) ← c.read (base.drop offset)
    pure (a, rest)
  else c.read input

/-- A word of which any value is in range. -/
def word : Codec Word where
  isDynamic := false
  footprint := 32
  encode w := w.toList
  read := readWord
  valid _ := true

/-- A word that holds an address: its upper twelve bytes are zero. -/
def address : Codec Word :=
  { word with valid := fun w => (w.toList.take 12).all (· == 0) }

/-- A word that holds a number below `2 ^ 64`. -/
def uint64 : Codec Word :=
  { word with valid := fun w => (w.toList.take 24).all (· == 0) }

/-- A byte string: its length, then its bytes, padded with zeros to whole words. -/
def bytes : Codec Bytes where
  isDynamic := true
  footprint := 16
  encode bs := sizeWord bs.length ++ bs ++ List.replicate ((32 - bs.length % 32) % 32) 0
  read input := do
    let (n, rest) ← readSize input
    if rest.length < n then throw .overrun
    pure (rest.take n, rest.drop n)
  valid _ := true

/-- Reads `count` values whose heads follow each other. -/
def readMany (c : Codec α) (base : Bytes) : (count : Nat) → Bytes → Except Error (List α × Bytes)
  | 0, input => .ok ([], input)
  | count + 1, input => do
    let (a, input) ← c.readHead base input
    let (as, input) ← readMany c base count input
    pure (a :: as, input)

/-- What a reader sets aside for an array stays below this size: `2 ^ 63`. -/
def addressable : Nat := 0x8000000000000000

/-- An array: its count, then its elements as a sequence. -/
def array (c : Codec α) : Codec (List α) where
  isDynamic := true
  footprint := 24
  encode as := sizeWord as.length ++ assemble (as.map c.part)
  read input := do
    let (count, rest) ← readSize input
    if addressable ≤ count * c.footprint then throw .countTooLarge
    c.readMany rest count rest
  valid as := as.all c.valid

/-- A tuple: its fields as a sequence. -/
def tuple (fields : Fields α) : Codec α where
  isDynamic := fields.isDynamic
  footprint := fields.footprint
  encode a := assemble (fields.parts a)
  read input := fields.read input input
  valid := fields.valid

end Codec

namespace Fields

variable {α β : Type}

/-- A sequence of one value. -/
def single (c : Codec α) : Fields α where
  isDynamic := c.isDynamic
  footprint := c.footprint
  parts a := [c.part a]
  read := c.readHead
  valid := c.valid

/-- One more value in front of a sequence. -/
def cons (c : Codec α) (fields : Fields β) : Fields (α × β) where
  isDynamic := c.isDynamic || fields.isDynamic
  footprint := c.footprint + fields.footprint
  parts ab := c.part ab.1 :: fields.parts ab.2
  read base input := do
    let (a, input) ← c.readHead base input
    let (b, input) ← fields.read base input
    pure ((a, b), input)
  valid ab := c.valid ab.1 && fields.valid ab.2

/-- The encoding of a sequence that stands alone. -/
def encode (fields : Fields α) (a : α) : Bytes := assemble (fields.parts a)

/-- Decodes a sequence that stands alone. The input has to be the encoding of the values, and the
values have to be in range; `name` names the types of the sequence. -/
def decode (fields : Fields α) (name : String) (input : Bytes) : Except Error α := do
  let (a, _) ← fields.read input input
  if fields.encode a ≠ input then throw .notCanonical
  if fields.valid a then pure a
  else throw (.typeCheck name (assemble [(Codec.tuple fields).part a]))

/-- An accepted input is the encoding of its values. -/
theorem encode_of_decode {fields : Fields α} {name : String} {input : Bytes} {a : α}
    (h : fields.decode name input = .ok a) : fields.encode a = input := by
  unfold decode at h
  cases hr : fields.read input input with
  | error e => simp [hr, bind, Except.bind] at h
  | ok r =>
    by_cases hc : fields.encode r.1 = input
    · by_cases hv : fields.valid r.1
      · simp [hr, hc, hv, bind, Except.bind, pure, Except.pure] at h
        rwa [← h]
      · simp [hr, hc, hv, bind, Except.bind, throw, throwThe, MonadExceptOf.throw] at h
    · simp [hr, hc, bind, Except.bind, throw, throwThe, MonadExceptOf.throw] at h

end Fields

end StorageGateway.Abi
