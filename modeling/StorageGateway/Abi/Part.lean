import StorageGateway.Slot

/-!
# Heads and tails

Contract calls encode a sequence of values as a head section followed by a tail section. A value
of fixed size stands in its head; any other has the offset of its tail, in one word, as its head.
Offsets count from the start of the sequence.

## Main definitions

* `Abi.Part` — the bytes of one value and whether they go to the tail.
* `Abi.assemble` — the encoding of a sequence from its parts.
* `Abi.readWord`, `Abi.readSize` — a word, and a word that is an offset, a count or a length.
-/

namespace StorageGateway.Abi

/-- Why a byte string is no encoding of the values asked for. -/
inductive Error where
  /-- The input ends before what it announces. -/
  | overrun
  /-- The values encode to other bytes than the input. -/
  | notCanonical
  /-- Some bytes are no value of the named type. -/
  | typeCheck (expected : String) (data : Bytes)
  /-- So many elements could not be held. -/
  | countTooLarge
deriving DecidableEq

/-- The wording of an error. -/
def Error.message : Error → String
  | overrun => "buffer overrun while deserializing"
  | notCanonical => "reserialization did not match original"
  | typeCheck expected data =>
    "type check failed for \"" ++ expected ++ "\" with data: " ++ Hex.digits data
  | countTooLarge => "array count too large"

/-! ## Words -/

/-- The word of a number. -/
def sizeWord (n : Nat) : Bytes := BigEndian.encode 32 n

/-- The word at the front. -/
def readWord (input : Bytes) : Except Error (Word × Bytes) :=
  match FixedBytes.take? 32 input with
  | some (w, rest) => .ok (w, rest)
  | none => .error .overrun

/-- The type that offsets, counts and lengths are checked against. -/
def sizeName : String := "offset (usize)"

/-- The offset, count or length in the word at the front; it has to fit in 64 bits. -/
def readSize (input : Bytes) : Except Error (Nat × Bytes) := do
  let (w, rest) ← readWord input
  if w.toNat < limit64 then .ok (w.toNat, rest) else .error (.typeCheck sizeName w.toList)

/-! ## Parts -/

/-- The bytes of one value of a sequence. -/
structure Part where
  /-- Whether the bytes go to the tail section. -/
  isDynamic : Bool
  /-- The bytes. -/
  bytes : Bytes
deriving DecidableEq

namespace Part

/-- How many bytes the part takes in the head section. -/
def headSize (p : Part) : Nat := if p.isDynamic then 32 else p.bytes.length

/-- What the part adds to the tail section. -/
def tail (p : Part) : Bytes := if p.isDynamic then p.bytes else []

/-- The head of a part whose tail is at `offset`. -/
def head (offset : Nat) (p : Part) : Bytes := if p.isDynamic then sizeWord offset else p.bytes

end Part

/-- The size of the head section of parts. -/
def headsSize (parts : List Part) : Nat := parts.foldr (fun p n => p.headSize + n) 0

/-- The head section of parts whose tails start at `offset`. -/
def heads : (offset : Nat) → List Part → Bytes
  | _, [] => []
  | offset, p :: ps => p.head offset ++ heads (offset + p.tail.length) ps

/-- The encoding of a sequence. -/
def assemble (parts : List Part) : Bytes :=
  heads (headsSize parts) parts ++ parts.flatMap Part.tail

theorem length_heads (offset : Nat) (parts : List Part) :
    (heads offset parts).length = headsSize parts := by
  induction parts generalizing offset with
  | nil => rfl
  | cons p ps ih =>
    simp only [heads, List.length_append, ih, headsSize, List.foldr_cons]
    congr 1
    unfold Part.head Part.headSize
    split <;> simp [sizeWord]

end StorageGateway.Abi
