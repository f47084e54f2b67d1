import StorageGateway.Error

/-!
# Values of dynamic length in storage

A byte string of up to 31 bytes lies in its base slot: the bytes from the left, and twice the
length in the last byte. A longer one has twice its length plus one in the base slot, and its
bytes, 32 a slot and padded with zeros, in the data slots.

## Main definitions

* `LengthWord.ofWord` — what the word at the base slot tells.
* `shortWord?` — the word of a short value.
* `dynamicWrites` — the slots and words that store a value.
-/

namespace StorageGateway

/-- What the word at the base slot of a byte string tells. -/
inductive LengthWord where
  /-- The value itself, of at most 31 bytes. -/
  | short (value : Bytes)
  /-- The length of the value and the slots that hold its bytes. -/
  | long (length : Nat) (slots : List UInt256)
deriving DecidableEq

namespace LengthWord

/-- The most bytes of a value that lies in its base slot. -/
def shortLimit : Nat := 31

/-- Reads the word found at `slot`; long values may have up to `max` bytes, and the length has to
fit in 64 bits whatever the maximum. -/
def ofWord (slot : UInt256) (word : Word) (max : Nat) : Result LengthWord :=
  let last := (word.toList.getLastD 0).toNat
  if last % 2 = 0 then
    let length := last / 2
    if length ≤ shortLimit then .ok (.short (word.toList.take length))
    else .error (.malformedValue slot s!"short value length {length} exceeds 31 bytes")
  else
    let length := (word.toNat - 1) / 2
    if length < limit64 ∧ length ≤ max then
      .ok (.long length (dataSlots slot (Bytes.pieces 32 length)))
    else .error (.valueTooLarge slot (BitVec.ofNat 256 length) max)

end LengthWord

/-! ## Storing -/

/-- The word of a value of at most 31 bytes. -/
def shortWord? (value : Bytes) : Option Word :=
  if value.length ≤ LengthWord.shortLimit then
    some ⟨(FixedBytes.padded 31 value).toList ++ [UInt8.ofNat (2 * value.length)], by simp⟩
  else none

/-- The word at the base slot of a longer value. -/
def longWord (length : Nat) : Word := FixedBytes.ofNat 32 (2 * length + 1)

/-- The words that hold the bytes of a longer value. -/
def dataWords (value : Bytes) : List Word := (Bytes.chunks 32 value).map (FixedBytes.padded 32)

/-- The writes that store a value at `slot`, in order. -/
def dynamicWrites (slot : UInt256) (value : Bytes) : List (UInt256 × Word) :=
  match shortWord? value with
  | some word => [(slot, word)]
  | none =>
    let words := dataWords value
    (slot, longWord value.length) :: (dataSlots slot words.length).zip words

end StorageGateway
