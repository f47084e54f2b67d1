import StorageGateway.Keccak
import StorageGateway.Hex

/-!
# Slots, words and addresses

A storage slot is a number below `2 ^ 256`, and so are lengths and indices read from storage; the
word stored at a slot is 32 bytes. The two convert into each other, most significant byte first.

## Main definitions

* `UInt256` and `UInt256.toWord`, `Word.toUInt256` — numbers and words.
* `dataStart`, `dataSlots` — where the bytes of a long value go, for its base slot.
* `Address.checksummed` — an address with the mixed case that encodes its checksum.
-/

namespace StorageGateway

/-- A number below `2 ^ 256`; its arithmetic wraps. -/
abbrev UInt256 := BitVec 256

/-- The address of a contract. -/
abbrev Address := FixedBytes 20

/-- The 32 bytes of a number. -/
def UInt256.toWord (n : UInt256) : Word := FixedBytes.ofNat 32 n.toNat

/-- The number that a word denotes. -/
def Word.toUInt256 (w : Word) : UInt256 := BitVec.ofNat 256 w.toNat

/-- The word of 32 zero bytes. -/
def Word.zero : Word := FixedBytes.zero 32

/-- The slot where the bytes of a long value based at `slot` start: the digest of the base slot. -/
def dataStart (slot : UInt256) : UInt256 := (keccak256 slot.toWord.toList).toUInt256

/-- The first `count` slots that hold the bytes of a long value based at `slot`. -/
def dataSlots (slot : UInt256) (count : Nat) : List UInt256 :=
  let start := dataStart slot
  (List.range count).map fun i => start + BitVec.ofNat 256 i

@[simp] theorem length_dataSlots (slot : UInt256) (count : Nat) :
    (dataSlots slot count).length = count := by
  simp [dataSlots]

/-! ## Addresses -/

namespace Address

/-- The address of 20 zero bytes. -/
def zero : Address := FixedBytes.zero 20

/-- An address as a number. -/
def toUInt256 (a : Address) : UInt256 := BitVec.ofNat 256 a.toNat

/-- The address in the low 20 bytes of a word. -/
def ofWord (w : Word) : Address := ⟨w.toList.drop 12, by simp⟩

/-- An address as a word, twelve zero bytes first. -/
def toWord (a : Address) : Word := ⟨List.replicate 12 0 ++ a.toList, by simp⟩

@[simp] theorem ofWord_toWord (a : Address) : ofWord (toWord a) = a := by
  apply FixedBytes.ext
  simp [ofWord, toWord]

/-- The digits of an address, in upper case where the digit of the digest of the lower-case digits
is at least eight. -/
def checksummed (a : Address) : String :=
  let text := (Hex.digits a.toList).toList
  let marks := (keccak256 (text.map fun c => c.toNat.toUInt8)).toList.flatMap fun b =>
    [b.toNat / 16, b.toNat % 16]
  "0x" ++ String.ofList (List.zipWith (fun c mark => if 8 ≤ mark then c.toUpper else c) text marks)

end Address

end StorageGateway
