import StorageGateway.Error

/-!
# Storage leaves

The leaf of a storage trie is an RLP list of two strings, the path of the slot and the encoding of
the stored number.

## Main definitions

* `StorageLeaf` with `encode`, `read` and `length`.
-/

namespace StorageGateway

/-- A leaf of a storage trie. -/
structure StorageLeaf where
  /-- The digest of the slot. -/
  path : Bytes
  /-- The RLP encoding of the stored number. -/
  value : Bytes
deriving DecidableEq

namespace StorageLeaf

/-- The leaf of a word stored at a slot. -/
def ofWord (slot : UInt256) (word : Word) : StorageLeaf :=
  ⟨(keccak256 slot.toWord.toList).toList, Rlp.number word.toUInt256⟩

/-- The encoding of a leaf. -/
def encode (leaf : StorageLeaf) : Bytes := Rlp.list (Rlp.string leaf.path ++ Rlp.string leaf.value)

/-- The length of the encoding of a leaf. -/
def length (leaf : StorageLeaf) : Nat :=
  let payload := Rlp.stringLength leaf.path + Rlp.stringLength leaf.value
  Rlp.headerLength payload + payload

/-- Reads a leaf. The two strings are read first, and then compared in length with the payload
that the list announces. -/
def read : Rlp.Reader StorageLeaf := fun buffer => do
  let (announced, rest) ← Rlp.readListHeader buffer
  let (path, rest') ← Rlp.readString rest
  let (value, rest') ← Rlp.readString rest'
  let consumed := rest.length - rest'.length
  if consumed = announced then .ok (⟨path, value⟩, rest')
  else .error (.listLengthMismatch announced consumed)

end StorageLeaf

end StorageGateway
